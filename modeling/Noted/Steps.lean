import Noted.Assets

/-!
# What a step can do

The outcomes of every event, and the invariant that every step keeps: the tables are
coherent, calls in flight hold different keys, the asset keys are as the collector
keeps them, and every UUID in a table was generated.
-/

namespace Noted

open Library Db

namespace Sys

variable {s : Service} {σ σ' : Sys} {e : Event} {r : Response}

inductive Stepped (s : Service) (σ : Sys) : Event → Response → Sys → Prop
  | tick (clock : Time) (h : σ.clock ≤ clock) :
      Stepped s σ (.tick clock) .done { σ with clock := clock }
  | callDone (c : Call) (fresh : Fresh) (db : Db) (hfresh : σ.Grants s fresh)
      (hrun : c.run s fresh σ.clock σ.db = .ok db) :
      Stepped s σ (.call c fresh) .done { σ.spend fresh with db := db }
  | callFailed (c : Call) (fresh : Fresh) (e : Error) (hfresh : σ.Grants s fresh)
      (hrun : c.run s fresh σ.clock σ.db = .error e) :
      Stepped s σ (.call c fresh) (.failed e) (σ.spend fresh)
  | attachRefused (owner id : Id) (filename : Text) (revision : Int) (data : Bytes) (key : Key)
      (e : Error) : Stepped s σ (.beginAttach owner id filename revision data key) (.failed e) σ
  | attachSaved (owner id : Id) (filename : Text) (revision : Int) (data : Bytes) (key : Key)
      (file : ImportBytes) (hkey : key ∉ σ.keys) (hfile : uploadedFile s data = .ok file) :
      Stepped s σ (.beginAttach owner id filename revision data key) .done
        (σ.save s owner (.attach id filename revision file) key data)
  | finalizeRefused (owner id : Id) (revision : Int) (data : Bytes) (key : Key) (e : Error) :
      Stepped s σ (.beginFinalize owner id revision data key) (.failed e) σ
  | finalizeRetried (owner id : Id) (revision : Int) (data : Bytes) (key : Key)
      (result : FinalizeResult)
      (hchecks : finalizeChecks s owner id revision data σ.clock σ.db = .ok (.done result)) :
      Stepped s σ (.beginFinalize owner id revision data key) (.finalized result) σ
  | finalizeSaved (owner id : Id) (revision : Int) (data bytes : Bytes) (key : Key)
      (hkey : key ∉ σ.keys) (plan : FinalizePlan)
      (hplan : Planned s owner id revision data σ.clock σ.db plan) :
      Stepped s σ (.beginFinalize owner id revision data key) .done
        (σ.save s owner (.finalize id revision data) key bytes)
  | attached (f : Flight) (fresh : Fresh) (id : Id) (filename : Text) (revision : Int)
      (file : ImportBytes) (db : Db) (hf : f ∈ σ.flights) (hfresh : σ.Grants s fresh)
      (hupload : f.upload = .attach id filename revision file)
      (hrun : attachSource s f.owner id filename revision file f.object fresh σ.clock σ.db = .ok db) :
      Stepped s σ (.commit f fresh) .done
        { σ.spend fresh with db := db, flights := σ.flights.erase f }
  | finalized (f : Flight) (fresh : Fresh) (id : Id) (revision : Int) (data : Bytes)
      (plan : FinalizePlan) (db : Db) (result : FinalizeResult) (hf : f ∈ σ.flights)
      (hfresh : σ.Grants s fresh) (hupload : f.upload = .finalize id revision data)
      (hplan : Planned s f.owner id revision data σ.clock σ.db plan)
      (hrun : finalizeWrites s f.owner plan f.object fresh.id σ.clock σ.db = .ok (db, result)) :
      Stepped s σ (.commit f fresh) (.finalized result)
        { σ.spend fresh with db := db, flights := σ.flights.erase f }
  | retried (f : Flight) (fresh : Fresh) (id : Id) (revision : Int) (data : Bytes)
      (result : FinalizeResult) (hf : f ∈ σ.flights) (hfresh : σ.Grants s fresh)
      (hupload : f.upload = .finalize id revision data)
      (hchecks : finalizeChecks s f.owner id revision data σ.clock σ.db = .ok (.done result)) :
      Stepped s σ (.commit f fresh) (.finalized result) ((σ.spend fresh).giveUp f)
  | commitFailed (f : Flight) (fresh : Fresh) (e : Error) (hf : f ∈ σ.flights)
      (hfresh : σ.Grants s fresh) :
      Stepped s σ (.commit f fresh) (.failed e) ((σ.spend fresh).giveUp f)
  | aborted (f : Flight) (hf : f ∈ σ.flights) :
      Stepped s σ (.abort f) (.failed .database) (σ.giveUp f)
  | objectQueued (key : Key) (hkey : key ∈ σ.unqueued) :
      Stepped s σ (.queueObject key) .done
        { σ with db := σ.db.enqueue σ.clock key, unqueued := σ.unqueued.erase key }
  | expired : Stepped s σ .cleanupBegin .done
      { σ with db := expireDrafts σ.clock σ.db, cleanups := .reading :: σ.cleanups }
  | read (rows : List QueueRow) (h : .reading ∈ σ.cleanups) (hrows : OrderedQueue σ.db rows) :
      Stepped s σ (.cleanupRead rows) .done
        (σ.advance .reading (.checking (queuedKeys rows)))
  | skipped (key : Key) (rest : List Key) (h : .checking (key :: rest) ∈ σ.cleanups)
      (href : σ.db.referenced key = true) : Stepped s σ (.cleanupCheck key rest) .done
      (σ.advance (.checking (key :: rest)) (.checking rest))
  | condemned (key : Key) (rest : List Key) (h : .checking (key :: rest) ∈ σ.cleanups)
      (href : σ.db.referenced key = false) : Stepped s σ (.cleanupCheck key rest) .done
      (σ.advance (.checking (key :: rest)) (.deleting key rest))
  | deleted (key : Key) (rest : List Key) (h : .deleting key rest ∈ σ.cleanups) :
      Stepped s σ (.cleanupDelete key rest true) .done
        { σ.advance (.deleting key rest) (.recording key true rest) with
          store := fun k => if k = key then none else σ.store k }
  | notDeleted (key : Key) (rest : List Key) (h : .deleting key rest ∈ σ.cleanups) :
      Stepped s σ (.cleanupDelete key rest false) .done
        (σ.advance (.deleting key rest) (.recording key false rest))
  | dequeued (key : Key) (rest : List Key) (h : .recording key true rest ∈ σ.cleanups) :
      Stepped s σ (.cleanupRecord key true rest) .done
        { σ.advance (.recording key true rest) (.checking rest) with db := σ.db.dequeue key }
  | counted (key : Key) (rest : List Key) (h : .recording key false rest ∈ σ.cleanups) :
      Stepped s σ (.cleanupRecord key false rest) .done
        { σ.advance (.recording key false rest) (.checking rest) with
          db := σ.db.countAttempt key }
  | ended (run : Cleanup) (h : run ∈ σ.cleanups) :
      Stepped s σ (.cleanupEnd run) .done { σ with cleanups := σ.cleanups.erase run }

theorem commit_stepped {f : Flight} {fresh : Fresh} (hf : f ∈ σ.flights) (hfresh : σ.Grants s fresh)
    (h : (σ.spend fresh).commit s f fresh = (r, σ')) : Stepped s σ (.commit f fresh) r σ' := by
  unfold commit at h
  split at h
  · rename_i id filename revision file hupload
    split at h
    · obtain ⟨rfl, rfl⟩ := Prod.mk.inj h
      exact .commitFailed f fresh _ hf hfresh
    · rename_i db hrun
      obtain ⟨rfl, rfl⟩ := Prod.mk.inj h
      exact .attached f fresh id filename revision file db hf hfresh hupload hrun
  · rename_i id revision data hupload
    split at h
    · obtain ⟨rfl, rfl⟩ := Prod.mk.inj h
      exact .commitFailed f fresh _ hf hfresh
    · rename_i result hchecks
      obtain ⟨rfl, rfl⟩ := Prod.mk.inj h
      exact .retried f fresh id revision data result hf hfresh hupload hchecks
    · rename_i plan hchecks
      split at h
      · obtain ⟨rfl, rfl⟩ := Prod.mk.inj h
        exact .commitFailed f fresh _ hf hfresh
      · rename_i db result hrun
        obtain ⟨rfl, rfl⟩ := Prod.mk.inj h
        exact .finalized f fresh id revision data plan db result hf hfresh hupload
          (finalizeChecks_save hchecks) hrun

theorem beginAttach_stepped {owner id : Id} {filename : Text} {revision : Int} {data : Bytes}
    {key : Key} (hkey : key ∉ σ.keys)
    (h : σ.beginAttach s owner id filename revision data key = (r, σ')) :
    Stepped s σ (.beginAttach owner id filename revision data key) r σ' := by
  unfold beginAttach at h
  split at h
  · obtain ⟨rfl, rfl⟩ := Prod.mk.inj h
    exact .attachRefused owner id filename revision data key _
  · rename_i file hchecks
    obtain ⟨rfl, rfl⟩ := Prod.mk.inj h
    simp only [bind_eq_ok, pure_eq_ok, Except.ok.injEq] at hchecks
    obtain ⟨file, hfile, d, -, rfl⟩ := hchecks
    exact .attachSaved owner id filename revision data key file hkey hfile

theorem beginFinalize_stepped {owner id : Id} {revision : Int} {data : Bytes} {key : Key}
    (hkey : key ∉ σ.keys) (h : σ.beginFinalize s owner id revision data key = (r, σ')) :
    Stepped s σ (.beginFinalize owner id revision data key) r σ' := by
  unfold beginFinalize at h
  split at h
  · obtain ⟨rfl, rfl⟩ := Prod.mk.inj h
    exact .finalizeRefused owner id revision data key _
  · rename_i result hchecks
    obtain ⟨rfl, rfl⟩ := Prod.mk.inj h
    exact .finalizeRetried owner id revision data key result hchecks
  · rename_i plan hchecks
    split at h
    · obtain ⟨rfl, rfl⟩ := Prod.mk.inj h
      exact .finalizeRefused owner id revision data key _
    · rename_i bytes hbytes
      obtain ⟨rfl, rfl⟩ := Prod.mk.inj h
      exact .finalizeSaved owner id revision data bytes key hkey plan (finalizeChecks_save hchecks)

/-- Every step has one of these outcomes. -/
theorem step_stepped (h : step s σ e = some (r, σ')) : Stepped s σ e r σ' := by
  cases e with
  | tick clock =>
    obtain ⟨hle, heq⟩ := Option.ite_none_right_eq_some.mp h
    obtain ⟨rfl, rfl⟩ := Prod.mk.inj (Option.some.inj heq)
    exact .tick clock hle
  | call c fresh =>
    obtain ⟨hfresh, heq⟩ := Option.ite_none_right_eq_some.mp h
    have heq := Option.some.inj heq
    unfold answer at heq
    split at heq
    · rename_i db hrun
      obtain ⟨rfl, rfl⟩ := Prod.mk.inj heq
      exact .callDone c fresh db hfresh hrun
    · rename_i e hrun
      obtain ⟨rfl, rfl⟩ := Prod.mk.inj heq
      exact .callFailed c fresh e hfresh hrun
  | beginAttach owner id filename revision data key =>
    obtain ⟨hkey, heq⟩ := Option.ite_none_left_eq_some.mp h
    exact beginAttach_stepped hkey (Option.some.inj heq)
  | beginFinalize owner id revision data key =>
    obtain ⟨hkey, heq⟩ := Option.ite_none_left_eq_some.mp h
    exact beginFinalize_stepped hkey (Option.some.inj heq)
  | commit f fresh =>
    obtain ⟨⟨hf, hfresh⟩, heq⟩ := Option.ite_none_right_eq_some.mp h
    exact commit_stepped hf hfresh (Option.some.inj heq)
  | abort f =>
    obtain ⟨hf, heq⟩ := Option.ite_none_right_eq_some.mp h
    obtain ⟨rfl, rfl⟩ := Prod.mk.inj (Option.some.inj heq)
    exact .aborted f hf
  | queueObject key =>
    obtain ⟨hkey, heq⟩ := Option.ite_none_right_eq_some.mp h
    obtain ⟨rfl, rfl⟩ := Prod.mk.inj (Option.some.inj heq)
    exact .objectQueued key hkey
  | cleanupBegin =>
    obtain ⟨rfl, rfl⟩ := Prod.mk.inj (Option.some.inj h)
    exact .expired
  | cleanupRead rows =>
    obtain ⟨⟨hrun, hrows⟩, heq⟩ := Option.ite_none_right_eq_some.mp h
    obtain ⟨rfl, rfl⟩ := Prod.mk.inj (Option.some.inj heq)
    exact .read rows hrun hrows
  | cleanupCheck key rest =>
    obtain ⟨hrun, heq⟩ := Option.ite_none_right_eq_some.mp h
    obtain ⟨rfl, rfl⟩ := Prod.mk.inj (Option.some.inj heq)
    cases href : σ.db.referenced key with
    | true => exact .skipped key rest hrun href
    | false => exact .condemned key rest hrun href
  | cleanupDelete key rest deleted =>
    obtain ⟨hrun, heq⟩ := Option.ite_none_right_eq_some.mp h
    obtain ⟨rfl, rfl⟩ := Prod.mk.inj (Option.some.inj heq)
    cases deleted with
    | true => exact .deleted key rest hrun
    | false => exact .notDeleted key rest hrun
  | cleanupRecord key deleted rest =>
    obtain ⟨hrun, heq⟩ := Option.ite_none_right_eq_some.mp h
    obtain ⟨rfl, rfl⟩ := Prod.mk.inj (Option.some.inj heq)
    cases deleted with
    | true => exact .dequeued key rest hrun
    | false => exact .counted key rest hrun
  | cleanupEnd run =>
    obtain ⟨hrun, heq⟩ := Option.ite_none_right_eq_some.mp h
    obtain ⟨rfl, rfl⟩ := Prod.mk.inj (Option.some.inj heq)
    exact .ended run hrun

end Sys

end Noted
