import Noted.Steps

/-!
# The service is a collector

Every step of the service is a few steps of `Library.Collector`, so no file is
deleted while a row refers to it, and none is forgotten.
-/

namespace Noted

open Library Db

def Cleanup.keys : Cleanup → List Key
  | .reading => []
  | .checking keys => keys
  | .deleting key rest => key :: rest
  | .recording key _ rest => key :: rest

def Cleanup.condemned : Cleanup → Option Key
  | .deleting key _ => some key
  | .recording key _ _ => some key
  | _ => none

def Cleanup.deleted : Cleanup → Option Key
  | .recording key true _ => some key
  | _ => none

namespace Sys

variable {s : Service} {σ σ' : Sys} {e : Event} {r : Response}

def collector (σ : Sys) : Collector.State Key where
  issued := {k | k ∈ σ.keys}
  stored := {k | (σ.store k).isSome = true}
  live := σ.db.refs
  held := {k | ∃ f ∈ σ.flights, f.object.key = k}
  spare := {k | k ∈ σ.unqueued}
  queued := σ.db.pending
  picked := {k | ∃ c ∈ σ.cleanups, k ∈ c.keys}
  condemned := {k | ∃ c ∈ σ.cleanups, c.condemned = some k}
  deleted := {k | ∃ c ∈ σ.cleanups, c.deleted = some k}

section Moves

variable {f : Flight} {fresh : Fresh} {before after : Cleanup}

theorem save_step {owner : Id} {upload : Upload} {key : Key} {data : Bytes} (hkey : key ∉ σ.keys) :
    Collector.Step σ.collector (σ.save s owner upload key data).collector := by
  have hstep := Collector.Step.save σ.collector key hkey
  convert hstep using 1
  apply Collector.State.ext
  · ext k
    exact List.mem_cons
  · ext k
    change ((if k = key then some data else σ.store k).isSome = true) ↔
      k = key ∨ (σ.store k).isSome = true
    by_cases hk : k = key <;> simp [hk]
  · rfl
  · ext k
    change (∃ g ∈ _ :: σ.flights, g.object.key = k) ↔ k = key ∨ ∃ g ∈ σ.flights, g.object.key = k
    rw [List.exists_mem_cons_iff]
    exact or_congr_left eq_comm
  all_goals rfl

theorem held_erase (hf : f ∈ σ.flights) (hnodup : (σ.flights.map fun f => f.object.key).Nodup) :
    {k | ∃ g ∈ σ.flights.erase f, g.object.key = k} =
      σ.collector.held \ {f.object.key} := by
  have hflights : σ.flights.Nodup := List.Nodup.of_map _ hnodup
  ext k
  rw [Set.mem_sdiff, Set.mem_singleton_iff]
  change (∃ g ∈ σ.flights.erase f, g.object.key = k) ↔ (∃ g ∈ σ.flights, g.object.key = k) ∧ _
  constructor
  · intro h
    obtain ⟨g, hg, rfl⟩ := h
    obtain ⟨hne, hg⟩ := (List.Nodup.mem_erase_iff hflights).mp hg
    refine ⟨⟨g, hg, rfl⟩, ?_⟩
    intro heq
    exact hne (List.inj_on_of_nodup_map hnodup hg hf heq)
  · intro h
    obtain ⟨⟨g, hg, rfl⟩, hne⟩ := h
    refine ⟨g, (List.Nodup.mem_erase_iff hflights).mpr ⟨?_, hg⟩, rfl⟩
    rintro rfl
    exact hne rfl

theorem giveUp_step (hf : f ∈ σ.flights)
    (hnodup : (σ.flights.map fun f => f.object.key).Nodup) :
    Collector.Step σ.collector (σ.giveUp f).collector := by
  have hstep := Collector.Step.giveUp σ.collector f.object.key ⟨f, hf, rfl⟩
  convert hstep using 1
  apply Collector.State.ext
  · rfl
  · rfl
  · rfl
  · exact held_erase hf hnodup
  · ext k
    exact List.mem_cons
  all_goals rfl

theorem commit_step {db : Db} (h : KeyStep ∅ ∅ σ.db db) :
    Collector.Step σ.collector { σ with db := db }.collector := by
  have hstep := Collector.Step.commit σ.collector ∅ db.refs db.pending (Set.empty_subset _)
    h.gain h.queue h.stay ?_
  · convert hstep using 1
    apply Collector.State.ext
    case held => exact Set.sdiff_empty.symm
    all_goals rfl
  · intro k hk
    obtain hk | hk := hk
    · obtain hk | hk | hk := h.kept k hk
      · exact Or.inl hk
      · exact Or.inr hk
      · cases hk
    · cases hk

theorem land_step {db : Db} (hf : f ∈ σ.flights)
    (hnodup : (σ.flights.map fun f => f.object.key).Nodup)
    (h : KeyStep {f.object.key} ∅ σ.db db) (hlanded : f.object.key ∈ db.refs) :
    Collector.Step σ.collector { σ with db := db, flights := σ.flights.erase f }.collector := by
  have hstep := Collector.Step.commit σ.collector {f.object.key} db.refs db.pending ?_
    h.gain h.queue h.stay ?_
  · convert hstep using 1
    apply Collector.State.ext
    case held => exact held_erase hf hnodup
    all_goals rfl
  · intro k hk
    rw [Set.mem_singleton_iff.mp hk]
    exact ⟨f, hf, rfl⟩
  · intro k hk
    obtain hk | rfl := hk
    · obtain hk | hk | hk := h.kept k hk
      · exact Or.inl hk
      · exact Or.inr hk
      · cases hk
    · exact Or.inl hlanded

theorem mem_advance {c : Cleanup} (h : c ∈ (σ.advance before after).cleanups) :
    c = after ∨ c ∈ σ.cleanups := by
  obtain rfl | h := List.mem_cons.mp h
  · exact Or.inl rfl
  · exact Or.inr (List.mem_of_mem_erase h)

theorem advance_drop (a : Collector.State Key) {db : Db} {store : Key → Option Bytes}
    (ha : { σ.advance before after with db := db, store := store }.collector = { a with
      picked := (σ.advance before after).collector.picked
      condemned := (σ.advance before after).collector.condemned
      deleted := (σ.advance before after).collector.deleted })
    (hpicked : σ.collector.picked ⊆ a.picked) (hcondemned : σ.collector.condemned ⊆ a.condemned)
    (hdeleted : σ.collector.deleted ⊆ a.deleted) (hkeys : ∀ k ∈ after.keys, k ∈ a.picked)
    (hcondemn : ∀ k, after.condemned = some k → k ∈ a.condemned)
    (hdelete : ∀ k, after.deleted = some k → k ∈ a.deleted) :
    Collector.Step a { σ.advance before after with db := db, store := store }.collector := by
  apply Collector.Step.drop ha
  · intro k hk
    obtain ⟨c, hc, hk⟩ := hk
    obtain rfl | hc := mem_advance hc
    · exact hkeys k hk
    · exact hpicked ⟨c, hc, hk⟩
  · intro k hk
    obtain ⟨c, hc, hk⟩ := hk
    obtain rfl | hc := mem_advance hc
    · exact hcondemn k hk
    · exact hcondemned ⟨c, hc, hk⟩
  · intro k hk
    obtain ⟨c, hc, hk⟩ := hk
    obtain rfl | hc := mem_advance hc
    · exact hdelete k hk
    · exact hdeleted ⟨c, hc, hk⟩

theorem queueObject_step {key : Key} (hkey : key ∈ σ.unqueued) :
    Collector.Step σ.collector { σ with
      db := σ.db.enqueue σ.clock key, unqueued := σ.unqueued.erase key }.collector := by
  have hstep := Collector.Step.queueSpare σ.collector key {k | k ∈ σ.unqueued.erase key} hkey
    (fun k hk => List.mem_of_mem_erase hk) ?_
  · convert hstep using 1
    apply Collector.State.ext
    case queued =>
      obtain ⟨queue, heq, hqueue⟩ := enqueue_foldl σ.clock [key] σ.db
      ext k
      have hk := hqueue k
      rw [List.mem_singleton] at hk
      change k ∈ (σ.db.enqueue σ.clock key).pending ↔ k = key ∨ k ∈ σ.db.pending
      rw [or_comm, mem_pending, mem_pending, ← hk]
      change (∃ q ∈ ([key].foldl (fun db key => db.enqueue σ.clock key) σ.db).queue, _) ↔ _
      rw [heq]
    all_goals rfl
  · intro k hk
    by_cases heq : k = key
    · exact Or.inl heq
    · exact Or.inr ((List.mem_erase_of_ne heq).mpr hk)

theorem dequeue_step {a : Collector.State Key} {key : Key} (ha : a.queued = σ.db.pending)
    (hkey : key ∈ a.deleted) :
    Collector.Step a { a with queued := (σ.db.dequeue key).pending } := by
  have hstep := Collector.Step.dequeue a key hkey
  convert hstep using 2
  ext k
  rw [ha, Set.mem_sdiff, Set.mem_singleton_iff, mem_pending, mem_pending]
  constructor
  · intro h
    obtain ⟨q, hq, rfl⟩ := h
    obtain ⟨hq, hne⟩ := Table.mem_delete.mp hq
    exact ⟨⟨q, hq, rfl⟩, by simpa using hne⟩
  · intro h
    obtain ⟨⟨q, hq, rfl⟩, hne⟩ := h
    exact ⟨q, Table.mem_delete.mpr ⟨hq, by simpa using hne⟩, rfl⟩

theorem delete_step {a : Collector.State Key} {key : Key}
    (ha : a.stored = {k | (σ.store k).isSome = true}) (hkey : key ∈ a.condemned) :
    Collector.Step a { a with
      stored := {k | (if k = key then none else σ.store k).isSome = true}
      deleted := insert key a.deleted } := by
  have hstep := Collector.Step.delete a key hkey
  convert hstep using 2
  ext k
  rw [ha, Set.mem_sdiff, Set.mem_singleton_iff]
  by_cases hk : k = key <;> simp [hk]

theorem countAttempt_pending {key : Key} : (σ.db.countAttempt key).pending = σ.db.pending := by
  ext k
  rw [mem_pending, mem_pending, countAttempt_queue]
  simp only [Table.mem_modify]
  constructor
  · intro h
    obtain ⟨_, ⟨q, hq, rfl⟩, hk⟩ := h
    refine ⟨q, hq, ?_⟩
    split at hk <;> exact hk
  · intro h
    obtain ⟨q, hq, hk⟩ := h
    refine ⟨_, ⟨q, hq, rfl⟩, ?_⟩
    split <;> exact hk

theorem queuedKeys_pending {db : Db} {rows : List QueueRow} {k : Key} (hrows : OrderedQueue db rows)
    (h : k ∈ queuedKeys rows) : k ∈ db.pending := by
  obtain ⟨q, hq, rfl⟩ := List.mem_map.mp h
  exact ⟨q, hrows.1.mem_iff.mp (List.mem_of_mem_take hq), rfl⟩

end Moves

structure Sound (σ : Sys) : Prop where
  coherent : σ.db.Coherent
  flights : (σ.flights.map fun f => f.object.key).Nodup
  keys : Collector.Safe σ.collector

section Sound

theorem Sound.unreferenced (hσ : Sound σ) {f : Flight} (hf : f ∈ σ.flights) :
    (∀ a ∈ σ.db.assets, a.storageKey ≠ f.object.key) ∧
      ∀ g ∈ σ.db.pdfs, g.storageKey ≠ f.object.key := by
  have hfree := (hσ.keys.held_free f.object.key ⟨f, hf, rfl⟩).1
  constructor
  · intro a ha heq
    exact hfree (mem_refs.mpr (Or.inl ⟨a, ha, heq⟩))
  · intro g hg heq
    exact hfree (mem_refs.mpr (Or.inr ⟨g, hg, heq⟩))

theorem Stepped.coherent (h : Stepped s σ e r σ') (hσ : Sound σ) : σ'.db.Coherent := by
  cases h with
  | callDone c fresh db hfresh hrun => exact Call.coherent hσ.coherent hrun
  | attached f fresh id filename revision file db hf hfresh hupload hrun =>
    exact attachSource_coherent hσ.coherent (hσ.unreferenced hf).2 hrun
  | finalized f fresh id revision data plan db result hf hfresh hupload hplan hrun =>
    exact finalizeWrites_coherent hσ.coherent hplan (hσ.unreferenced hf).1 hrun
  | objectQueued key hkey => exact hσ.coherent.queue _
  | expired => exact expireDrafts_coherent hσ.coherent _
  | dequeued key rest hrun => exact hσ.coherent.queue _
  | counted key rest hrun => exact hσ.coherent.queue _
  | _ => exact hσ.coherent

theorem Stepped.flights (h : Stepped s σ e r σ') (hσ : Sound σ) :
    (σ'.flights.map fun f => f.object.key).Nodup := by
  have herase : ∀ f, ((σ.flights.erase f).map fun f => f.object.key).Nodup := fun f =>
    hσ.flights.sublist (List.erase_sublist.map _)
  have hfresh : ∀ key, key ∉ σ.keys → ∀ f ∈ σ.flights, f.object.key ≠ key := by
    rintro key hkey f hf rfl
    exact hkey (hσ.keys.stored_issued _ (hσ.keys.held_stored _ ⟨f, hf, rfl⟩))
  have hsave : ∀ key, key ∉ σ.keys → ∀ g : Flight, g.object.key = key →
      ((g :: σ.flights).map fun f => f.object.key).Nodup := by
    intro key hkey g hg
    rw [List.map_cons, List.nodup_cons]
    refine ⟨?_, hσ.flights⟩
    intro hmem
    obtain ⟨f, hf, heq⟩ := List.mem_map.mp hmem
    exact hfresh key hkey f hf (heq.trans hg)
  cases h with
  | attachSaved owner id filename revision data key file hkey hfile => exact hsave key hkey _ rfl
  | finalizeSaved owner id revision data bytes key hkey => exact hsave key hkey _ rfl
  | attached f => exact herase f
  | finalized f => exact herase f
  | retried f => exact herase f
  | commitFailed f => exact herase f
  | aborted f => exact herase f
  | _ => exact hσ.flights

/-- Every step of the service is made of steps of a collector. -/
theorem Stepped.collector (h : Stepped s σ e r σ') (hσ : Sound σ) :
    Collector.Steps σ.collector σ'.collector := by
  cases h with
  | tick clock hle => exact .refl
  | callDone c fresh db hfresh hrun => exact .single (commit_step (Call.keys hrun))
  | callFailed c fresh e hfresh hrun => exact .refl
  | attachRefused => exact .refl
  | attachSaved owner id filename revision data key file hkey hfile => exact .single (save_step hkey)
  | finalizeRefused => exact .refl
  | finalizeRetried => exact .refl
  | finalizeSaved owner id revision data bytes key hkey => exact .single (save_step hkey)
  | attached f fresh id filename revision file db hf hfresh hupload hrun =>
    obtain ⟨hkeys, hlanded⟩ := attachSource_keys hrun
    exact .single (land_step hf hσ.flights hkeys hlanded)
  | finalized f fresh id revision data plan db result hf hfresh hupload hplan hrun =>
    obtain ⟨hkeys, hlanded⟩ := finalizeWrites_keys hσ.coherent hplan hrun
    exact .single (land_step hf hσ.flights hkeys hlanded)
  | retried f fresh id revision data result hf => exact .single (giveUp_step hf hσ.flights)
  | commitFailed f fresh e hf => exact .single (giveUp_step hf hσ.flights)
  | aborted f hf => exact .single (giveUp_step hf hσ.flights)
  | objectQueued key hkey => exact .single (queueObject_step hkey)
  | expired =>
    refine .tail (.single (commit_step (expireDrafts_keys σ.clock σ.db))) ?_
    apply Collector.Step.drop rfl
    all_goals
      intro k hk
      obtain ⟨c, hc, hk⟩ := hk
      obtain rfl | hc := List.mem_cons.mp hc
      · cases hk
      · exact ⟨c, hc, hk⟩
  | read rows hrun hrows =>
    refine .tail (.single (.pick _ (σ.collector.picked ∪ σ.collector.queued) subset_rfl)) ?_
    refine advance_drop { σ.collector with picked := σ.collector.picked ∪ σ.collector.queued } rfl
      Set.subset_union_left subset_rfl subset_rfl ?_ ?_ ?_
    · intro k hk
      exact Or.inr (queuedKeys_pending hrows hk)
    · intro k hk
      cases hk
    · intro k hk
      cases hk
  | skipped key rest hrun href =>
    refine .single (advance_drop _ rfl subset_rfl subset_rfl subset_rfl ?_ ?_ ?_)
    · intro k hk
      exact ⟨_, hrun, List.mem_cons_of_mem key hk⟩
    · intro k hk
      cases hk
    · intro k hk
      cases hk
  | condemned key rest hrun href =>
    have hdead : key ∉ σ.collector.live := by
      intro hlive
      rw [show σ.db.referenced key = true from hlive] at href
      cases href
    refine .tail (.single (.condemn _ key ⟨_, hrun, List.mem_cons_self⟩ hdead)) ?_
    refine advance_drop { σ.collector with condemned := insert key σ.collector.condemned } rfl
      subset_rfl (Set.subset_insert _ _) subset_rfl ?_ ?_ ?_
    · intro k hk
      exact ⟨_, hrun, hk⟩
    · intro k hk
      exact Or.inl (Option.some.inj hk).symm
    · intro k hk
      cases hk
  | deleted key rest hrun =>
    refine .tail (.single (delete_step rfl ⟨_, hrun, rfl⟩)) ?_
    refine advance_drop { σ.collector with
      stored := {k | (if k = key then none else σ.store k).isSome = true}
      deleted := insert key σ.collector.deleted } rfl
      subset_rfl subset_rfl (Set.subset_insert _ _) ?_ ?_ ?_
    · intro k hk
      exact ⟨_, hrun, hk⟩
    · intro k hk
      exact ⟨_, hrun, hk⟩
    · intro k hk
      exact Or.inl (Option.some.inj hk).symm
  | notDeleted key rest hrun =>
    refine .single (advance_drop _ rfl subset_rfl subset_rfl subset_rfl ?_ ?_ ?_)
    · intro k hk
      exact ⟨_, hrun, hk⟩
    · intro k hk
      exact ⟨_, hrun, hk⟩
    · intro k hk
      cases hk
  | dequeued key rest hrun =>
    refine .tail (.single (dequeue_step rfl ⟨_, hrun, rfl⟩)) ?_
    refine advance_drop { σ.collector with queued := (σ.db.dequeue key).pending } rfl
      subset_rfl subset_rfl subset_rfl ?_ ?_ ?_
    · intro k hk
      exact ⟨_, hrun, List.mem_cons_of_mem key hk⟩
    · intro k hk
      cases hk
    · intro k hk
      cases hk
  | counted key rest hrun =>
    refine .single (advance_drop _ ?_ subset_rfl subset_rfl subset_rfl ?_ ?_ ?_)
    · apply Collector.State.ext
      case queued => exact countAttempt_pending
      all_goals rfl
    · intro k hk
      exact ⟨_, hrun, List.mem_cons_of_mem key hk⟩
    · intro k hk
      cases hk
    · intro k hk
      cases hk
  | ended run hrun =>
    refine .single (Collector.Step.drop rfl ?_ ?_ ?_)
    all_goals
      intro k hk
      obtain ⟨c, hc, hk⟩ := hk
      exact ⟨c, List.mem_of_mem_erase hc, hk⟩

theorem Sound.step (hσ : Sound σ) (h : step s σ e = some (r, σ')) : Sound σ' := by
  have hstepped := step_stepped h
  exact ⟨hstepped.coherent hσ, hstepped.flights hσ, (hstepped.collector hσ).safe hσ.keys⟩

end Sound

end Sys

variable {s : Service} {σ : Sys}

theorem Initial.sound (h : Initial σ) : σ.Sound := by
  have hheld : ∀ f, f ∉ σ.flights := by simp [h.flights]
  have hrun : ∀ c, c ∉ σ.cleanups := by simp [h.cleanups]
  have hspare : ∀ k, k ∉ σ.unqueued := by simp [h.unqueued]
  have hrefs : ∀ k, k ∈ σ.db.refs ↔ (σ.store k).isSome = true := by
    intro k
    rw [h.stored, mem_refs, pdfHolds_iff, h.assets]
    simp
  have hqueue : ∀ k, k ∉ σ.db.pending := by
    intro k hk
    obtain ⟨q, hq, -⟩ := hk
    rw [h.queue] at hq
    exact Table.not_mem_empty q hq
  have hissued : ∀ k ∈ σ.db.refs, k ∈ σ.keys := by
    intro k hk
    obtain ⟨a, ha, -⟩ | ⟨f, hf, rfl⟩ := mem_refs.mp hk
    · rw [h.assets] at ha
      exact absurd ha (Table.not_mem_empty a)
    · exact h.keys f hf
  refine ⟨⟨?_, ?_, ?_, ?_, ?_, h.pdfKeys, ?_, ?_, ?_⟩, by simp [h.flights], ?_⟩
  · intro f hf
    obtain ⟨p, hp, hid⟩ := h.pdfs f hf
    exact ⟨p.userId, p, hp, hid, rfl⟩
  · intro r hr
    obtain ⟨p, hp, hid⟩ := h.readers r hr
    exact ⟨p.userId, p, hp, hid, rfl⟩
  · simp [h.drafts]
  · simp [h.draftSources]
  · simp [h.pieceSources]
  · simp [h.assets]
  · simp [h.assets]
  · intro p hp m hm
    rw [(h.pieces p hp).2.1] at hm
    cases hm
  · constructor
    case stored_issued => exact fun k hk => hissued k ((hrefs k).mpr hk)
    case live_stored => exact fun k hk => (hrefs k).mp hk
    case found => exact fun k hk => Or.inl ((hrefs k).mpr hk)
    case spare_issued => exact fun k hk => absurd hk (hspare k)
    case queued_issued => exact fun k hk => absurd hk (hqueue k)
    case held_stored | held_free => exact fun k ⟨f, hf, _⟩ => absurd hf (hheld f)
    all_goals exact fun k ⟨c, hc, _⟩ => absurd hc (hrun c)

theorem Reachable.sound (h : Reachable s σ) : σ.Sound := by
  obtain ⟨σ₀, t, hinitial, hrun⟩ := h
  exact hrun.invariant (fun hσ hstep => hσ.step hstep) hinitial.sound

/-- No file that a row refers to has been deleted; and a stored file that no row
refers to, that no call in flight holds and that is not about to be queued, is queued. -/
theorem asset_lifecycle (h : Reachable s σ) :
    (∀ key, σ.db.referenced key = true → (σ.store key).isSome = true) ∧
      ∀ key, (σ.store key).isSome = true → σ.db.referenced key = false →
        (∀ f ∈ σ.flights, f.object.key ≠ key) → key ∉ σ.unqueued →
        ∃ q ∈ σ.db.queue, q.storageKey = key := by
  have hkeys := h.sound.keys
  constructor
  · intro key href
    exact hkeys.live_stored key href
  · intro key hstored href hheld hspare
    obtain hlive | ⟨f, hf, hkey⟩ | hunqueued | hqueued := hkeys.found key hstored
    · have hlive : σ.db.referenced key = true := hlive
      rw [href] at hlive
      cases hlive
    · exact absurd hkey (hheld f hf)
    · exact absurd hunqueued hspare
    · exact hqueued

theorem asset_lifecycle_deletedPiece : ∃ σ, Reachable plainService σ ∧
    (σ.store 8).isSome = true ∧ ∃ q ∈ σ.db.queue, q.storageKey = 8 := by
  obtain ⟨t, σ, hrun, hσ⟩ : ∃ t σ, Run (Sys.step plainService) emptyLibrary t σ ∧
      ((σ.store 8).isSome && !σ.db.referenced 8 && σ.flights.isEmpty && σ.unqueued.isEmpty) = true :=
    exists_run (plainEvents ++ [.call (.deletePiece 1 6) (plainFresh 4)]) (by decide +kernel)
  simp only [Bool.and_eq_true, Bool.not_eq_true', List.isEmpty_iff] at hσ
  obtain ⟨⟨⟨hstored, href⟩, hflights⟩, hunqueued⟩ := hσ
  have hreachable : Reachable plainService σ := ⟨_, t, emptyLibrary_initial, hrun⟩
  exact ⟨σ, hreachable, hstored, (asset_lifecycle hreachable).2 8 hstored href (by simp [hflights])
    (by simp [hunqueued])⟩

end Noted
