import Noted.Generated
import Noted.Isolation.Others
import Noted.Unchanged

/-!
# A request and what its user sees

What a user sees of the service is the user's view of the database and the files that it
refers to. The answer to a request of the user and what the user sees afterwards are
computed from that and the clock alone; any other request leaves it as it is.
-/

namespace Noted

open Library Db

variable {s : Service} {σ σ' : Sys} {user owner id : Id} {db db' : Db} {now : Time} {fresh : Fresh}
  {answer : Answer} {key : Key} {revision : Int} {data : Bytes} {filename : Text}

section Seen

@[ext] structure Seen where
  db : Db
  files : Key → Option Bytes

def Seen.show (db : Db) (store : Key → Option Bytes) : Seen :=
  ⟨db, fun k => if db.referenced k then store k else none⟩

def Sys.seen (s : Service) (user : Id) (σ : Sys) : Seen := .show (σ.db.view s user) σ.store

theorem Seen.show_congr {store store' : Key → Option Bytes} (h : ∀ k ∈ db.refs, store k = store' k) :
    Seen.show db store = Seen.show db store' := by
  ext1
  · rfl
  · funext k
    cases hk : db.referenced k with
    | false => simp [Seen.show, hk]
    | true => simp [Seen.show, hk, h k hk]

theorem Seen.show_files {store : Key → Option Bytes} {k : Key} (hk : k ∈ db.refs) :
    (Seen.show db store).files k = store k := if_pos hk

theorem view_refs {k : Key} (hk : k ∈ (db.view s user).refs) : k ∈ db.refs := by
  obtain ⟨a, ha, rfl⟩ | ⟨f, hf, rfl⟩ := mem_refs.mp hk
  · exact mem_refs.mpr (Or.inl ⟨a, (mem_view_assets.mp ha).1, rfl⟩)
  · exact mem_refs.mpr (Or.inr ⟨f, (mem_view_pdfs.mp hf).1, rfl⟩)

theorem seen_of_keys {new lost : Set Key} {store store' : Key → Option Bytes}
    (h : KeyStep new lost (db.view s user) db')
    (hstore : ∀ k ∈ (db.view s user).refs ∪ new, store k = store' k) :
    Seen.show (db'.view s user) store = Seen.show (db'.view s user) store' :=
  Seen.show_congr fun k hk => hstore k (h.gain k (view_refs hk))

end Seen

structure Ready (s : Service) (σ : Sys) : Prop where
  sound : σ.Sound
  used : σ.db.Used
  generated : Generated σ

theorem Reachable.ready (h : Reachable s σ) : Ready s σ := ⟨h.sound, h.used, h.generated⟩

theorem Ready.step {e : Event} {r : Response} (hσ : Ready s σ) (h : Sys.step s σ e = some (r, σ')) :
    Ready s σ' :=
  ⟨hσ.sound.step h, (Sys.step_stepped h).used hσ.used, (Sys.step_stepped h).generated hσ.generated⟩

namespace Ready

theorem kept (hσ : Ready s σ) : Kept σ.db := ⟨hσ.sound.coherent, hσ.used⟩

theorem pieces_ne (hσ : Ready s σ) (hfresh : σ.Grants s fresh) : ∀ p ∈ σ.db.pieces, p.id ≠ fresh.id := by
  rintro p hp heq
  exact hfresh.2.1 (heq ▸ hσ.generated.pieces p hp)

theorem drafts_ne (hσ : Ready s σ) (hfresh : σ.Grants s fresh) : ∀ d ∈ σ.db.drafts, d.id ≠ fresh.id := by
  rintro d hd heq
  exact hfresh.2.1 (heq ▸ hσ.generated.drafts d hd)

theorem assets_ne (hσ : Ready s σ) (hfresh : σ.Grants s fresh) :
    ∀ a ∈ σ.db.assets, a.id ≠ fresh.assetId := by
  rintro a ha heq
  exact hfresh.2.2.1 (heq ▸ hσ.generated.assets a ha)

theorem refs_ne (hσ : Ready s σ) (hkey : key ∉ σ.keys) {k : Key} (hk : k ∈ σ.db.refs) : k ≠ key := by
  rintro rfl
  exact hkey (hσ.sound.keys.stored_issued _ (hσ.sound.keys.live_stored _ hk))

theorem assets_key (hσ : Ready s σ) (hkey : key ∉ σ.keys) : ∀ a ∈ σ.db.assets, a.storageKey ≠ key :=
  fun a ha => hσ.refs_ne hkey (mem_refs.mpr (Or.inl ⟨a, ha, rfl⟩))

theorem pdfs_key (hσ : Ready s σ) (hkey : key ∉ σ.keys) : ∀ f ∈ σ.db.pdfs, f.storageKey ≠ key :=
  fun f hf => hσ.refs_ne hkey (mem_refs.mpr (Or.inr ⟨f, hf, rfl⟩))

end Ready

def saved (store : Key → Option Bytes) (key : Key) (data : Bytes) (k : Key) : Option Bytes :=
  if k = key then some data else store k

theorem Ready.seen_save (hσ : Ready s σ) (hkey : key ∉ σ.keys) :
    Seen.show (σ.db.view s user) (saved σ.store key data) = σ.seen s user :=
  Seen.show_congr fun _ hk => if_neg (hσ.refs_ne hkey (view_refs hk))

section Attend

/-- A call as its user sees it: on the user's view alone. -/
def attendCall (s : Service) (user : Id) (c : Call) (fresh : Fresh) (now : Time) (v : Seen) :
    Answer × Seen :=
  match c.run s fresh now v.db with
  | .ok db => (.response .done, .show (db.view s user) v.files)
  | .error e => (.response (.failed e), v)

def attendAttach (s : Service) (user id : Id) (filename : Text) (revision : Int) (data : Bytes)
    (key : Key) (fresh : Fresh) (now : Time) (v : Seen) : Answer × Seen :=
  match uploadedFile s data with
  | .error e => (.response (.failed e), v)
  | .ok file =>
    match attachSource s user id filename revision file ⟨key, data.length, s.sha256 data⟩ fresh now
      v.db with
    | .error e => (.response (.failed e), v)
    | .ok db => (.response .done, .show (db.view s user) (saved v.files key data))

def attendFinalize (s : Service) (user id : Id) (revision : Int) (data : Bytes) (key : Key)
    (fresh : Fresh) (now : Time) (v : Seen) : Answer × Seen :=
  match finalizeChecks s user id revision data now v.db with
  | .error e => (.response (.failed e), v)
  | .ok (.done result) => (.response (.finalized result), v)
  | .ok (.save plan) =>
    match savedBytes v.files plan data with
    | .error e => (.response (.failed e), v)
    | .ok bytes =>
      match finalizeWrites s user plan ⟨key, bytes.length, s.sha256 bytes⟩ fresh.id now v.db with
      | .error e => (.response (.failed e), v)
      | .ok (db, result) =>
        (.response (.finalized result), .show (db.view s user) (saved v.files key bytes))

def attendQuery (s : Service) (user : Id) (q : Query) (now : Time) (v : Seen) : Answer × Seen :=
  (.found (q.run s user now v.files v.db), v)

end Attend

section Calls

theorem Call.local_run (hσ : Ready s σ) (hfresh : σ.Grants s fresh) {c : Call}
    (hc : c.owner? = some user) : Local s user (c.run s fresh now) σ.db := by
  have hdb := hσ.sound.coherent
  cases c with
  | createImport owner input work =>
    obtain rfl := Option.some.inj hc
    exact createImport_local hdb (hσ.assets_ne hfresh) (hσ.drafts_ne hfresh)
  | updateImport owner id input =>
    obtain rfl := Option.some.inj hc
    exact updateImport_local hdb
  | deleteImport owner id =>
    obtain rfl := Option.some.inj hc
    exact deleteImport_local hdb
  | createPiece owner input =>
    obtain rfl := Option.some.inj hc
    exact createPiece_local hdb (hσ.pieces_ne hfresh)
  | updatePiece owner id patch =>
    obtain rfl := Option.some.inj hc
    exact updatePiece_local
  | deletePiece owner id =>
    obtain rfl := Option.some.inj hc
    exact deletePiece_local hdb
  | putReaderState owner id state =>
    obtain rfl := Option.some.inj hc
    exact putReaderState_local
  | mergeComposers owner input =>
    obtain rfl := Option.some.inj hc
    exact mergeComposers_local
  | repairComposerKeys => cases hc
  | refoldSearchText force => cases hc

theorem Local.ok {tx : Db → Except Error Db} (h : Local s user tx db) (hrun : tx db = .ok db') :
    ∃ v', tx (db.view s user) = .ok v' ∧ db'.view s user = v'.view s user := by
  rw [Local, hrun] at h
  obtain ⟨v', hv, heq⟩ := map_eq_ok.mp h.symm
  exact ⟨v', hv, heq.symm⟩

theorem map_eq_error {ε α β : Type} {x : Except ε α} {g : α → β} {e : ε}
    (h : g <$> x = .error e) : x = .error e := by
  cases x with
  | error e' => exact congrArg Except.error (Except.error.inj h)
  | ok a => cases h

theorem Local.error {tx : Db → Except Error Db} {e : Error} (h : Local s user tx db)
    (hrun : tx db = .error e) : tx (db.view s user) = .error e := by
  rw [Local, hrun] at h
  exact map_eq_error h.symm

theorem call_seen {c : Call} (hlocal : σ.Grants s fresh → Local s user (c.run s fresh σ.clock) σ.db)
    (h : σ.serve s (.call c fresh) = some (answer, σ')) :
    (answer, σ'.seen s user) = attendCall s user c fresh σ.clock (σ.seen s user) := by
  obtain ⟨⟨r, σ₁⟩, hstep, heq⟩ := Option.map_eq_some_iff.mp h
  obtain ⟨rfl, rfl⟩ := Prod.mk.inj heq
  unfold attendCall
  cases Sys.step_stepped hstep with
  | callDone _ _ db hfresh hrun =>
    obtain ⟨v', hv, hview⟩ := (hlocal hfresh).ok hrun
    have hv' : c.run s fresh σ.clock (σ.seen s user).db = .ok v' := hv
    rw [hv']
    refine Prod.ext rfl ?_
    change Seen.show (db.view s user) σ.store = Seen.show (v'.view s user) _
    rw [hview]
    refine seen_of_keys (Call.keys hv) fun k hk => ?_
    obtain hk | hk := hk
    · exact (Seen.show_files hk).symm
    · cases hk
  | callFailed _ _ e hfresh hrun =>
    have hv : c.run s fresh σ.clock (σ.seen s user).db = .error e :=
      (hlocal hfresh).error hrun
    rw [hv]
    rfl

end Calls

section Uploads

inductive Attached (s : Service) (σ : Sys) (user id : Id) (filename : Text) (revision : Int)
    (data : Bytes) (key : Key) (fresh : Fresh) : Answer → Sys → Prop
  | unreadable (e : Error) (hfile : uploadedFile s data = .error e) :
      Attached s σ user id filename revision data key fresh (.response (.failed e)) σ
  | refused (file : ImportBytes) (e : Error) (σ' : Sys) (hfile : uploadedFile s data = .ok file)
      (hrun : attachSource s user id filename revision file ⟨key, data.length, s.sha256 data⟩ fresh
        σ.clock σ.db = .error e) (hdb : σ'.db = σ.db)
      (hstore : σ'.store = σ.store ∨ σ'.store = saved σ.store key data) :
      Attached s σ user id filename revision data key fresh (.response (.failed e)) σ'
  | done (file : ImportBytes) (db : Db) (σ' : Sys) (hfile : uploadedFile s data = .ok file)
      (hrun : attachSource s user id filename revision file ⟨key, data.length, s.sha256 data⟩ fresh
        σ.clock σ.db = .ok db) (hdb : σ'.db = db) (hstore : σ'.store = saved σ.store key data) :
      Attached s σ user id filename revision data key fresh (.response .done) σ'

theorem serve_attach
    (h : σ.serve s (.attachSource user id filename revision data key fresh) = some (answer, σ')) :
    (key ∉ σ.keys ∧ σ.Grants s fresh) ∧
      Attached s σ user id filename revision data key fresh answer σ' := by
  obtain ⟨hguard, heq⟩ := Option.ite_none_right_eq_some.mp h
  refine ⟨hguard, ?_⟩
  have heq := Option.some.inj heq
  unfold Sys.beginAttach at heq
  cases hfile : uploadedFile s data with
  | error e =>
    rw [hfile] at heq
    obtain ⟨rfl, rfl⟩ := Prod.mk.inj heq
    exact .unreadable e hfile
  | ok file =>
    rw [hfile, ok_bind] at heq
    cases hchecks : attachChecks s user id revision data.length σ.clock σ.db with
    | error e =>
      rw [hchecks] at heq
      obtain ⟨rfl, rfl⟩ := Prod.mk.inj heq
      refine .refused file e σ hfile ?_ rfl (Or.inl rfl)
      rw [attachSource, hchecks]
      rfl
    | ok d =>
      rw [hchecks] at heq
      cases hrun : attachSource s user id filename revision file ⟨key, data.length, s.sha256 data⟩
          fresh σ.clock σ.db with
      | error e =>
        simp only [ok_bind, Sys.thenCommit, Sys.save, Sys.respond, Sys.commit, Sys.spend, hrun, pure,
          Except.pure] at heq
        obtain ⟨rfl, rfl⟩ := Prod.mk.inj heq
        exact .refused file e _ hfile hrun rfl (Or.inr rfl)
      | ok db =>
        simp only [ok_bind, Sys.thenCommit, Sys.save, Sys.respond, Sys.commit, Sys.spend, hrun, pure,
          Except.pure] at heq
        obtain ⟨rfl, rfl⟩ := Prod.mk.inj heq
        exact .done file db _ hfile hrun rfl rfl

inductive Saved (s : Service) (σ : Sys) (user id : Id) (revision : Int) (data : Bytes) (key : Key)
    (fresh : Fresh) : Answer → Sys → Prop
  | refused (e : Error) (hchecks : finalizeChecks s user id revision data σ.clock σ.db = .error e) :
      Saved s σ user id revision data key fresh (.response (.failed e)) σ
  | retried (result : FinalizeResult)
      (hchecks : finalizeChecks s user id revision data σ.clock σ.db = .ok (.done result)) :
      Saved s σ user id revision data key fresh (.response (.finalized result)) σ
  | unread (plan : FinalizePlan) (e : Error)
      (hchecks : finalizeChecks s user id revision data σ.clock σ.db = .ok (.save plan))
      (hbytes : savedBytes σ.store plan data = .error e) :
      Saved s σ user id revision data key fresh (.response (.failed e)) σ
  | failed (plan : FinalizePlan) (bytes : Bytes) (e : Error) (σ' : Sys)
      (hchecks : finalizeChecks s user id revision data σ.clock σ.db = .ok (.save plan))
      (hbytes : savedBytes σ.store plan data = .ok bytes)
      (hrun : finalizeWrites s user plan ⟨key, bytes.length, s.sha256 bytes⟩ fresh.id σ.clock σ.db =
        .error e) (hdb : σ'.db = σ.db) (hstore : σ'.store = saved σ.store key bytes) :
      Saved s σ user id revision data key fresh (.response (.failed e)) σ'
  | saved (plan : FinalizePlan) (bytes : Bytes) (db : Db) (result : FinalizeResult) (σ' : Sys)
      (hchecks : finalizeChecks s user id revision data σ.clock σ.db = .ok (.save plan))
      (hbytes : savedBytes σ.store plan data = .ok bytes)
      (hrun : finalizeWrites s user plan ⟨key, bytes.length, s.sha256 bytes⟩ fresh.id σ.clock σ.db =
        .ok (db, result)) (hdb : σ'.db = db) (hstore : σ'.store = saved σ.store key bytes) :
      Saved s σ user id revision data key fresh (.response (.finalized result)) σ'

theorem serve_finalize
    (h : σ.serve s (.finalizeImport user id revision data key fresh) = some (answer, σ')) :
    (key ∉ σ.keys ∧ σ.Grants s fresh) ∧ Saved s σ user id revision data key fresh answer σ' := by
  obtain ⟨hguard, heq⟩ := Option.ite_none_right_eq_some.mp h
  refine ⟨hguard, ?_⟩
  have heq := Option.some.inj heq
  unfold Sys.beginFinalize at heq
  cases hchecks : finalizeChecks s user id revision data σ.clock σ.db with
  | error e =>
    rw [hchecks] at heq
    obtain ⟨rfl, rfl⟩ := Prod.mk.inj heq
    exact .refused e hchecks
  | ok found =>
    cases found with
    | done result =>
      rw [hchecks] at heq
      obtain ⟨rfl, rfl⟩ := Prod.mk.inj heq
      exact .retried result hchecks
    | save plan =>
      rw [hchecks] at heq
      cases hbytes : savedBytes σ.store plan data with
      | error e =>
        simp only [hbytes] at heq
        obtain ⟨rfl, rfl⟩ := Prod.mk.inj heq
        exact .unread plan e hchecks hbytes
      | ok bytes =>
        simp only [hbytes] at heq
        cases hrun : finalizeWrites s user plan ⟨key, bytes.length, s.sha256 bytes⟩ fresh.id σ.clock
            σ.db with
        | error e =>
          simp only [Sys.thenCommit, Sys.save, Sys.respond, Sys.commit, Sys.spend, hchecks,
            hrun] at heq
          obtain ⟨rfl, rfl⟩ := Prod.mk.inj heq
          exact .failed plan bytes e _ hchecks hbytes hrun rfl rfl
        | ok written =>
          simp only [Sys.thenCommit, Sys.save, Sys.respond, Sys.commit, Sys.spend, hchecks,
            hrun] at heq
          obtain ⟨rfl, rfl⟩ := Prod.mk.inj heq
          exact .saved plan bytes written.1 written.2 _ hchecks hbytes hrun rfl rfl

theorem saved_seen {v' : Db} {lost : Set Key} (hσ : Ready s σ) (hkey : key ∉ σ.keys)
    (h : KeyStep {key} lost (σ.db.view s user) v') :
    Seen.show (v'.view s user) (saved σ.store key data) =
      Seen.show (v'.view s user) (saved (σ.seen s user).files key data) := by
  refine seen_of_keys h fun k hk => ?_
  obtain hk | rfl := hk
  · have hne := hσ.refs_ne hkey (view_refs hk)
    rw [saved, saved, if_neg hne, if_neg hne]
    exact (Seen.show_files hk).symm
  · rw [saved, saved, if_pos rfl, if_pos rfl]

theorem attach_seen (hσ : Ready s σ)
    (h : σ.serve s (.attachSource user id filename revision data key fresh) = some (answer, σ')) :
    (answer, σ'.seen s user) =
      attendAttach s user id filename revision data key fresh σ.clock (σ.seen s user) := by
  obtain ⟨⟨hkey, hfresh⟩, houtcome⟩ := serve_attach h
  have hlocal : ∀ file, Local s user (attachSource s user id filename revision file
      ⟨key, data.length, s.sha256 data⟩ fresh σ.clock) σ.db := fun file =>
    attachSource_local hσ.sound.coherent (hσ.assets_key hkey) (hσ.assets_ne hfresh)
  unfold attendAttach
  cases houtcome with
  | unreadable e hfile => rw [hfile]
  | refused file e _ hfile hrun hdb hstore =>
    have hv : attachSource s user id filename revision file ⟨key, data.length, s.sha256 data⟩ fresh
      σ.clock (σ.seen s user).db = .error e := (hlocal file).error hrun
    rw [hfile]
    dsimp only
    rw [hv, Sys.seen, hdb]
    obtain hstore | hstore := hstore
    · rw [hstore]
      rfl
    · rw [hstore, hσ.seen_save hkey]
  | done file db _ hfile hrun hdb hstore =>
    obtain ⟨v', hv, hview⟩ := (hlocal file).ok hrun
    have hv' : attachSource s user id filename revision file ⟨key, data.length, s.sha256 data⟩ fresh
      σ.clock (σ.seen s user).db = .ok v' := hv
    rw [hfile]
    dsimp only
    rw [hv', Sys.seen, hdb, hstore, hview]
    exact Prod.ext rfl (saved_seen hσ hkey (attachSource_keys hv).1)

theorem Planned.old_mem {plan : FinalizePlan} {f : PdfRow}
    (hplan : Planned s user id revision data now db plan) (hf : plan.old = some f) : f ∈ db.pdfs := by
  obtain ⟨m, -, hm⟩ := hplan.metadata
  cases finalizePlan_targets hm with
  | piece current hp howner hid hmerge hold => exact (pdf?_eq_some.mp (hold.symm.trans hf)).1
  | new hid hmetadata hold =>
    rw [hold] at hf
    cases hf

theorem savedBytes_seen {plan : FinalizePlan}
    (hplan : Planned s user id revision data now (σ.db.view s user) plan) :
    savedBytes (σ.seen s user).files plan data = savedBytes σ.store plan data := by
  cases hold : plan.old with
  | none => rw [savedBytes, savedBytes, hold]
  | some f =>
    have hfile : (σ.seen s user).files f.storageKey = σ.store f.storageKey :=
      Seen.show_files (mem_refs.mpr (Or.inr ⟨f, hplan.old_mem hold, rfl⟩))
    rw [savedBytes, savedBytes, hold]
    dsimp only
    rw [hfile]

theorem finalize_seen (hσ : Ready s σ)
    (h : σ.serve s (.finalizeImport user id revision data key fresh) = some (answer, σ')) :
    (answer, σ'.seen s user) =
      attendFinalize s user id revision data key fresh σ.clock (σ.seen s user) := by
  obtain ⟨⟨hkey, hfresh⟩, houtcome⟩ := serve_finalize h
  have hdb := hσ.sound.coherent
  have hchecked : ∀ {found}, finalizeChecks s user id revision data σ.clock σ.db = found →
      finalizeChecks s user id revision data σ.clock (σ.seen s user).db = found := fun h =>
    (finalizeChecks_view hdb).trans h
  have hread : ∀ {plan}, finalizeChecks s user id revision data σ.clock σ.db = .ok (.save plan) →
      savedBytes (σ.seen s user).files plan data = savedBytes σ.store plan data := fun h =>
    savedBytes_seen (finalizeChecks_save (hchecked h))
  have hlocal : ∀ {plan} (bytes : Bytes),
      finalizeChecks s user id revision data σ.clock σ.db = .ok (.save plan) →
      viewed s user <$> finalizeWrites s user plan ⟨key, bytes.length, s.sha256 bytes⟩ fresh.id σ.clock
          σ.db =
        viewed s user <$> finalizeWrites s user plan ⟨key, bytes.length, s.sha256 bytes⟩ fresh.id
          σ.clock (σ.db.view s user) := by
    intro plan bytes h
    have hplan := finalizeChecks_save h
    have hwritable : Writable user plan ⟨key, bytes.length, s.sha256 bytes⟩ σ.db :=
      ⟨hdb, hσ.pdfs_key hkey, hσ.assets_key hkey, fun p hp => ownsAsset_of_valid hplan.manifest hp⟩
    exact finalizeWrites_local hwritable hplan (finalizeChecks_save (hchecked h)) (hσ.pieces_ne hfresh)
  unfold attendFinalize
  cases houtcome with
  | refused e hchecks => rw [hchecked hchecks]
  | retried result hchecks => rw [hchecked hchecks]
  | unread plan e hchecks hbytes =>
    rw [hchecked hchecks]
    dsimp only
    rw [hread hchecks, hbytes]
  | failed plan bytes e _ hchecks hbytes hrun hdb' hstore =>
    have hsame := hlocal bytes hchecks
    rw [hrun] at hsame
    have hv : finalizeWrites s user plan ⟨key, bytes.length, s.sha256 bytes⟩ fresh.id σ.clock
      (σ.seen s user).db = .error e := map_eq_error hsame.symm
    rw [hchecked hchecks]
    dsimp only
    rw [hread hchecks, hbytes]
    dsimp only
    rw [hv]
    dsimp only
    rw [Sys.seen, hdb', hstore, hσ.seen_save hkey]
  | saved plan bytes db result _ hchecks hbytes hrun hdb' hstore =>
    have hsame := hlocal bytes hchecks
    rw [hrun] at hsame
    obtain ⟨⟨v', result'⟩, hv, heq⟩ := map_eq_ok.mp hsame.symm
    obtain ⟨hview, hresult⟩ := Prod.mk.inj heq
    obtain rfl : result' = result := hresult
    have hv' : finalizeWrites s user plan ⟨key, bytes.length, s.sha256 bytes⟩ fresh.id σ.clock
      (σ.seen s user).db = .ok (v', result') := hv
    have hkeys := finalizeWrites_keys hdb.view (finalizeChecks_save (hchecked hchecks)) hv
    rw [hchecked hchecks]
    dsimp only
    rw [hread hchecks, hbytes]
    dsimp only
    rw [hv']
    dsimp only
    rw [Sys.seen, hdb', hstore]
    have hview : db.view s user = v'.view s user := hview.symm
    rw [hview]
    exact Prod.ext rfl (saved_seen hσ hkey hkeys.1)

end Uploads

theorem query_seen (hσ : Ready s σ) {q : Query}
    (h : σ.serve s (.query user q) = some (answer, σ')) :
    (answer, σ'.seen s user) = attendQuery s user q σ.clock (σ.seen s user) := by
  obtain ⟨rfl, rfl⟩ := Prod.mk.inj (Option.some.inj h)
  have hrun : q.run s user σ.clock σ.store σ.db =
      q.run s user σ.clock (σ.seen s user).files (σ.db.view s user) :=
    Query.run_view hσ.sound.coherent (fun k hk => (Seen.show_files hk).symm) q
  rw [attendQuery, hrun]
  rfl

section Others

def Event.owner? : Event → Option Id
  | .call c _ => c.owner?
  | .beginAttach owner _ _ _ _ _ | .beginFinalize owner _ _ _ _ => some owner
  | .commit f _ | .abort f => some f.owner
  | _ => none

/-- A step of somebody else's call, or of the service's own work but for the expiry of drafts. -/
def Event.isForeign (user : Id) (e : Event) : Bool :=
  match e.owner? with
  | some owner => owner != user
  | none => e.isWork && e != .cleanupBegin

theorem isForeign_of_owner {e : Event} (howner : e.owner? = some owner) :
    e.isForeign user = true ↔ owner ≠ user := by
  rw [Event.isForeign, howner]
  exact bne_iff_ne

theorem Call.others (hσ : Ready s σ) (hfresh : σ.Grants s fresh) {c : Call} (hc : c.owner? = some owner)
    (hne : owner ≠ user) (h : c.run s fresh now σ.db = .ok db') :
    db'.ownRows user = σ.db.ownRows user := by
  have hdb := hσ.sound.coherent
  cases c with
  | createImport _ input work =>
    obtain rfl := Option.some.inj hc
    exact createImport_others hdb hne (hσ.assets_ne hfresh) (hσ.drafts_ne hfresh) h
  | updateImport _ id input =>
    obtain rfl := Option.some.inj hc
    exact updateImport_others hne h
  | deleteImport _ id =>
    obtain rfl := Option.some.inj hc
    exact deleteImport_others hσ.kept hne h
  | createPiece _ input =>
    obtain rfl := Option.some.inj hc
    exact createPiece_others hdb hne (hσ.pieces_ne hfresh) h
  | updatePiece _ id patch =>
    obtain rfl := Option.some.inj hc
    exact updatePiece_others hne h
  | deletePiece _ id =>
    obtain rfl := Option.some.inj hc
    exact deletePiece_others hσ.kept hne h
  | putReaderState _ id state =>
    obtain rfl := Option.some.inj hc
    exact putReaderState_others hne h
  | mergeComposers _ input =>
    obtain rfl := Option.some.inj hc
    obtain ⟨⟨_, preview⟩, hmerge, rfl⟩ := map_eq_ok.mp h
    exact mergeComposers_others hne hmerge
  | repairComposerKeys => cases hc
  | refoldSearchText force => cases hc

theorem upload_others {f : Flight} {plan : FinalizePlan} {result : FinalizeResult} (hσ : Ready s σ)
    (hf : f ∈ σ.flights) (hfresh : σ.Grants s fresh) (hne : f.owner ≠ user)
    (hplan : Planned s f.owner id revision data now σ.db plan)
    (hrun : finalizeWrites s f.owner plan f.object fresh.id now σ.db = .ok (db', result)) :
    db'.ownRows user = σ.db.ownRows user := by
  obtain ⟨hassets, hpdfs⟩ := hσ.sound.unreferenced hf
  have hwritable : Writable f.owner plan f.object σ.db :=
    ⟨hσ.sound.coherent, hpdfs, hassets, fun p hp => ownsAsset_of_valid hplan.manifest hp⟩
  exact finalizeWrites_others hwritable hσ.used hplan hne (hσ.pieces_ne hfresh) hrun

theorem Ready.others {e : Event} {r : Response} (hσ : Ready s σ) (he : e.isForeign user = true)
    (h : σ.step s e = some (r, σ')) : σ'.db.ownRows user = σ.db.ownRows user := by
  cases Sys.step_stepped h with
  | callDone c fresh db hfresh hrun =>
    cases howner : c.owner? with
    | some owner =>
      have hcaller : Event.owner? (.call c fresh) = some owner := howner
      exact Call.others hσ hfresh howner ((isForeign_of_owner hcaller).mp he) hrun
    | none =>
      have hwork : Event.isForeign user (.call c fresh) = false := by
        rw [Event.isForeign, Event.owner?, howner]
        rfl
      rw [hwork] at he
      cases he
  | attached f fresh id filename revision file db hf hfresh hupload hrun =>
    exact attachSource_others hσ.sound.coherent ((isForeign_of_owner rfl).mp he)
      (hσ.sound.unreferenced hf).1 (hσ.assets_ne hfresh) hrun
  | finalized f fresh id revision data plan db result hf hfresh hupload hplan hrun =>
    exact upload_others hσ hf hfresh ((isForeign_of_owner rfl).mp he) hplan hrun
  | expired => cases he
  | _ => rfl

theorem Sys.Stepped.keys {e : Event} {r : Response} (h : Sys.Stepped s σ e r σ') {k : Key}
    (hk : k ∈ σ.keys) : k ∈ σ'.keys := by
  cases h with
  | attachSaved => exact List.mem_cons_of_mem _ hk
  | finalizeSaved => exact List.mem_cons_of_mem _ hk
  | _ => exact hk

variable {t : List (Entry Sys Event Response)}

theorem run_store (h : Run (Sys.step s) σ t σ') {k : Key} (hk : k ∈ σ.keys) {b : Bytes}
    (hb : σ'.store k = some b) : σ.store k = some b := by
  have hkeep : ∀ {τ e r τ'}, (k ∈ τ.keys ∧ ∀ b, τ.store k = some b → σ.store k = some b) →
      Sys.step s τ e = some (r, τ') →
      k ∈ τ'.keys ∧ ∀ b, τ'.store k = some b → σ.store k = some b := by
    intro τ e r τ' hτ hstep
    have hstepped := Sys.step_stepped hstep
    exact ⟨hstepped.keys hτ.1, fun b hb => hτ.2 b (hstepped.store_old hτ.1 hb)⟩
  exact (h.invariant hkeep ⟨hk, fun _ hb => hb⟩).2 b hb

theorem Ready.run (hσ : Ready s σ) (h : Run (Sys.step s) σ t σ') : Ready s σ' :=
  h.invariant (fun hσ hstep => Ready.step hσ hstep) hσ

theorem Ready.store (hσ : Ready s σ) (h : Run (Sys.step s) σ t σ') {k : Key} (hk : k ∈ σ.db.refs)
    (hk' : k ∈ σ'.db.refs) : σ'.store k = σ.store k := by
  have hissued := hσ.sound.keys.stored_issued _ (hσ.sound.keys.live_stored _ hk)
  obtain ⟨b, hb⟩ := Option.isSome_iff_exists.mp ((hσ.run h).sound.keys.live_stored _ hk')
  rw [hb, run_store h hissued hb]

theorem seen_others (hσ : Ready s σ) (h : Run (Sys.step s) σ t σ')
    (hview : σ'.db.view s user = σ.db.view s user) : σ'.seen s user = σ.seen s user := by
  rw [Sys.seen, hview]
  refine Seen.show_congr fun k hk => ?_
  have hk' : k ∈ (σ'.db.view s user).refs := hview ▸ hk
  exact hσ.store h (view_refs hk) (view_refs hk')

theorem Ready.others_run (hσ : Ready s σ) (h : Run (Sys.step s) σ t σ')
    (hall : ∀ x ∈ t, x.event.isForeign user = true) : σ'.db.ownRows user = σ.db.ownRows user := by
  have hkeep : ∀ {τ e r τ'}, (Ready s τ ∧ τ.db.ownRows user = σ.db.ownRows user) →
      Event.isForeign user e = true → Sys.step s τ e = some (r, τ') →
      Ready s τ' ∧ τ'.db.ownRows user = σ.db.ownRows user := by
    intro τ e r τ' hτ he hstep
    exact ⟨hτ.1.step hstep, (hτ.1.others he hstep).trans hτ.2⟩
  exact (h.invariant_of (C := fun _ e => Event.isForeign user e = true) hkeep ⟨hσ, rfl⟩ hall).2

end Others

section Steps

variable {request : Request} {t : List (Entry Sys Event Response)}

theorem thenCommit_run {e : Event} {begun : Response × Sys} (hbegin : σ.step s e = some begun)
    (hfresh : begun.2.Grants s fresh) (he : e.owner? = some owner)
    (hhead : ∀ f fs, begun.1 = .done → begun.2.flights = f :: fs → f.owner = owner) :
    ∃ t, Run (Sys.step s) σ t (Sys.thenCommit s fresh begun).2 ∧
      ∀ x ∈ t, x.event.owner? = some owner := by
  have hfirst : Run (Sys.step s) σ [⟨σ, e, begun.1, begun.2⟩] begun.2 := Run.snoc .nil hbegin
  unfold Sys.thenCommit
  split
  · rename_i f flights hdone hflights
    have hf : f ∈ begun.2.flights := by
      rw [hflights]
      exact List.mem_cons_self
    have hcommit : begun.2.step s (.commit f fresh) = some ((begun.2.spend fresh).commit s f fresh) :=
      if_pos ⟨hf, hfresh⟩
    refine ⟨_, hfirst.snoc hcommit, ?_⟩
    intro x hx
    obtain hx | hx := List.mem_append.mp hx
    · rw [List.mem_singleton.mp hx]
      exact he
    · rw [List.mem_singleton.mp hx]
      exact congrArg some (hhead f flights hdone hflights)
  · refine ⟨_, hfirst, fun x hx => ?_⟩
    rw [List.mem_singleton.mp hx]
    exact he

/-- A request of a user is one or two steps of the service. -/
theorem serve_run (howner : request.owner? = some owner)
    (h : σ.serve s request = some (answer, σ')) :
    ∃ t, Run (Sys.step s) σ t σ' ∧ ∀ x ∈ t, x.event.owner? = some owner := by
  cases request with
  | call c fresh =>
    obtain ⟨⟨r, σ₁⟩, hstep, heq⟩ := Option.map_eq_some_iff.mp h
    obtain ⟨-, rfl⟩ := Prod.mk.inj heq
    refine ⟨_, Run.snoc .nil hstep, fun x hx => ?_⟩
    rw [List.mem_singleton.mp hx]
    exact howner
  | attachSource caller id filename revision data key fresh =>
    obtain rfl := Option.some.inj howner
    obtain ⟨⟨hkey, hfresh⟩, heq⟩ := Option.ite_none_right_eq_some.mp h
    obtain ⟨-, rfl⟩ := Prod.mk.inj (Option.some.inj heq)
    have hbegin : σ.step s (.beginAttach caller id filename revision data key) =
      some (σ.beginAttach s caller id filename revision data key) := if_neg hkey
    refine thenCommit_run hbegin ?_ rfl ?_
    all_goals unfold Sys.beginAttach
    · split
      · exact hfresh
      · exact hfresh
    · intro f fs hdone hflights
      split at hdone
      · cases hdone
      · rename_i file hfile
        rw [hfile] at hflights
        obtain ⟨rfl, -⟩ := List.cons.inj hflights
        rfl
  | finalizeImport caller id revision data key fresh =>
    obtain rfl := Option.some.inj howner
    obtain ⟨⟨hkey, hfresh⟩, heq⟩ := Option.ite_none_right_eq_some.mp h
    obtain ⟨-, rfl⟩ := Prod.mk.inj (Option.some.inj heq)
    have hbegin : σ.step s (.beginFinalize caller id revision data key) =
      some (σ.beginFinalize s caller id revision data key) := if_neg hkey
    refine thenCommit_run hbegin ?_ rfl ?_
    all_goals unfold Sys.beginFinalize
    · split
      · exact hfresh
      · exact hfresh
      · split
        · exact hfresh
        · exact hfresh
    · intro f fs hdone hflights
      split at hdone
      · cases hdone
      · cases hdone
      · rename_i plan hchecks
        rw [hchecks] at hflights
        dsimp only at hdone hflights
        split at hdone
        · cases hdone
        · rename_i bytes hbytes
          rw [hbytes] at hflights
          obtain ⟨rfl, -⟩ := List.cons.inj hflights
          rfl
  | query _ q =>
    obtain ⟨-, rfl⟩ := Prod.mk.inj (Option.some.inj h)
    exact ⟨[], .nil, by simp⟩
  | work e => cases howner

theorem serve_step {c : Call} {fresh : Fresh} (h : σ.serve s (.call c fresh) = some (answer, σ')) :
    ∃ r, σ.step s (.call c fresh) = some (r, σ') := by
  obtain ⟨⟨r, σ₁⟩, hstep, heq⟩ := Option.map_eq_some_iff.mp h
  obtain ⟨-, rfl⟩ := Prod.mk.inj heq
  exact ⟨r, hstep⟩

theorem serve_work {e : Event} (h : σ.serve s (.work e) = some (answer, σ')) :
    e.isWork = true ∧ ∃ r, σ.step s e = some (r, σ') := by
  obtain ⟨hwork, heq⟩ := Option.ite_none_right_eq_some.mp h
  obtain ⟨⟨r, σ₁⟩, hstep, heq⟩ := Option.map_eq_some_iff.mp heq
  obtain ⟨-, rfl⟩ := Prod.mk.inj heq
  exact ⟨hwork, r, hstep⟩

theorem Ready.serve (hσ : Ready s σ) (h : σ.serve s request = some (answer, σ')) : Ready s σ' := by
  cases howner : request.owner? with
  | some owner =>
    obtain ⟨t, hrun, -⟩ := serve_run howner h
    exact hσ.run hrun
  | none =>
    cases request with
    | call c fresh =>
      obtain ⟨r, hstep⟩ := serve_step h
      exact hσ.step hstep
    | work e =>
      obtain ⟨-, r, hstep⟩ := serve_work h
      exact hσ.step hstep
    | _ => cases howner

end Steps

end Noted
