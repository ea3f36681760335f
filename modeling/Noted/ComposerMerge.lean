import Noted.Steps

/-!
# A composer merge changes what was previewed (internal/app/composers.go)

The token of a preview is a hash of the owner, the target, the spellings and the pieces
that have them. A merge computes it again under its row locks, so whatever has happened
in between, the merge that succeeds finds the pieces of the preview.
-/

namespace Noted

open Library Db

variable {s : Service} {owner owner' : Id} {now : Time} {db db' : Db} {input input' : ComposerMerge}
  {preview preview' : ComposerPreview}

/-- No two selections hash to this token. -/
def CollisionFree (s : Service) (token : Text) : Prop :=
  ∀ owner target spellings pieces owner' target' spellings' pieces',
    s.fingerprint owner target spellings pieces = token →
    s.fingerprint owner' target' spellings' pieces' = token →
    owner = owner' ∧ target = target' ∧ spellings = spellings' ∧ pieces = pieces'

section Preview

def selected (owner : Id) (input : ComposerMerge) (db : Db) : List PieceRow :=
  (db.pieces.rows.filter fun p =>
    p.userId == owner && input.spellings.contains p.composer).mergeSort fun p q => p.id ≤ q.id

theorem mem_selected {p : PieceRow} : p ∈ selected owner input db ↔
    p ∈ db.pieces ∧ p.userId = owner ∧ p.composer ∈ input.spellings := by
  simp [selected, Table.mem_rows]

theorem nodup_selected : ((selected owner input db).map PieceRow.id).Nodup := by
  have hperm : (selected owner input db).Perm (db.pieces.rows.filter fun p =>
      p.userId == owner && input.spellings.contains p.composer) := List.mergeSort_perm _ _
  rw [(hperm.map PieceRow.id).nodup_iff]
  exact db.pieces.nodup.sublist (List.filter_sublist.map _)

theorem composerPreview_ok (h : composerPreview s owner input db = .ok preview) :
    preview.fingerprint = s.fingerprint owner input.target input.spellings
        ((selected owner input db).map fun p => (p.id, p.composer)) ∧
      preview.pieces = (selected owner input db).map db.composerPiece ∧
      preview.count = preview.pieces.length := by
  simp only [composerPreview, bind_eq_ok, refuse_eq_ok, exists_const, pure_eq_ok,
    Except.ok.injEq] at h
  obtain ⟨-, rfl⟩ := h
  exact ⟨rfl, rfl, by simp⟩

end Preview

section Merge

theorem merge_rows (owner : Id) (change : PieceChange) (ids : List Id) (hids : ids.Nodup) (db : Db) :
    ∃ pieces, ids.foldl (fun db id =>
        db.updatePieces (fun p => p.id == id && p.userId == owner) change) db =
          { db with pieces := pieces } ∧
      pieces.rows = db.pieces.rows.map fun p =>
        if p.id ∈ ids ∧ p.userId = owner then change.apply p else p := by
  induction ids generalizing db with
  | nil => exact ⟨db.pieces, rfl, by simp⟩
  | cons id ids ih =>
    obtain ⟨hid, hids⟩ := List.nodup_cons.mp hids
    obtain ⟨pieces, heq, hrows⟩ :=
      ih hids (db.updatePieces (fun p => p.id == id && p.userId == owner) change)
    refine ⟨pieces, heq, ?_⟩
    rw [hrows, updatePieces_pieces]
    simp only [Table.modify, List.map_map]
    apply List.map_congr_left
    intro p _
    by_cases hrow : p.id = id ∧ p.userId = owner
    · obtain ⟨rfl, rfl⟩ := hrow
      simp [change.id_eq, hid]
    · have hwhere : ¬(p.id == id && p.userId == owner) = true := by simpa using hrow
      have hmem : (p.id ∈ id :: ids ∧ p.userId = owner) ↔ p.id ∈ ids ∧ p.userId = owner := by
        rw [List.mem_cons]
        tauto
      simp only [Function.comp_apply, if_neg hwhere, hmem]

theorem validateComposerMerge_fields {merge : ComposerMerge}
    (h : validateComposerMerge input = .ok merge) :
    merge.target = trimSpace input.target ∧ merge.fingerprint = input.fingerprint := by
  simp only [validateComposerMerge, bind_eq_ok, refuse_eq_ok, exists_const, pure_eq_ok,
    Except.ok.injEq] at h
  obtain ⟨-, -, -, rfl⟩ := h
  exact ⟨rfl, rfl⟩

theorem mergeComposers_ok
    (h : mergeComposers s owner input now db = .ok (db', preview)) :
    ∃ merge, validateComposerMerge input = .ok merge ∧
      composerPreview s owner merge db = .ok preview ∧ input.fingerprint = preview.fingerprint ∧
      ∃ pieces, db' = { db with pieces := pieces } ∧
        pieces.rows = db.pieces.rows.map fun p =>
          if p ∈ selected owner merge db then (mergedPiece s merge.target now).apply p else p := by
  simp only [mergeComposers, bind_eq_ok, refuse_eq_ok, exists_const, pure_eq_ok, Except.ok.injEq,
    Prod.mk.injEq, ne_eq, not_not] at h
  obtain ⟨merge, hmerge, -, p, hpreview, htoken, hdb, rfl⟩ := h
  rw [(validateComposerMerge_fields hmerge).2] at htoken
  obtain ⟨pieces, hfold, hrows⟩ := merge_rows owner (mergedPiece s merge.target now)
    ((selected owner merge db).map PieceRow.id) nodup_selected db
  refine ⟨merge, hmerge, hpreview, htoken, pieces, ?_, ?_⟩
  · rw [← hdb, (composerPreview_ok hpreview).2.1, ← hfold, List.foldl_map, List.foldl_map]
    rfl
  · rw [hrows]
    apply List.map_congr_left
    intro q hq
    have hmem : (q.id ∈ (selected owner merge db).map PieceRow.id ∧ q.userId = owner) ↔
        q ∈ selected owner merge db := by
      constructor
      · intro h
        obtain ⟨⟨p, hp, hid⟩, -⟩ := List.mem_map.mp h.1, h.2
        rwa [← Table.eq_of_key (mem_selected.mp hp).1 hq hid]
      · intro h
        exact ⟨List.mem_map_of_mem h, (mem_selected.mp h).2.1⟩
    simp only [hmem]

theorem selected_eq {db₁ : Db} (hpreview : composerPreview s owner input db₁ = .ok preview)
    (hpreview' : composerPreview s owner' input' db = .ok preview')
    (htoken : preview'.fingerprint = preview.fingerprint)
    (hcollision : CollisionFree s preview.fingerprint) :
    owner' = owner ∧ input'.target = input.target ∧
      (selected owner' input' db).map (fun p => (p.id, p.composer)) =
        (selected owner input db₁).map fun p => (p.id, p.composer) := by
  have hfirst := (composerPreview_ok hpreview).1
  have hsecond := (composerPreview_ok hpreview').1
  obtain ⟨howner, htarget, -, hpieces⟩ := hcollision _ _ _ _ _ _ _ _
    (hsecond.symm.trans htoken) hfirst.symm
  exact ⟨howner, htarget, hpieces⟩

variable {σ σ' : Sys} {t u : List (Entry Sys Event Response)} {x : Entry Sys Event Response}
  {fresh : Fresh}

def ComposerPreview.counts (preview : ComposerPreview) (p : PieceRow) : Prop :=
  ∃ q ∈ preview.pieces, q.id = p.id ∧ q.composer = p.composer

theorem counts_iff (hpreview : composerPreview s owner input db = .ok preview) {p : PieceRow} :
    preview.counts p ↔ (p.id, p.composer) ∈
      (selected owner input db).map fun p => (p.id, p.composer) := by
  rw [ComposerPreview.counts, (composerPreview_ok hpreview).2.1]
  simp [Db.composerPiece]

/-- Whatever happens between a preview and a merge with its token, the merge fails and
changes nothing, or the pieces it updates are the pieces that the preview counted, all
of them still there with the composer they had; it updates these columns and no other. -/
theorem mergeComposers_previewed (hpreview : previewComposerMerge s owner input σ.db = .ok preview)
    (hcollision : CollisionFree s preview.fingerprint)
    (h : Run (Sys.step s) σ (t ++ x :: u) σ')
    (hx : x.event = .call (.mergeComposers owner' input') fresh)
    (htoken : input'.fingerprint = preview.fingerprint) :
    ((∃ e, x.response = .failed e) ∧ x.after = x.before.spend fresh) ∨
      x.response = .done ∧ ∃ pieces,
        x.after = { x.before.spend fresh with db := { x.before.db with pieces := pieces } } ∧
        (∀ q ∈ preview.pieces, (∃ p ∈ σ.db.pieces, p.userId = owner ∧ p.id = q.id ∧
            p.composer = q.composer) ∧
          ∃ p ∈ x.before.db.pieces, p.userId = owner ∧ p.id = q.id ∧ p.composer = q.composer) ∧
        (∀ p ∈ x.before.db.pieces, ¬preview.counts p → p ∈ pieces) ∧
        (∀ p ∈ x.before.db.pieces, preview.counts p →
          { p with
            composer := trimSpace input.target
            composerSort := composerSortKey s.unicode (trimSpace input.target)
            composerSortSource := trimSpace input.target
            composerSortVersion := composerKeyVersion
            searchText := searchText s.unicode { p.input with composer := trimSpace input.target }
            updatedAt := x.before.clock } ∈ pieces) ∧
        pieces.rows.length = x.before.db.pieces.rows.length := by
  obtain ⟨-, hstep, -⟩ := h.at_entry
  rw [hx] at hstep
  obtain ⟨merge₀, hvalid₀, hpreview⟩ := bind_eq_ok.mp hpreview
  obtain ⟨-, heq⟩ := Option.ite_none_right_eq_some.mp hstep
  have heq := Option.some.inj heq
  unfold Sys.answer at heq
  split at heq
  · rename_i db hrun
    right
    obtain ⟨⟨_, preview'⟩, hmerge, rfl⟩ := map_eq_ok.mp hrun
    obtain ⟨merge, hvalid, hpreview', htoken', pieces, hdb, hrows⟩ := mergeComposers_ok hmerge
    obtain ⟨rfl, htarget, hsame⟩ := selected_eq hpreview hpreview'
      (htoken'.symm.trans htoken) hcollision
    rw [(validateComposerMerge_fields hvalid₀).1] at htarget
    have hcounts : ∀ p ∈ x.before.db.pieces,
        preview.counts p ↔ p ∈ selected owner' merge x.before.db := by
      intro p hp
      rw [counts_iff hpreview, ← hsame, List.mem_map]
      constructor
      · intro h
        obtain ⟨q, hq, heq⟩ := h
        rwa [← Table.eq_of_key (mem_selected.mp hq).1 hp (congrArg Prod.fst heq)]
      · intro h
        exact ⟨p, h, rfl⟩
    obtain ⟨hdone, hafter⟩ := Prod.mk.inj heq
    refine ⟨hdone.symm, pieces, ?_, ?_, ?_, ?_, ?_⟩
    · rw [← hafter]
      rw [hdb]
    · intro q hq
      rw [(composerPreview_ok hpreview).2.1] at hq
      obtain ⟨p, hp, rfl⟩ := List.mem_map.mp hq
      obtain ⟨hp₁, howner, -⟩ := mem_selected.mp hp
      refine ⟨⟨p, hp₁, howner, rfl, rfl⟩, ?_⟩
      have hpair : (p.id, p.composer) ∈ (selected owner' merge x.before.db).map
          fun p => (p.id, p.composer) := by
        rw [hsame]
        exact List.mem_map_of_mem hp
      obtain ⟨q, hq, heq⟩ := List.mem_map.mp hpair
      obtain ⟨hq, howner', -⟩ := mem_selected.mp hq
      obtain ⟨hid, hcomposer⟩ := Prod.mk.inj heq
      exact ⟨q, hq, howner', hid, hcomposer⟩
    · intro p hp hnot
      rw [← Table.mem_rows, hrows, List.mem_map]
      exact ⟨p, hp, if_neg fun h => hnot ((hcounts p hp).mpr h)⟩
    · intro p hp hcount
      rw [← Table.mem_rows, hrows, List.mem_map]
      refine ⟨p, hp, ?_⟩
      rw [if_pos ((hcounts p hp).mp hcount), htarget]
      rfl
    · rw [hrows, List.length_map]
  · rename_i e hrun
    left
    obtain ⟨hfailed, hafter⟩ := Prod.mk.inj heq
    exact ⟨⟨e, hfailed.symm⟩, hafter.symm⟩

section Plain

def mergeService : Service :=
  { plainService with
    fingerprint := fun owner target spellings pieces =>
      if (owner, target, spellings, pieces) =
          (1, "J. S. Bach".toList, ["Bach".toList], [(2, "Bach".toList)]) then
        List.replicate 64 '0'
      else [] }

theorem mergeService_collisionFree : CollisionFree mergeService (List.replicate 64 '0') := by
  have honly : ∀ owner target spellings pieces,
      mergeService.fingerprint owner target spellings pieces = List.replicate 64 '0' →
      (owner, target, spellings, pieces) =
        (1, "J. S. Bach".toList, ["Bach".toList], [(2, "Bach".toList)]) := by
    intro owner target spellings pieces h
    by_contra hne
    simp only [mergeService, if_neg hne] at h
    cases h
  intro owner target spellings pieces owner' target' spellings' pieces' h h'
  have heq := (honly _ _ _ _ h).trans (honly _ _ _ _ h').symm
  simpa only [Prod.mk.injEq] using heq

def plainPiece (title composer : Text) : PieceInput :=
  ⟨[], [], title, composer, false, none, [], [], [], []⟩

def plainMerge : ComposerMerge :=
  ⟨["Bach".toList], "J. S. Bach".toList, List.replicate 64 '0'⟩

def mergesPreviewed (t : List (Entry Sys Event Response)) : Bool :=
  match t with
  | [a, _, x] =>
    decide (previewComposerMerge mergeService 1 plainMerge a.after.db =
      .ok ⟨List.replicate 64 '0', 1, [⟨2, "Prelude".toList, "Bach".toList, false⟩]⟩) &&
    x.event == .call (.mergeComposers 1 plainMerge) (plainFresh 3) && x.response == .done
  | _ => false

theorem mergeComposers_previewed_added :
    ∃ t σ x, Run (Sys.step mergeService) emptyLibrary t σ ∧ x ∈ t ∧ x.response = .done ∧
      ∃ p ∈ x.after.db.pieces, p.id = 2 ∧ p.composer = "J. S. Bach".toList := by
  obtain ⟨t, σ, hrun, hp⟩ : ∃ t σ, Run (Sys.step mergeService) emptyLibrary t σ ∧
      mergesPreviewed t = true :=
    exists_run [.call (.createPiece 1 (plainPiece "Prelude".toList "Bach".toList)) (plainFresh 1),
      .call (.createPiece 1 (plainPiece "Gnossienne".toList "Satie".toList)) (plainFresh 2),
      .call (.mergeComposers 1 plainMerge) (plainFresh 3)] (by decide +kernel)
  unfold mergesPreviewed at hp
  split at hp
  · rename_i a b x
    simp only [Bool.and_eq_true, decide_eq_true_eq, beq_iff_eq] at hp
    obtain ⟨⟨hpreview, hx⟩, hdone⟩ := hp
    have hrest := (Run.at_entry (t := []) (x := a) (u := [b, x]) hrun).2.2
    obtain ⟨⟨e, hfailed⟩, -⟩ | ⟨-, pieces, hafter, hthere, -, hmerged, -⟩ :=
      mergeComposers_previewed hpreview mergeService_collisionFree
        (t := [b]) (u := []) hrest hx rfl
    · rw [hdone] at hfailed
      cases hfailed
    · obtain ⟨-, p, hp, -, hid, hcomposer⟩ := hthere _ (List.mem_singleton.mpr rfl)
      have hnew := hmerged p hp ⟨_, List.mem_singleton.mpr rfl, hid.symm, hcomposer.symm⟩
      have hpieces : x.after.db.pieces = pieces := by rw [hafter]
      rw [← hpieces] at hnew
      have htarget : trimSpace plainMerge.target = "J. S. Bach".toList := by decide +kernel
      exact ⟨_, σ, x, hrun, by simp, hdone, _, hnew, hid, htarget⟩
  · cases hp

end Plain

end Merge

end Noted
