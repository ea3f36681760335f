import Noted.Merge

/-!
# Derived columns

The search text of every row is right after the refold and after every step from
there. The filing key of a row is right too, unless the row has it, and its
composer, from before the refold. Both lists show the same pieces in one order.
-/

namespace Noted

open Library Db Search

variable {s : Service} {σ σ' σ₀ σ₁ : Sys} {e : Event} {r : Response} {db : Db}

section Columns

def PieceRow.Indexed (s : Service) (p : PieceRow) : Prop :=
  p.searchText = searchIndex s.unicode [p.title, p.composer, p.aliases, p.notes, p.opus, p.musicKey]

def PieceRow.Filed (s : Service) (p : PieceRow) : Prop :=
  p.composerSort = composerSortKey s.unicode p.composer ∧ p.composerSortSource = p.composer ∧
    p.composerSortVersion = composerKeyVersion

def PieceRow.SameFiling (p q : PieceRow) : Prop :=
  q.id = p.id ∧ q.composer = p.composer ∧ q.composerSort = p.composerSort ∧
    q.composerSortSource = p.composerSortSource ∧ q.composerSortVersion = p.composerSortVersion

theorem PieceRow.SameFiling.trans {p q r : PieceRow} (h : p.SameFiling q) (h' : q.SameFiling r) :
    p.SameFiling r := by
  obtain ⟨hid, hcomposer, hsort, hsource, hversion⟩ := h
  obtain ⟨hid', hcomposer', hsort', hsource', hversion'⟩ := h'
  exact ⟨hid'.trans hid, hcomposer'.trans hcomposer, hsort'.trans hsort, hsource'.trans hsource,
    hversion'.trans hversion⟩

theorem PieceRow.SameFiling.filed {p q : PieceRow} (h : p.SameFiling q) (hp : p.Filed s) :
    q.Filed s := by
  obtain ⟨-, hcomposer, hsort, hsource, hversion⟩ := h
  obtain ⟨hpsort, hpsource, hpversion⟩ := hp
  refine ⟨?_, ?_, hversion.trans hpversion⟩
  · rw [hsort, hpsort, hcomposer]
  · rw [hsource, hpsource, hcomposer]

def KeepsIndexed (s : Service) (p p' : PieceRow) : Prop := p.Indexed s → p'.Indexed s

theorem keepsIndexed_editing {now : Time} : Editing s now (KeepsIndexed s) where
  refl _ h := h
  trans _ _ _ h h' hp := h' (h hp)
  update _ _ _ _ := rfl
  merge _ _ _ _ _ _ := rfl
  repair _ h := h
  refold _ _ := rfl

def KeepsFiling (s : Service) (p p' : PieceRow) : Prop := p'.Filed s ∨ p.SameFiling p'

theorem keepsFiling_editing {now : Time} : Editing s now (KeepsFiling s) where
  refl _ := Or.inr ⟨rfl, rfl, rfl, rfl, rfl⟩
  trans _ _ _ h h' := by
    obtain hfiled | hsame := h'
    · exact Or.inl hfiled
    · exact h.imp hsame.filed fun hsame₀ => hsame₀.trans hsame
  update _ _ _ := Or.inl ⟨rfl, rfl, rfl⟩
  merge _ _ _ _ _ := Or.inl ⟨rfl, rfl, rfl⟩
  repair _ := Or.inl ⟨rfl, rfl, rfl⟩
  refold _ := Or.inr ⟨rfl, rfl, rfl, rfl, rfl⟩

def AllIndexed (s : Service) (σ : Sys) : Prop := ∀ p ∈ σ.db.pieces, p.Indexed s

theorem AllIndexed.step (hσ : AllIndexed s σ) (h : Sys.step s σ e = some (r, σ')) :
    AllIndexed s σ' := by
  intro p' hp'
  cases (Sys.step_stepped h).piece_origin hp' with
  | kept hp => exact hσ p' hp
  | edited p hp hedit => exact hedit (KeepsIndexed s) keepsIndexed_editing (hσ p hp)
  | created owner id input hvalid htrim heq =>
    subst heq
    rfl
  | finalized p m manifest hvalid htrim hp heq =>
    subst heq
    rfl

/-- Every row has the filing columns of its composer, or has them and the composer
from a row of `σ₀`. -/
def FiledSince (s : Service) (σ₀ σ : Sys) : Prop :=
  ∀ p ∈ σ.db.pieces, p.Filed s ∨ ∃ p₀ ∈ σ₀.db.pieces, p₀.SameFiling p

theorem FiledSince.step (hσ : FiledSince s σ₀ σ) (h : Sys.step s σ e = some (r, σ')) :
    FiledSince s σ₀ σ' := by
  intro p' hp'
  cases (Sys.step_stepped h).piece_origin hp' with
  | kept hp => exact hσ p' hp
  | edited p hp hedit =>
    obtain hfiled | hsame := hedit (KeepsFiling s) keepsFiling_editing
    · exact Or.inl hfiled
    · refine (hσ p hp).imp hsame.filed ?_
      intro h
      obtain ⟨p₀, hp₀, hsame₀⟩ := h
      exact ⟨p₀, hp₀, hsame₀.trans hsame⟩
  | created owner id input hvalid htrim heq =>
    subst heq
    exact Or.inl ⟨rfl, rfl, rfl⟩
  | finalized p m manifest hvalid htrim hp heq =>
    subst heq
    exact Or.inl ⟨rfl, rfl, rfl⟩

end Columns

section Lists

theorem rankSorted_map {α β : Type*} (indexOf : β → Text) (f : α → β) (query : Text) (rows : List α) :
    (rankSorted s (fun a => indexOf (f a)) query rows).map f = rankSorted s indexOf query (rows.map f) := by
  unfold rankSorted
  dsimp only
  split
  · rfl
  · apply List.map_mergeSort
    intro a _ b _
    rfl

theorem composerSorted_map {α β : Type*} (composerOf : β → Text) (f : α → β) (sort : Option PieceOrder)
    (rows : List α) : (composerSorted s (fun a => composerOf (f a)) sort rows).map f =
      composerSorted s composerOf sort (rows.map f) := by
  unfold composerSorted
  split
  · apply List.map_mergeSort
    intro a _ b _
    rfl
  · rfl

theorem sorted_ids {α : Type*} (idOf : α → Id) (composerOf indexOf : α → Text)
    (sort : Option PieceOrder) (query : Text) (rows : List α) :
    (rankSorted s indexOf query (composerSorted s composerOf sort rows)).map idOf =
      (rankSorted s (fun a : Id × Text × Text => a.2.2) query
        (composerSorted s (fun a : Id × Text × Text => a.2.1) sort
          (rows.map fun a => (idOf a, composerOf a, indexOf a)))).map Prod.fst := by
  rw [← composerSorted_map, ← rankSorted_map, List.map_map]
  rfl

theorem listRows_mem {owner : Id} {options : ListOptions} {rows : List Joined}
    (h : listRows s owner options db = .ok rows) {j : Joined} (hj : j ∈ rows) :
    j.piece ∈ db.pieces := by
  obtain ⟨order, -, h⟩ := bind_eq_ok.mp h
  obtain rfl : _ = rows := by simpa using h
  obtain ⟨p, hp, rfl⟩ := List.mem_map.mp (List.mem_mergeSort.mp hj)
  exact (List.mem_filter.mp hp).1

theorem lists_agree (hdb : ∀ p ∈ db.pieces, p.Indexed s) (owner : Id) (options : ListOptions) :
    (listPieces s owner options db).map (List.map Piece.id) =
      (listPieceSummaries s owner options db).map (List.map PieceSummary.id) := by
  unfold listPieces listPieceSummaries
  cases hrows : listRows s owner options db with
  | error error => rfl
  | ok rows =>
    have hshown : (rows.map fun j => db.toPiece j.piece).map
        (fun p => (p.id, p.composer, p.searchText s)) =
        (rows.map Joined.summary).map fun p => (p.id, p.composer, p.searchText) := by
      rw [List.map_map, List.map_map]
      apply List.map_congr_left
      intro j hj
      have hindexed := hdb j.piece (listRows_mem hrows hj)
      change (_, _, _) = (_, _, j.piece.searchText)
      rw [hindexed]
      rfl
    refine congrArg Except.ok ?_
    exact (sorted_ids Piece.id Piece.composer (Piece.searchText s) _ _ _).trans
      ((congrArg _ (congrArg _ (congrArg _ hshown))).trans
        (sorted_ids PieceSummary.id PieceSummary.composer PieceSummary.searchText _ _ _).symm)

end Lists

/-- After the refold at startup the derived columns stay right, but for the filing
columns that a row still has from startup; and the two lists agree. -/
theorem derived_columns {force : Bool} {fresh : Fresh} {t : List (Entry Sys Event Response)}
    (hfold : force = false → σ₀.db.foldVersion = searchFoldVersion → AllIndexed s σ₀)
    (hrefold : Sys.step s σ₀ (.call (.refoldSearchText force) fresh) = some (.done, σ₁))
    (hrun : Run (Sys.step s) σ₁ t σ) :
    (∀ p ∈ σ.db.pieces, p.searchText =
        searchIndex s.unicode [p.title, p.composer, p.aliases, p.notes, p.opus, p.musicKey]) ∧
      (∀ p ∈ σ.db.pieces,
        (p.composerSort = composerSortKey s.unicode p.composer ∧ p.composerSortSource = p.composer ∧
          p.composerSortVersion = composerKeyVersion) ∨
        ∃ p₀ ∈ σ₁.db.pieces, p₀.id = p.id ∧ p₀.composer = p.composer ∧
          p₀.composerSort = p.composerSort ∧ p₀.composerSortSource = p.composerSortSource ∧
          p₀.composerSortVersion = p.composerSortVersion) ∧
      ∀ owner options, (listPieces s owner options σ.db).map (List.map Piece.id) =
        (listPieceSummaries s owner options σ.db).map (List.map PieceSummary.id) := by
  have hindexed₁ : AllIndexed s σ₁ := by
    cases Sys.step_stepped hrefold with
    | callDone c fresh db hfresh hfolded =>
      simp only [Call.run, refoldSearchText, bind_eq_ok, refuse_eq_ok, exists_const] at hfolded
      obtain ⟨-, hfolded⟩ := hfolded
      split at hfolded
      · rename_i hcurrent
        obtain rfl : σ₀.db = db := by simpa using hfolded
        exact hfold hcurrent.2 hcurrent.1
      · obtain rfl : _ = db := by simpa using hfolded
        intro p hp
        obtain ⟨q, hq, rfl⟩ := mem_updatePieces.mp hp
        rfl
  have hindexed : AllIndexed s σ := hrun.invariant (fun hσ h => AllIndexed.step hσ h) hindexed₁
  have hfiled : FiledSince s σ₁ σ := by
    refine hrun.invariant (fun hσ h => FiledSince.step hσ h) ?_
    intro p hp
    exact Or.inr ⟨p, hp, rfl, rfl, rfl, rfl, rfl⟩
  refine ⟨hindexed, ?_, lists_agree hindexed⟩
  intro p hp
  refine (hfiled p hp).imp_right ?_
  intro h
  obtain ⟨p₀, hp₀, hid, hcomposer, hsort, hsource, hversion⟩ := h
  exact ⟨p₀, hp₀, hid.symm, hcomposer.symm, hsort.symm, hsource.symm, hversion.symm⟩

section Examples

def stalePiece : PieceRow :=
  { titledPiece 1 4 "Prelude".toList 0 with composer := "Bach".toList }

def staleLibrary : Sys :=
  { emptyLibrary with
    db := { emptyLibrary.db with pieces := ⟨[stalePiece], by decide⟩, foldVersion := 0 }
    ids := [4] }

theorem stalePiece_valid : (trimPiece stalePiece.input).Valid := by
  have hvalid : validatePiece stalePiece.input = .ok (trimPiece stalePiece.input) := by
    decide +kernel
  exact (validatePiece_eq_ok.mp hvalid).2

theorem staleLibrary_initial : Initial staleLibrary := by
  constructor
  case pieces =>
    intro p hp
    obtain rfl := List.mem_singleton.mp hp
    exact ⟨stalePiece_valid, rfl, List.mem_cons_self⟩
  all_goals simp [staleLibrary, emptyLibrary, Db.pdfHolds, Table.mem_rows]

/-- The refold leaves an old filing key as it is. -/
theorem not_filed : Initial staleLibrary ∧ ∃ t σ, Run (Sys.step plainService) staleLibrary t σ ∧
    (∃ x ∈ t, x.event = .call (.refoldSearchText false) (plainFresh 1) ∧ x.response = .done) ∧
    ∃ p ∈ σ.db.pieces, p.composerSortVersion ≠ composerKeyVersion := by
  obtain ⟨t, σ, hrun, ht⟩ : ∃ t σ, Run (Sys.step plainService) staleLibrary t σ ∧
      ((t.any fun x => x.event == .call (.refoldSearchText false) (plainFresh 1) && x.response == .done) &&
        σ.db.pieces.rows.any fun p => p.composerSortVersion != composerKeyVersion) = true :=
    exists_run [.call (.refoldSearchText false) (plainFresh 1)] (by decide +kernel)
  simp only [List.any_eq_true, Bool.and_eq_true, beq_iff_eq, bne_iff_ne, Table.mem_rows] at ht
  obtain ⟨hfolded, p, hp, hversion⟩ := ht
  exact ⟨staleLibrary_initial, t, σ, hrun, hfolded, p, hp, hversion⟩

def refoldsFirst (t : List (Entry Sys Event Response)) (σ : Sys) : Bool :=
  match t with
  | [x, _] => x.event == .call (.refoldSearchText false) (plainFresh 1) && x.response == .done &&
      σ.db.pieces.rows.length == 2
  | _ => false

theorem derived_columns_created : ∃ σ : Sys, σ.db.pieces.rows.length = 2 ∧
    ∀ options, (listPieces plainService 1 options σ.db).map (List.map Piece.id) =
      (listPieceSummaries plainService 1 options σ.db).map (List.map PieceSummary.id) := by
  obtain ⟨t, σ, hrun, ht⟩ : ∃ t σ, Run (Sys.step plainService) staleLibrary t σ ∧
      refoldsFirst t σ = true :=
    exists_run [.call (.refoldSearchText false) (plainFresh 1),
      .call (.createPiece 1 { stalePiece.input with title := "Fugue".toList }) (plainFresh 3)]
      (by decide +kernel)
  unfold refoldsFirst at ht
  split at ht
  · rename_i x y
    simp only [Bool.and_eq_true, beq_iff_eq] at ht
    obtain ⟨⟨hevent, hdone⟩, hlength⟩ := ht
    obtain ⟨hfirst, hstep, hrest⟩ := Run.at_entry (t := []) (x := x) (u := [y]) hrun
    rw [hevent, hdone, hfirst.eq_of_nil] at hstep
    exact ⟨σ, hlength, fun options =>
      (derived_columns (fun _ hversion => by cases hversion) hstep hrest).2.2 1 options⟩
  · cases ht

end Examples

end Noted
