import Mathlib.Data.List.Lex
import Mathlib.Data.List.Sort
import Mathlib.Data.List.Sublists

/-!
# The first of each key

A list is sorted, and of the elements that are accepted the first with each key is kept.
The result is a function of the set of the elements when the order tells them apart.
-/

namespace Noted.Library.Firsts

variable {α β κ : Type*}

section Sorting

theorem mergeSort_congr {le : α → α → Bool} {l l' : List α} (h : l.Perm l')
    (htrans : ∀ a b c, le a b = true → le b c = true → le a c = true)
    (htotal : ∀ a b, (le a b || le b a) = true)
    (hanti : ∀ a ∈ l, ∀ b ∈ l, le a b = true → le b a = true → a = b) :
    l.mergeSort le = l'.mergeSort le := by
  have hperm := (List.mergeSort_perm l le).trans (h.trans (List.mergeSort_perm l' le).symm)
  refine hperm.eq_of_pairwise ?_ (List.pairwise_mergeSort htrans htotal l)
    (List.pairwise_mergeSort htrans htotal l')
  intro a b ha hb
  exact hanti a (List.mem_mergeSort.mp ha) b (h.mem_iff.mpr (List.mem_mergeSort.mp hb))

end Sorting

section Keys

variable (accept : α → Option β) (key : β → κ)

/-- Of the accepted elements the first with each key that has not been seen. -/
def firsts [DecidableEq κ] : List κ → List α → List β
  | _, [] => []
  | seen, a :: as =>
    match accept a with
    | none => firsts seen as
    | some b => if key b ∈ seen then firsts seen as else b :: firsts (key b :: seen) as

structure Selects (seen : List κ) (l chosen : List α) (out : List β) : Prop where
  outputs : chosen.map accept = out.map some
  sublist : chosen.Sublist l
  unseen : ∀ b ∈ out, key b ∉ seen
  distinct : (out.map key).Nodup
  first : ∀ a ∈ l, ∀ b, accept a = some b → key b ∉ seen →
    ∃ c ∈ chosen, ∃ d, accept c = some d ∧ key d = key b ∧ (c = a ∨ [c, a].Sublist l)

variable {accept key} {seen : List κ} {l chosen : List α} {out : List β} {a : α} {b : β}

theorem Selects.skip (h : Selects accept key seen l chosen out)
    (hskip : ∀ b, accept a = some b → key b ∈ seen) :
    Selects accept key seen (a :: l) chosen out where
  outputs := h.outputs
  sublist := h.sublist.cons a
  unseen := h.unseen
  distinct := h.distinct
  first := by
    intro a' ha' b hb hkey
    rcases List.mem_cons.mp ha' with rfl | hmem
    · exact absurd (hskip b hb) hkey
    · obtain ⟨c, hc, d, hd, heq, hbefore⟩ := h.first a' hmem b hb hkey
      exact ⟨c, hc, d, hd, heq, hbefore.imp_right fun hsub => hsub.cons a⟩

theorem Selects.keep (h : Selects accept key (key b :: seen) l chosen out)
    (hb : accept a = some b) (hnew : key b ∉ seen) :
    Selects accept key seen (a :: l) (a :: chosen) (b :: out) where
  outputs := by rw [List.map_cons, List.map_cons, hb, h.outputs]
  sublist := h.sublist.cons_cons a
  unseen := by
    intro d hd
    rcases List.mem_cons.mp hd with rfl | hmem
    · exact hnew
    · exact fun hseen => h.unseen d hmem (List.mem_cons_of_mem _ hseen)
  distinct := by
    rw [List.map_cons, List.nodup_cons]
    refine ⟨fun hmem => ?_, h.distinct⟩
    obtain ⟨d, hd, hkey⟩ := List.mem_map.mp hmem
    exact h.unseen d hd (hkey ▸ List.mem_cons_self ..)
  first := by
    intro a' ha' b' hb' hkey
    by_cases hsame : key b' = key b
    · refine ⟨a, List.mem_cons_self .., b, hb, hsame.symm, ?_⟩
      rcases List.mem_cons.mp ha' with rfl | hmem
      · exact Or.inl rfl
      · exact Or.inr ((List.singleton_sublist.mpr hmem).cons_cons a)
    · have hmem : a' ∈ l := by
        rcases List.mem_cons.mp ha' with rfl | hmem
        · exact absurd (congrArg key (Option.some.inj (hb'.symm.trans hb))) hsame
        · exact hmem
      have hfresh : key b' ∉ key b :: seen := by
        rw [List.mem_cons, not_or]
        exact ⟨hsame, hkey⟩
      obtain ⟨c, hc, d, hd, heq, hbefore⟩ := h.first a' hmem b' hb' hfresh
      exact ⟨c, List.mem_cons_of_mem _ hc, d, hd, heq, hbefore.imp_right fun hsub => hsub.cons a⟩

theorem firsts_selects [DecidableEq κ] (accept : α → Option β) (key : β → κ) (seen : List κ) (l : List α) :
    ∃ chosen, Selects accept key seen l chosen (firsts accept key seen l) := by
  induction l generalizing seen with
  | nil => exact ⟨[], rfl, List.Sublist.refl [], by simp [firsts], by simp [firsts], by simp⟩
  | cons a as ih =>
    rw [firsts]
    cases hb : accept a with
    | none =>
      obtain ⟨chosen, h⟩ := ih seen
      exact ⟨chosen, h.skip fun b hb' => absurd (hb.symm.trans hb') (by simp)⟩
    | some b =>
      dsimp only
      split_ifs with hseen
      · obtain ⟨chosen, h⟩ := ih seen
        refine ⟨chosen, h.skip fun b' hb' => ?_⟩
        rwa [← Option.some.inj (hb.symm.trans hb')]
      · obtain ⟨chosen, h⟩ := ih (key b :: seen)
        exact ⟨a :: chosen, h.keep hb hseen⟩

end Keys

end Noted.Library.Firsts
