import Mathlib.Data.List.Chain
import Mathlib.Data.List.Sort
import Mathlib.Tactic.SplitIfs

/-!
# A list cut at ranges

Ranges of a list, in the order of their starts, cut it into parts that are marked
where a range covers them. Ranges that meet or overlap make one part. The parts are
never empty, their marks alternate, and together they are the list.
-/

namespace Noted.Library

variable {α : Type*}

structure MarkedPart (α : Type*) where
  text : List α
  mark : Bool
  deriving DecidableEq

namespace MarkedPart

def marks (p : MarkedPart α) : List Bool := List.replicate p.text.length p.mark

def join (parts : List (MarkedPart α)) : List α := parts.flatMap text

def allMarks (parts : List (MarkedPart α)) : List Bool := parts.flatMap marks

end MarkedPart

structure Range where
  start : Nat
  stop : Nat
  deriving DecidableEq

def Range.covers (r : Range) (i : Nat) : Bool := r.start ≤ i && i < r.stop

def Range.Within (text : List α) (r : Range) : Prop := r.start < r.stop ∧ r.stop ≤ text.length

structure Cut (α : Type*) where
  parts : List (MarkedPart α)
  shown : Nat

namespace Cut

def add (text : List α) (c : Cut α) (r : Range) : Cut α :=
  if r.stop ≤ c.shown then c
  else
    let start := max r.start c.shown
    let gap : MarkedPart α := ⟨(text.take start).drop c.shown, false⟩
    let parts := if c.shown < start then gap :: c.parts else c.parts
    let marked := (text.take r.stop).drop start
    match parts with
    | last :: before =>
      if last.mark = true ∧ start = c.shown then ⟨⟨last.text ++ marked, true⟩ :: before, r.stop⟩
      else ⟨⟨marked, true⟩ :: last :: before, r.stop⟩
    | [] => ⟨[⟨marked, true⟩], r.stop⟩

def finish (text : List α) (c : Cut α) : List (MarkedPart α) :=
  (if c.shown < text.length then ⟨text.drop c.shown, false⟩ :: c.parts else c.parts).reverse

end Cut

def cutAt (text : List α) (ranges : List Range) : List (MarkedPart α) :=
  (ranges.foldl (Cut.add text) ⟨[], 0⟩).finish text

namespace MarkedPart

@[simp] theorem join_reverse_cons (p : MarkedPart α) (parts : List (MarkedPart α)) :
    join (p :: parts).reverse = join parts.reverse ++ p.text := by
  simp [join]

@[simp] theorem allMarks_reverse_cons (p : MarkedPart α) (parts : List (MarkedPart α)) :
    allMarks (p :: parts).reverse =
      allMarks parts.reverse ++ List.replicate p.text.length p.mark := by
  simp [allMarks, marks]

end MarkedPart

theorem map_range_stretch {f : Nat → Bool} {a b n : Nat} (hab : a ≤ b) (hbn : b ≤ n)
    (hfail : ∀ i, a ≤ i → i < b → f i = false) (hhold : ∀ i, b ≤ i → i < n → f i = true) :
    (List.range n).map f =
      (List.range a).map f ++ List.replicate (b - a) false ++ List.replicate (n - b) true := by
  apply List.ext_getElem
  · simp
    omega
  · intro i hi hi'
    simp only [List.length_map, List.length_range] at hi
    simp only [List.getElem_map, List.getElem_range, List.getElem_append, List.length_append,
      List.length_map, List.length_range, List.length_replicate, List.getElem_replicate]
    split_ifs with h₁ h₂
    · rfl
    · exact hfail i (by omega) (by omega)
    · exact hhold i (by omega) (by omega)

theorem length_slice {text : List α} {a b : Nat} (hb : b ≤ text.length) :
    ((text.take b).drop a).length = b - a := by
  simp [hb]

theorem take_append_slice {text : List α} {a b : Nat} (hab : a ≤ b) :
    text.take a ++ (text.take b).drop a = text.take b := by
  have h : text.take a = (text.take b).take a := by rw [List.take_take, min_eq_left hab]
  rw [h, List.take_append_drop]

structure Cut.Valid (text : List α) (done : List Range) (c : Cut α) : Prop where
  bound : c.shown ≤ text.length
  joined : MarkedPart.join c.parts.reverse = text.take c.shown
  nonempty : ∀ p ∈ c.parts, p.text ≠ []
  alternate : c.parts.IsChain fun p q => p.mark ≠ q.mark
  last : ∀ p ∈ c.parts.head?, p.mark = true
  marked : MarkedPart.allMarks c.parts.reverse =
    (List.range c.shown).map fun i => done.any (Range.covers · i)
  reach : c.shown = 0 ∨ ∃ r ∈ done, r.stop = c.shown
  ends : ∀ r ∈ done, r.stop ≤ c.shown

namespace Cut.Valid

variable {text : List α} {done : List Range} {c : Cut α} {r : Range}

theorem start (text : List α) : Cut.Valid text [] ⟨[], 0⟩ where
  bound := Nat.zero_le _
  joined := by simp [MarkedPart.join]
  nonempty := by simp
  alternate := List.IsChain.nil
  last := by simp
  marked := by simp [MarkedPart.allMarks]
  reach := Or.inl rfl
  ends := by simp

theorem covered (h : Cut.Valid text done c) (hstart : ∀ q ∈ done, q.start ≤ r.start) {i : Nat}
    (hi : i < c.shown) :
    ((done ++ [r]).any (Range.covers · i)) = done.any (Range.covers · i) := by
  rw [List.any_append, List.any_cons, List.any_nil, Bool.or_false, Bool.or_eq_left_iff_imp]
  intro hcovers
  simp only [Range.covers, Bool.and_eq_true, decide_eq_true_iff] at hcovers
  obtain hzero | ⟨q, hq, hstop⟩ := h.reach
  · omega
  · have hle := hstart q hq
    refine List.any_eq_true.mpr ⟨q, hq, ?_⟩
    simp only [Range.covers, Bool.and_eq_true, decide_eq_true_iff]
    omega

theorem add (h : Cut.Valid text done c) (hr : r.Within text)
    (hstart : ∀ q ∈ done, q.start ≤ r.start) : Cut.Valid text (done ++ [r]) (c.add text r) := by
  obtain ⟨hlt, hlen⟩ := hr
  unfold Cut.add
  split
  · rename_i hshown
    refine ⟨h.bound, h.joined, h.nonempty, h.alternate, h.last, ?_, ?_, ?_⟩
    · rw [h.marked]
      apply List.map_congr_left
      intro i hi
      exact (h.covered hstart (List.mem_range.mp hi)).symm
    · obtain hzero | ⟨q, hq, hstop⟩ := h.reach
      · exact Or.inl hzero
      · exact Or.inr ⟨q, List.mem_append_left _ hq, hstop⟩
    · intro q hq
      obtain hq | hq := List.mem_append.mp hq
      · exact h.ends q hq
      · obtain rfl := List.mem_singleton.mp hq
        exact hshown
  · rename_i hshown
    generalize hfrom : max r.start c.shown = start
    have hstart' : c.shown ≤ start ∧ start < r.stop := by omega
    have hmarks : (List.range r.stop).map (fun i => (done ++ [r]).any (Range.covers · i)) =
        MarkedPart.allMarks c.parts.reverse ++ List.replicate (start - c.shown) false ++
          List.replicate (r.stop - start) true := by
      rw [map_range_stretch hstart'.1 hstart'.2.le, h.marked]
      · congr 2
        apply List.map_congr_left
        intro i hi
        exact h.covered hstart (List.mem_range.mp hi)
      · intro i hlow hhigh
        rw [List.any_eq_false]
        intro q hq
        simp only [Range.covers, Bool.and_eq_true, decide_eq_true_iff, not_and]
        obtain hq | hq := List.mem_append.mp hq
        · have hend := h.ends q hq
          omega
        · obtain rfl := List.mem_singleton.mp hq
          omega
      · intro i hlow hhigh
        refine List.any_eq_true.mpr ⟨r, by simp, ?_⟩
        simp only [Range.covers, Bool.and_eq_true, decide_eq_true_iff]
        omega
    have hends : ∀ q ∈ done ++ [r], q.stop ≤ r.stop := by
      intro q hq
      obtain hq | hq := List.mem_append.mp hq
      · have hend := h.ends q hq
        omega
      · obtain rfl := List.mem_singleton.mp hq
        exact le_rfl
    have hreach : r.stop = 0 ∨ ∃ q ∈ done ++ [r], q.stop = r.stop := Or.inr ⟨r, by simp, rfl⟩
    have hmarkedLen := length_slice (a := start) hlen
    have hmarked : (text.take r.stop).drop start ≠ [] := by
      intro hnil
      rw [hnil, List.length_nil] at hmarkedLen
      omega
    have hgapLen : ((text.take start).drop c.shown).length = start - c.shown :=
      length_slice (by omega)
    by_cases hgap : c.shown < start
    · -- the gap stands between the last part and the range
      have hgapNe : (text.take start).drop c.shown ≠ [] := by
        intro hnil
        rw [hnil, List.length_nil] at hgapLen
        omega
      simp only [hgap, if_true, Bool.false_eq_true, false_and, if_false]
      refine ⟨hlen, ?_, ?_, ?_, by simp, ?_, hreach, hends⟩
      · rw [MarkedPart.join_reverse_cons, MarkedPart.join_reverse_cons, h.joined,
          take_append_slice hstart'.1, take_append_slice hstart'.2.le]
      · intro p hp
        rw [List.mem_cons, List.mem_cons] at hp
        obtain rfl | rfl | hp := hp
        · exact hmarked
        · exact hgapNe
        · exact h.nonempty p hp
      · refine List.isChain_cons_cons.mpr ⟨by simp, ?_⟩
        refine List.isChain_cons.mpr ⟨?_, h.alternate⟩
        intro p hp
        rw [h.last p hp]
        simp
      · rw [MarkedPart.allMarks_reverse_cons, MarkedPart.allMarks_reverse_cons, hmarks,
          hmarkedLen, hgapLen]
    · obtain rfl : start = c.shown := by omega
      simp only [lt_irrefl, if_false, and_true]
      rw [Nat.sub_self, List.replicate_zero, List.append_nil] at hmarks
      cases hparts : c.parts with
      | nil =>
        have hjoined := h.joined
        rw [hparts] at hjoined
        refine ⟨hlen, ?_, by simpa using hmarked, by simp, by simp, ?_, hreach, hends⟩
        · rw [MarkedPart.join_reverse_cons, hjoined, take_append_slice hstart'.2.le]
        · rw [MarkedPart.allMarks_reverse_cons, hmarks, hmarkedLen, hparts]
      | cons last before =>
        have hlast : last.mark = true := h.last last (by simp [hparts])
        have hjoined := h.joined
        have hnonempty := h.nonempty
        have halternate := h.alternate
        rw [hparts] at hjoined hnonempty halternate hmarks
        rw [MarkedPart.join_reverse_cons] at hjoined
        simp only [hlast, if_true]
        refine ⟨hlen, ?_, ?_, ?_, by simp, ?_, hreach, hends⟩
        · rw [MarkedPart.join_reverse_cons, ← List.append_assoc, hjoined,
            take_append_slice hstart'.2.le]
        · intro p hp
          obtain rfl | hp := List.mem_cons.mp hp
          · simp [hmarked]
          · exact hnonempty p (List.mem_cons_of_mem _ hp)
        · rw [List.isChain_cons] at halternate ⊢
          rw [hlast] at halternate
          exact halternate
        · rw [MarkedPart.allMarks_reverse_cons, hmarks, MarkedPart.allMarks_reverse_cons, hlast,
            List.length_append, List.replicate_add, hmarkedLen, List.append_assoc]

theorem foldl {ranges : List Range} (h : Cut.Valid text done c)
    (hwithin : ∀ r ∈ ranges, r.Within text)
    (hsorted : (done ++ ranges).Pairwise fun q r => q.start ≤ r.start) :
    Cut.Valid text (done ++ ranges) (ranges.foldl (Cut.add text) c) := by
  induction ranges generalizing done c with
  | nil => simpa using h
  | cons r ranges ih =>
    have hstart : ∀ q ∈ done, q.start ≤ r.start := by
      intro q hq
      exact (List.pairwise_append.mp hsorted).2.2 q hq r List.mem_cons_self
    rw [List.append_cons] at hsorted ⊢
    refine ih (h.add (hwithin r List.mem_cons_self) hstart) ?_ hsorted
    intro q hq
    exact hwithin q (List.mem_cons_of_mem _ hq)

end Cut.Valid

/-- The parts are the list, none of them is empty, their marks alternate, and a place
is marked exactly when a range covers it. -/
structure Partitions (text : List α) (ranges : List Range) (parts : List (MarkedPart α)) :
    Prop where
  joined : MarkedPart.join parts = text
  nonempty : ∀ p ∈ parts, p.text ≠ []
  alternate : parts.IsChain fun p q => p.mark ≠ q.mark
  marked : MarkedPart.allMarks parts =
    (List.range text.length).map fun i => ranges.any (Range.covers · i)

theorem partitions_cutAt {text : List α} {ranges : List Range}
    (hwithin : ∀ r ∈ ranges, r.Within text)
    (hsorted : ranges.Pairwise fun q r => q.start ≤ r.start) :
    Partitions text ranges (cutAt text ranges) := by
  have h := (Cut.Valid.start text).foldl hwithin (by simpa using hsorted)
  rw [List.nil_append] at h
  unfold cutAt Cut.finish
  generalize ranges.foldl (Cut.add text) ⟨[], 0⟩ = c at h
  have hchain : ∀ {parts : List (MarkedPart α)}, (parts.IsChain fun p q => p.mark ≠ q.mark) →
      parts.reverse.IsChain fun p q => p.mark ≠ q.mark := by
    intro parts hparts
    exact (List.isChain_reverse.mpr (hparts.imp fun _ _ => Ne.symm))
  split
  · rename_i hshown
    refine ⟨?_, ?_, hchain ?_, ?_⟩
    · rw [MarkedPart.join_reverse_cons, h.joined, List.take_append_drop]
    · intro p hp
      rw [List.mem_reverse, List.mem_cons] at hp
      obtain rfl | hp := hp
      · simpa using hshown
      · exact h.nonempty p hp
    · refine List.isChain_cons.mpr ⟨?_, h.alternate⟩
      intro p hp
      rw [h.last p hp]
      simp
    · rw [MarkedPart.allMarks_reverse_cons, h.marked, List.length_drop]
      rw [map_range_stretch hshown.le le_rfl]
      · simp
      · intro i hlow _
        rw [List.any_eq_false]
        intro r hr
        have hend := h.ends r hr
        simp only [Range.covers, Bool.and_eq_true, decide_eq_true_iff, not_and]
        omega
      · intro i hlow hhigh
        omega
  · rename_i hshown
    have hall : c.shown = text.length := le_antisymm h.bound (Nat.not_lt.mp hshown)
    refine ⟨?_, ?_, hchain h.alternate, ?_⟩
    · rw [h.joined, hall, List.take_length]
    · intro p hp
      exact h.nonempty p (List.mem_reverse.mp hp)
    · rw [h.marked, hall]

end Noted.Library
