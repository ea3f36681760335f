import Mathlib.Algebra.Order.BigOperators.Group.Finset
import Mathlib.Data.List.Nodup

/-!
# A queue that is worked in batches, oldest first

A round takes the oldest rows of a queue; which of those of one time come first is open,
in every round anew. Some of the rows taken are done with and leave the queue; the others
stay, and take part of every later batch. What rounds leave of each time at the worst,
whichever rows they take first, is a recursion on numbers alone (`left`). A row is sure
to have been taken once what is left up to its time fits into a batch.
-/

namespace Noted.Library

open Finset (range)

variable {α : Type*} {m : Nat}

/-- How many rows of each time a number of rounds leave at the worst: each round takes
what has room in the batch behind the older rows, the staying ones of it first. -/
def left (m : Nat) (size : Nat → Nat) (staying : Nat → Nat → Nat) : Nat → Nat → Nat
  | 0, t => size t
  | i + 1, t =>
    let rows := left m size staying i
    rows t - (min (rows t) (m - ∑ s ∈ range t, rows s) - staying i t)

section Numbers

variable {size : Nat → Nat} {staying rows : Nat → Nat → Nat} {last : Nat}

theorem leave_mono {x y older older' s : Nat} (hxy : x ≤ y) (holder : older ≤ older') (hs : s ≤ x) :
    x - (min x (m - older) - s) ≤ y - (min y (m - older') - s) := by
  omega

theorem le_left (hfirst : ∀ t ≤ last, rows 0 t = size t)
    (hstaying : ∀ i, ∀ t ≤ last, staying i t ≤ rows i t)
    (hnext : ∀ i, ∀ t ≤ last, rows (i + 1) t ≤
      rows i t - (min (rows i t) (m - ∑ s ∈ range t, rows i s) - staying i t)) :
    ∀ i, ∀ t ≤ last, rows i t ≤ left m size staying i t := by
  intro i
  induction i with
  | zero =>
    intro t ht
    exact (hfirst t ht).le
  | succ i ih =>
    intro t ht
    have holder : ∑ s ∈ range t, rows i s ≤ ∑ s ∈ range t, left m size staying i s := by
      apply Finset.sum_le_sum
      intro s hs
      exact ih s ((Finset.mem_range.mp hs).le.trans ht)
    exact (hnext i t ht).trans (leave_mono (ih t ht) holder (hstaying i t ht))

theorem left_congr {size' : Nat → Nat} {staying' : Nat → Nat → Nat}
    (hsize : ∀ t ≤ last, size t = size' t)
    (hstaying : ∀ i, ∀ t ≤ last, staying i t = staying' i t) :
    ∀ i, ∀ t ≤ last, left m size staying i t = left m size' staying' i t := by
  intro i
  induction i with
  | zero => exact hsize
  | succ i ih =>
    intro t ht
    have holder : ∑ s ∈ range t, left m size staying i s = ∑ s ∈ range t, left m size' staying' i s :=
      Finset.sum_congr rfl fun s hs => ih s ((Finset.mem_range.mp hs).le.trans ht)
    rw [left, left, ih t ht, holder, hstaying i t ht]

theorem sum_left_free (m : Nat) (size : Nat → Nat) (i t : Nat) :
    ∑ s ∈ range t, left m size (fun _ _ => 0) i s = ∑ s ∈ range t, size s - m * i := by
  have hround : ∀ i t, ∑ s ∈ range t, left m size (fun _ _ => 0) (i + 1) s =
      ∑ s ∈ range t, left m size (fun _ _ => 0) i s - m := by
    intro i t
    induction t with
    | zero => simp
    | succ t ih =>
      rw [Finset.sum_range_succ, Finset.sum_range_succ, ih, left]
      omega
  induction i with
  | zero => simp [left]
  | succ i ih =>
    rw [hround, ih, Nat.mul_succ]
    omega

end Numbers

section Order

variable {time : α → Nat} {order queue : List α} {a : α}

theorem countP_le_succ (time : α → Nat) (queue : List α) (t : Nat) :
    queue.countP (time · < t + 1) = queue.countP (time · < t) + queue.countP (time · = t) := by
  induction queue with
  | nil => rfl
  | cons b queue ih =>
    simp only [List.countP_cons, decide_eq_true_eq, ih]
    split_ifs <;> omega

theorem countP_lt_eq_sum (time : α → Nat) (queue : List α) (t : Nat) :
    queue.countP (time · < t) = ∑ s ∈ range t, queue.countP (time · = s) := by
  induction t with
  | zero => simp
  | succ t ih => rw [Finset.sum_range_succ, ← ih, countP_le_succ]

theorem filter_of_sorted (h : order.Pairwise fun a b => time a ≤ time b) (t : Nat) :
    order.filter (time · < t) ++ (order.filter (time · = t) ++ order.filter (t < time ·)) =
      order := by
  induction order with
  | nil => rfl
  | cons a order ih =>
    obtain ⟨hfirst, hrest⟩ := List.pairwise_cons.mp h
    obtain hlt | heq | hgt := Nat.lt_trichotomy (time a) t
    · have hne : ¬time a = t := by omega
      have hnot : ¬t < time a := by omega
      simp [hlt, hne, hnot, ih hrest]
    · have hnone : order.filter (time · < t) = [] := by
        apply List.filter_eq_nil_iff.mpr
        intro b hb
        have hle := hfirst b hb
        simp only [decide_eq_true_eq]
        omega
      have hfilter := ih hrest
      rw [hnone, List.nil_append] at hfilter
      have hlt : ¬time a < t := by omega
      have hnot : ¬t < time a := by omega
      simp [heq, hnone, hfilter]
    · have hlater : order.filter (t < time ·) = order := by
        apply List.filter_eq_self.mpr
        intro b hb
        have hle := hfirst b hb
        simp only [decide_eq_true_eq]
        omega
      have hfilter := ih hrest
      rw [hlater, ← List.append_assoc] at hfilter
      have hnone := List.append_eq_nil_iff.mp (List.append_left_eq_self.mp hfilter)
      have hlt : ¬time a < t := by omega
      have hne : ¬time a = t := by omega
      simp [hgt, hlt, hne, hnone, hlater]

/-- A batch holds of each time the first rows in its order, as many as the older ones leave
room for. -/
theorem mem_take_iff (h : order.Pairwise fun a b => time a ≤ time b) (m : Nat) (a : α) :
    a ∈ order.take m ↔
      a ∈ (order.filter (time · = time a)).take (m - order.countP (time · < time a)) := by
  have hnot : ∀ n, a ∉ (order.filter (time · < time a)).take n ∧
      a ∉ (order.filter (time a < time ·)).take n := by
    intro n
    constructor
    · intro hmem
      have hlt := List.of_mem_filter (List.mem_of_mem_take hmem)
      simp at hlt
    · intro hmem
      have hlt := List.of_mem_filter (List.mem_of_mem_take hmem)
      simp at hlt
  conv_lhs => rw [← filter_of_sorted h (time a), List.take_append, List.take_append]
  rw [List.mem_append, List.mem_append, ← List.countP_eq_length_filter]
  constructor
  · rintro (hmem | hmem | hmem)
    · exact absurd hmem (hnot _).1
    · exact hmem
    · exact absurd hmem (hnot _).2
  · exact fun hmem => Or.inr (Or.inl hmem)

theorem mem_take_of_fits (h : order.Pairwise fun a b => time a ≤ time b) (ha : a ∈ order)
    (hfits : order.countP (time · < time a + 1) ≤ m) : a ∈ order.take m := by
  rw [countP_le_succ] at hfits
  rw [mem_take_iff h, List.take_of_length_le]
  · exact List.mem_filter.mpr ⟨ha, decide_eq_true rfl⟩
  · rw [← List.countP_eq_length_filter]
    omega

theorem fits_of_mem_take (hmem : a ∈ order.take m)
    (hlast : ∀ u v, order = u ++ a :: v → ∀ b ∈ v, time a < time b) :
    order.countP (time · < time a + 1) ≤ m := by
  obtain ⟨u, v, htake⟩ := List.append_of_mem hmem
  have horder : order = u ++ a :: (v ++ order.drop m) := by
    conv_lhs => rw [← List.take_append_drop m order, htake]
    simp
  have hbehind : (v ++ order.drop m).countP (time · < time a + 1) = 0 := by
    apply List.countP_eq_zero.mpr
    intro b hb
    have hlater := hlast u _ horder b hb
    simp only [decide_eq_true_eq]
    omega
  have hlength : u.length + 1 ≤ m := by
    have hlong := congrArg List.length htake
    rw [List.length_take, List.length_append, List.length_cons] at hlong
    omega
  have hahead : u.countP (time · < time a + 1) ≤ u.length := List.countP_le_length
  rw [horder, List.countP_append, List.countP_cons_of_pos (by simp), hbehind]
  omega

theorem countP_take_of_ahead {stays : α → Bool} {rows : List α}
    (h : rows.Pairwise fun a b => stays b = true → stays a = true) (n : Nat) :
    (rows.take n).countP stays = min n (rows.countP stays) := by
  induction rows generalizing n with
  | nil => simp
  | cons a rows ih =>
    obtain ⟨hfirst, hrest⟩ := List.pairwise_cons.mp h
    cases n with
    | zero => simp
    | succ n =>
      rw [List.take_succ_cons]
      by_cases hstays : stays a = true
      · rw [List.countP_cons_of_pos hstays, List.countP_cons_of_pos hstays, ih hrest]
        omega
      · have hnone : rows.countP stays = 0 :=
          List.countP_eq_zero.mpr fun b hb hb' => hstays (hfirst b hb hb')
        rw [List.countP_cons_of_neg hstays, List.countP_cons_of_neg hstays, ih hrest, hnone]
        omega

end Order

section Rounds

variable [DecidableEq α] {time : α → Nat} {stays : α → Bool} {order queue : List α} {a : α}

/-- One round: the rows outside the batch, and those of the batch that stay. -/
def workBatch (m : Nat) (stays : α → Bool) (order queue : List α) : List α :=
  queue.filter fun a => a ∉ order.take m || stays a

theorem mem_workBatch : a ∈ workBatch m stays order queue ↔
    a ∈ queue ∧ (a ∉ order.take m ∨ stays a = true) := by
  rw [workBatch, List.mem_filter, Bool.or_eq_true, decide_eq_true_iff]

theorem length_filter_take {rows : List α} (hnodup : rows.Nodup) (n : Nat) :
    (rows.filter fun a => a ∉ rows.take n || stays a).length =
      (rows.take n).countP stays + (rows.length - n) := by
  have hapart : ∀ a ∈ rows.drop n, a ∉ rows.take n := by
    intro a hdrop htake
    rw [← List.take_append_drop n rows] at hnodup
    exact (List.nodup_append.mp hnodup).2.2 a htake a hdrop rfl
  have htaken : ((rows.take n).filter fun a => a ∉ rows.take n || stays a) =
      (rows.take n).filter stays := by
    apply List.filter_congr
    intro a ha
    simp [ha]
  have hbehind : ((rows.drop n).filter fun a => a ∉ rows.take n || stays a) = rows.drop n := by
    apply List.filter_eq_self.mpr
    intro a ha
    simp [hapart a ha]
  conv_lhs => rw [← List.take_append_drop n rows, List.filter_append]
  rw [List.take_append_drop, htaken, hbehind, List.length_append, List.length_drop,
    List.countP_eq_length_filter]

theorem countP_workBatch (h : order.Pairwise fun a b => time a ≤ time b)
    (hperm : order.Perm queue) (hnodup : queue.Nodup) (t : Nat) :
    (workBatch m stays order queue).countP (time · = t) =
      ((order.filter (time · = t)).take (m - queue.countP (time · < t))).countP stays +
        (queue.countP (time · = t) - (m - queue.countP (time · < t))) := by
  have holder : order.countP (time · < t) = queue.countP (time · < t) := hperm.countP_eq _
  have hsize : (order.filter (time · = t)).length = queue.countP (time · = t) := by
    rw [← List.countP_eq_length_filter, hperm.countP_eq]
  have hrows : ((order.filter fun a => a ∉ order.take m || stays a).filter (time · = t)) =
      (order.filter (time · = t)).filter fun a =>
        a ∉ (order.filter (time · = t)).take (m - queue.countP (time · < t)) || stays a := by
    rw [List.filter_comm]
    apply List.filter_congr
    intro a ha
    have htime : time a = t := of_decide_eq_true (List.mem_filter.mp ha).2
    have hmem := mem_take_iff h m a
    rw [htime, holder] at hmem
    simp only [hmem]
  have hround : (workBatch m stays order queue).countP (time · = t) =
      (order.filter fun a => a ∉ order.take m || stays a).countP (time · = t) :=
    (hperm.symm.filter _).countP_eq _
  rw [hround, List.countP_eq_length_filter, hrows,
    length_filter_take ((hperm.nodup_iff.mpr hnodup).filter _), hsize]

theorem countP_workBatch_le (h : order.Pairwise fun a b => time a ≤ time b)
    (hperm : order.Perm queue) (hnodup : queue.Nodup) (t : Nat) :
    (workBatch m stays order queue).countP (time · = t) ≤
      queue.countP (time · = t) - (min (queue.countP (time · = t)) (m - queue.countP (time · < t)) -
        queue.countP fun a => stays a && time a = t) := by
  rw [countP_workBatch h hperm hnodup]
  generalize hroom : m - queue.countP (time · < t) = room
  have htaken : ((order.filter (time · = t)).take room).countP stays ≤
      min room (queue.countP (time · = t)) := by
    rw [← hperm.countP_eq, List.countP_eq_length_filter (l := order), ← List.length_take]
    exact List.countP_le_length
  have hstaying : ((order.filter (time · = t)).take room).countP stays ≤
      queue.countP fun a => stays a && time a = t := by
    rw [← hperm.countP_eq, ← List.countP_filter]
    exact (List.take_sublist ..).countP_le
  omega

theorem countP_workBatch_of_ahead (h : order.Pairwise fun a b => time a ≤ time b)
    (hahead : order.Pairwise fun a b => time a = time b → stays b = true → stays a = true)
    (hperm : order.Perm queue) (hnodup : queue.Nodup) (t : Nat) :
    (workBatch m stays order queue).countP (time · = t) =
      queue.countP (time · = t) - (min (queue.countP (time · = t)) (m - queue.countP (time · < t)) -
        queue.countP fun a => stays a && time a = t) := by
  have hofTime : (order.filter (time · = t)).Pairwise
      fun a b => stays b = true → stays a = true := by
    refine List.Pairwise.imp_of_mem ?_ (hahead.filter _)
    intro a b ha hb hab
    have hta : time a = t := of_decide_eq_true (List.mem_filter.mp ha).2
    have htb : time b = t := of_decide_eq_true (List.mem_filter.mp hb).2
    exact hab (hta.trans htb.symm)
  have hstaying : (queue.countP fun a => stays a && time a = t) ≤ queue.countP (time · = t) :=
    List.countP_mono_left fun a _ ha => (Bool.and_eq_true_iff.mp ha).2
  rw [countP_workBatch h hperm hnodup, countP_take_of_ahead hofTime, List.countP_filter,
    hperm.countP_eq]
  omega

end Rounds

section Run

variable [DecidableEq α]

/-- A queue before each of its rounds, with the order in which it is read then. Rows that
come meanwhile are later than `last`, and a row that has stopped staying does not stay
again. -/
structure Worked (m : Nat) (time : α → Nat) (last : Nat) (stays : Nat → α → Bool)
    (queue order : Nat → List α) : Prop where
  nodup : ∀ i, (queue i).Nodup
  perm : ∀ i, (order i).Perm (queue i)
  sorted : ∀ i, (order i).Pairwise fun a b => time a ≤ time b
  next : ∀ i, ∃ later, queue (i + 1) = workBatch m (stays i) (order i) (queue i) ++ later ∧
    ∀ a ∈ later, last < time a
  stops : ∀ i a, stays (i + 1) a = true → stays i a = true

def size (time : α → Nat) (queue : List α) (t : Nat) : Nat := queue.countP (time · = t)

def staying (time : α → Nat) (stays : Nat → α → Bool) (queue : List α) (i t : Nat) : Nat :=
  queue.countP fun a => stays i a && time a = t

namespace Worked

variable {time : α → Nat} {last : Nat} {stays : Nat → α → Bool} {queue order : Nat → List α}
  {a : α}

theorem stays_of_le (h : Worked m time last stays queue order) {i j : Nat} (hij : i ≤ j)
    (ha : stays j a = true) : stays i a = true := by
  induction hij with
  | refl => exact ha
  | step _ ih => exact ih (h.stops _ _ ha)

theorem countP_next (h : Worked m time last stays queue order) {i : Nat} {p : α → Bool}
    (hp : ∀ a, p a = true → time a ≤ last ∧ stays i a = true) :
    (queue (i + 1)).countP p = (queue i).countP p := by
  obtain ⟨later, hnext, hlater⟩ := h.next i
  have hnone : later.countP p = 0 := by
    apply List.countP_eq_zero.mpr
    intro a ha hpa
    exact absurd (hp a hpa).1 (Nat.not_le.mpr (hlater a ha))
  rw [hnext, List.countP_append, hnone, workBatch, List.countP_filter]
  apply List.countP_congr
  intro a _
  simp only [Bool.and_eq_true, Bool.or_eq_true, and_iff_left_iff_imp]
  exact fun hpa => Or.inr (hp a hpa).2

theorem countP_staying (h : Worked m time last stays queue order) {t : Nat} (ht : t ≤ last)
    (i : Nat) : ∀ j ≤ i, (queue j).countP (fun a => stays i a && time a = t) =
      staying time stays (queue 0) i t := by
  intro j
  induction j with
  | zero => exact fun _ => rfl
  | succ j ih =>
    intro hj
    rw [h.countP_next, ih (Nat.le_of_succ_le hj)]
    intro a ha
    obtain ⟨hstays, htime⟩ := Bool.and_eq_true_iff.mp ha
    exact ⟨(of_decide_eq_true htime).trans_le ht, h.stays_of_le (Nat.le_of_succ_le hj) hstays⟩

theorem countP_next_time (h : Worked m time last stays queue order) {t : Nat} (ht : t ≤ last)
    (i : Nat) : size time (queue (i + 1)) t =
      size time (workBatch m (stays i) (order i) (queue i)) t := by
  obtain ⟨later, hnext, hlater⟩ := h.next i
  have hnone : later.countP (time · = t) = 0 := by
    apply List.countP_eq_zero.mpr
    intro a ha htime
    have hgt := hlater a ha
    rw [of_decide_eq_true htime] at hgt
    omega
  rw [size, hnext, List.countP_append, hnone]
  rfl

theorem staying_le (h : Worked m time last stays queue order) {t : Nat} (ht : t ≤ last) (i : Nat) :
    staying time stays (queue 0) i t ≤ size time (queue i) t := by
  rw [← h.countP_staying ht i i le_rfl]
  exact List.countP_mono_left fun a _ ha => (Bool.and_eq_true_iff.mp ha).2

theorem round_le (h : Worked m time last stays queue order) (i t : Nat) :
    (workBatch m (stays i) (order i) (queue i)).countP (time · = t) ≤
      (queue i).countP (time · = t) -
        (min ((queue i).countP (time · = t)) (m - (queue i).countP (time · < t)) -
          (queue i).countP fun a => stays i a && time a = t) :=
  countP_workBatch_le (h.sorted i) (h.perm i) (h.nodup i) t

/-- No order leaves more rows of a time than the worst. -/
theorem size_le_left (h : Worked m time last stays queue order) (i : Nat) {t : Nat}
    (ht : t ≤ last) : size time (queue i) t ≤
      left m (size time (queue 0)) (staying time stays (queue 0)) i t := by
  have hnext : ∀ i, ∀ t ≤ last, size time (queue (i + 1)) t ≤ size time (queue i) t -
      (min (size time (queue i) t) (m - ∑ s ∈ range t, size time (queue i) s) -
        staying time stays (queue 0) i t) := by
    intro i t ht
    have hround := h.round_le i t
    rw [h.countP_staying ht i i le_rfl, countP_lt_eq_sum] at hround
    exact (h.countP_next_time ht i).trans_le hround
  exact le_left (fun t _ => rfl) (fun i t ht => h.staying_le ht i) hnext i t ht

theorem not_mem_next (h : Worked m time last stays queue order) {i j : Nat} (hij : i ≤ j)
    (ha : time a ≤ last) (hgone : a ∉ queue i) : a ∉ queue j := by
  induction hij with
  | refl => exact hgone
  | @step j _ ih =>
    obtain ⟨later, hnext, hlater⟩ := h.next j
    rw [hnext, List.mem_append, not_or]
    refine ⟨fun hmem => ih (mem_workBatch.mp hmem).1, fun hmem => ?_⟩
    exact absurd (hlater a hmem) (Nat.not_lt.mpr ha)

/-- A row that never stays is done with once what is left up to its time fits into a batch. -/
theorem not_mem_of_fits (h : Worked m time last stays queue order) (ha : time a ≤ last)
    (hfree : ∀ i, stays i a = false) {i : Nat}
    (hfits : ∑ t ∈ range (time a + 1),
      left m (size time (queue 0)) (staying time stays (queue 0)) i t ≤ m) :
    a ∉ queue (i + 1) := by
  intro hmem
  obtain ⟨later, hnext, hlater⟩ := h.next i
  rw [hnext] at hmem
  obtain hround | hlate := List.mem_append.mp hmem
  · obtain ⟨hqueue, houtside | hstays⟩ := mem_workBatch.mp hround
    · apply houtside
      apply mem_take_of_fits (h.sorted i) ((h.perm i).mem_iff.mpr hqueue)
      rw [(h.perm i).countP_eq, countP_lt_eq_sum]
      refine le_trans (Finset.sum_le_sum fun t ht => ?_) hfits
      exact h.size_le_left i ((Nat.lt_succ_iff.mp (Finset.mem_range.mp ht)).trans ha)
    · rw [hfree i] at hstays
      cases hstays
  · exact absurd (hlater a hlate) (Nat.not_lt.mpr ha)

/-- Where the rows that stay come first among those of their time, and a row that never
stays last, that row is left for as long as it has no room in the worst case. -/
theorem mem_of_worst (h : Worked m time last stays queue order) (ha : time a ≤ last)
    (hahead : ∀ i, (order i).Pairwise fun b c =>
      time b = time c → stays i c = true → stays i b = true)
    (hlast : ∀ i u v, order i = u ++ a :: v → ∀ b ∈ v, time a < time b) (hmem : a ∈ queue 0)
    {n : Nat} (hfull : ∀ i < n, m < ∑ t ∈ range (time a + 1),
      left m (size time (queue 0)) (staying time stays (queue 0)) i t) :
    a ∈ queue n := by
  suffices h' : ∀ i ≤ n, a ∈ queue i ∧ ∀ t ≤ last, size time (queue i) t =
      left m (size time (queue 0)) (staying time stays (queue 0)) i t from (h' n le_rfl).1
  intro i
  induction i with
  | zero => exact fun _ => ⟨hmem, fun t _ => rfl⟩
  | succ i ih =>
    intro hi
    obtain ⟨hqueue, hsize⟩ := ih (Nat.le_of_succ_le hi)
    have holder : ∀ t ≤ last + 1, (queue i).countP (time · < t) = ∑ s ∈ range t,
        left m (size time (queue 0)) (staying time stays (queue 0)) i s := by
      intro t ht
      rw [countP_lt_eq_sum]
      exact Finset.sum_congr rfl fun s hs =>
        hsize s (Nat.lt_succ_iff.mp ((Finset.mem_range.mp hs).trans_le ht))
    constructor
    · obtain ⟨later, hnext, -⟩ := h.next i
      rw [hnext]
      apply List.mem_append_left
      refine mem_workBatch.mpr ⟨hqueue, Or.inl fun htake => ?_⟩
      have hfits := fits_of_mem_take htake (hlast i)
      rw [(h.perm i).countP_eq, holder _ (Nat.succ_le_succ ha)] at hfits
      exact absurd hfits (Nat.not_le.mpr (hfull i (Nat.lt_of_succ_le hi)))
    · intro t ht
      have hround := countP_workBatch_of_ahead (m := m) (h.sorted i) (hahead i) (h.perm i)
        (h.nodup i) t
      rw [h.countP_staying ht i i le_rfl, holder t (Nat.le_succ_of_le ht)] at hround
      rw [h.countP_next_time ht, left, ← hsize t ht]
      exact hround

theorem mem_of_stuck (h : Worked m time last stays queue order) {p : α → Bool} {t : Nat}
    (ht : t ≤ last) (hp : ∀ b, p b = true → time b < t ∧ ∀ i, stays i b = true)
    (hstuck : m ≤ (queue 0).countP p) (ha : t ≤ time a) (hmem : a ∈ queue 0) (i : Nat) :
    a ∈ queue i := by
  have hcount : ∀ i, (queue i).countP p = (queue 0).countP p := by
    intro i
    induction i with
    | zero => rfl
    | succ i ih =>
      rw [h.countP_next, ih]
      exact fun b hb => ⟨(hp b hb).1.le.trans ht, (hp b hb).2 i⟩
  induction i with
  | zero => exact hmem
  | succ i ih =>
    obtain ⟨later, hnext, -⟩ := h.next i
    rw [hnext]
    apply List.mem_append_left
    refine mem_workBatch.mpr ⟨ih, Or.inl fun htake => ?_⟩
    have holder : (queue i).countP p ≤ (order i).countP (time · < time a) := by
      rw [(h.perm i).countP_eq]
      exact List.countP_mono_left fun b _ hb =>
        decide_eq_true ((hp b hb).1.trans_le ha)
    have hroom : m - (order i).countP (time · < time a) = 0 := by
      rw [hcount i] at holder
      omega
    rw [mem_take_iff (h.sorted i), hroom, List.take_zero] at htake
    cases htake

end Worked

end Run

end Noted.Library
