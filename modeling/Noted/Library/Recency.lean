import Mathlib.Data.Finset.Card

/-!
# The order of last uses

A cache that evicts what was used longest ago keeps its keys in the order of their last
uses. The uses are a list, the oldest first. What a cache has evicted has been displaced:
as many other keys as fit in it have been used since.
-/

namespace Noted.Library.Recency

variable {κ : Type*} {uses l : List κ} {a b k : κ} {count : Nat}

def UsedSince (uses : List κ) (a b : κ) : Prop := ∃ v, v <:+ uses ∧ b ∈ v ∧ a ∉ v

theorem UsedSince.ne (h : UsedSince uses a b) : a ≠ b := by
  obtain ⟨v, -, hb, ha⟩ := h
  intro heq
  exact ha (heq ▸ hb)

theorem UsedSince.snoc (h : UsedSince uses a b) (hne : a ≠ k) : UsedSince (uses ++ [k]) a b := by
  obtain ⟨v, hv, hb, ha⟩ := h
  refine ⟨v ++ [k], List.suffix_append_self_iff.mpr hv, List.mem_append_left _ hb, ?_⟩
  simp [ha, hne]

theorem usedSince_last (hne : a ≠ k) : UsedSince (uses ++ [k]) a k :=
  ⟨[k], List.suffix_append uses [k], List.mem_singleton_self k, by simpa using hne⟩

def InOrder (uses l : List κ) : Prop := l.Pairwise (UsedSince uses)

theorem inOrder_nil : InOrder uses [] := List.Pairwise.nil

theorem InOrder.nodup (h : InOrder uses l) : l.Nodup := h.imp UsedSince.ne

theorem InOrder.sublist {m : List κ} (h : InOrder uses l) (hm : m.Sublist l) : InOrder uses m :=
  List.Pairwise.sublist hm h

theorem InOrder.snoc (h : InOrder uses l) (hk : k ∉ l) : InOrder (uses ++ [k]) (l ++ [k]) := by
  have hne : ∀ a ∈ l, a ≠ k := fun a ha heq => hk (heq ▸ ha)
  refine List.pairwise_append.mpr ⟨?_, List.pairwise_singleton _ k, ?_⟩
  · exact List.Pairwise.imp_of_mem (fun ha _ hab => hab.snoc (hne _ ha)) h
  · intro a ha b hb
    obtain rfl := List.mem_singleton.mp hb
    exact usedSince_last (hne a ha)

/-- At least so many other keys have been used since a key was last used. -/
def Displaced (count : Nat) (uses : List κ) (k : κ) : Prop :=
  ∃ others : Finset κ, count ≤ others.card ∧ ∀ b ∈ others, UsedSince uses k b

theorem Displaced.snoc (h : Displaced count uses a) (hne : a ≠ k) :
    Displaced count (uses ++ [k]) a := by
  obtain ⟨others, hcard, hothers⟩ := h
  exact ⟨others, hcard, fun b hb => (hothers b hb).snoc hne⟩

theorem InOrder.displaced [DecidableEq κ] {m : List κ} (h : InOrder uses (l ++ m)) (ha : a ∈ l)
    (hcount : count ≤ m.length) : Displaced count uses a := by
  obtain ⟨-, hm, hlater⟩ := List.pairwise_append.mp h
  refine ⟨m.toFinset, ?_, fun b hb => hlater a ha b (List.mem_toFinset.mp hb)⟩
  rwa [List.toFinset_card_of_nodup (InOrder.nodup hm)]

end Noted.Library.Recency
