import Noted.Library.Table

/-!
# Rows written and not committed

A writer holds at most one row that it has written and not committed, and other
writers wait for rows of that key, or rows that clash with it in a unique index.
Then the table stays free of clashes, and a commit changes a row only in the ways
its writer may.
-/

namespace Noted.Library

variable {ι κ ρ : Type*} {key : ρ → κ}

def ClashFree (clash : ρ → ρ → Prop) (t : Table key) : Prop :=
  ∀ r ∈ t, ∀ s ∈ t, key r ≠ key s → ¬clash r s

structure Writable (clash keeps : ρ → ρ → Prop) (t : Table key) (written : ι → Option ρ) (n : ι)
    (row : ρ) : Prop where
  others : ∀ m, m ≠ n → ∀ w, written m = some w → key w ≠ key row ∧ ¬clash w row
  rows : ∀ r ∈ t, key r ≠ key row → ¬clash r row
  keeps : ∀ r ∈ t, key r = key row → keeps r row

/-- Every written row is writable, so that any of them may be committed next. -/
structure Pending (clash keeps : ρ → ρ → Prop) (t : Table key) (written : ι → Option ρ) :
    Prop where
  free : ClashFree clash t
  writable : ∀ n row, written n = some row → Writable clash keeps t written n row

namespace Pending

variable {clash keeps : ρ → ρ → Prop} {t : Table key} {written written' : ι → Option ρ} {n : ι}
  {row : ρ}

theorem empty (hfree : ClashFree clash t) (h : ∀ n, written n = none) :
    Pending clash keeps t written where
  free := hfree
  writable n row hrow := by
    rw [h n] at hrow
    cases hrow

theorem release (h : Pending clash keeps t written) (hn : written' n = none)
    (hm : ∀ m, m ≠ n → written' m = written m) : Pending clash keeps t written' := by
  refine ⟨h.free, ?_⟩
  intro m row hrow
  have hmn : m ≠ n := by
    intro heq
    rw [heq, hn] at hrow
    cases hrow
  have hw := h.writable m row (by rw [← hm m hmn, hrow])
  refine ⟨?_, hw.rows, hw.keeps⟩
  intro k hk w hkw
  have hkn : k ≠ n := by
    intro heq
    rw [heq, hn] at hkw
    cases hkw
  exact hw.others k hk w (by rw [← hm k hkn, hkw])

theorem write (hsymm : ∀ r s, clash r s → clash s r) (h : Pending clash keeps t written)
    (hrow : Writable clash keeps t written n row) (hn : written' n = some row)
    (hm : ∀ m, m ≠ n → written' m = written m) : Pending clash keeps t written' := by
  refine ⟨h.free, ?_⟩
  intro m v hv
  by_cases hmn : m = n
  · subst hmn
    obtain rfl : row = v := Option.some.inj (hn.symm.trans hv)
    refine ⟨?_, hrow.rows, hrow.keeps⟩
    intro k hk w hkw
    exact hrow.others k hk w (by rw [← hm k hk, hkw])
  · rw [hm m hmn] at hv
    have hw := h.writable m v hv
    refine ⟨?_, hw.rows, hw.keeps⟩
    intro k hk w hkw
    by_cases hkn : k = n
    · subst hkn
      obtain rfl : row = w := Option.some.inj (hn.symm.trans hkw)
      have hclash := hrow.others m hmn v hv
      exact ⟨hclash.1.symm, fun hc => hclash.2 (hsymm _ _ hc)⟩
    · exact hw.others k hk w (by rw [← hm k hkn, hkw])

variable [DecidableEq κ]

theorem commit (hsymm : ∀ r s, clash r s → clash s r) (h : Pending clash keeps t written)
    (hrow : written n = some row) (hn : written' n = none)
    (hm : ∀ m, m ≠ n → written' m = written m) : Pending clash keeps (t.put row) written' := by
  have hw := h.writable n row hrow
  have hfree : ClashFree clash (t.put row) := by
    intro r hr s hs hkey
    obtain hrow' | ⟨hrt, hrk⟩ := Table.mem_put.mp hr
    · subst hrow'
      obtain hrow' | ⟨hst, hsk⟩ := Table.mem_put.mp hs
      · exact absurd (congrArg key hrow'.symm) hkey
      · intro hclash
        exact hw.rows s hst hsk (hsymm _ _ hclash)
    · obtain hrow' | ⟨hst, -⟩ := Table.mem_put.mp hs
      · rw [hrow']
        exact hw.rows r hrt hrk
      · exact h.free r hrt s hst hkey
  refine ⟨hfree, ?_⟩
  intro m v hv
  have hmn : m ≠ n := by
    intro heq
    rw [heq, hn] at hv
    cases hv
  rw [hm m hmn] at hv
  have hv' := h.writable m v hv
  -- the committed row was a row of another writer for this one
  have hpair := hv'.others n hmn.symm row hrow
  refine ⟨?_, ?_, ?_⟩
  · intro k hk w hkw
    have hkn : k ≠ n := by
      intro heq
      rw [heq, hn] at hkw
      cases hkw
    exact hv'.others k hk w (by rw [← hm k hkn, hkw])
  · intro r hr hrk
    obtain rfl | ⟨hr, -⟩ := Table.mem_put.mp hr
    · exact hpair.2
    · exact hv'.rows r hr hrk
  · intro r hr hrk
    obtain rfl | ⟨hr, -⟩ := Table.mem_put.mp hr
    · exact absurd hrk hpair.1
    · exact hv'.keeps r hr hrk

theorem kept (hrefl : ∀ r, keeps r r) (h : Pending clash keeps t written)
    (hrow : written n = some row) {r : ρ} (hr : r ∈ t) :
    ∃ s ∈ t.put row, key s = key r ∧ keeps r s := by
  by_cases hk : key r = key row
  · exact ⟨row, Table.mem_put.mpr (Or.inl rfl), hk.symm, (h.writable n row hrow).keeps r hr hk⟩
  · exact ⟨r, Table.mem_put.mpr (Or.inr ⟨hr, hk⟩), rfl, hrefl r⟩

end Pending

end Noted.Library
