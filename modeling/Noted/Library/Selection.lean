import Mathlib.Data.List.Find
import Noted.Library.Table

/-!
# A selection of the rows of a table

What the updates of a table do to the rows of a selection: an update commutes with the
selection when it moves no row into it or out of it.
-/

namespace Noted.Library.Table

variable {κ ρ : Type*} {key : ρ → κ} {t : Table key} {p q : ρ → Bool} {f g : ρ → ρ} {r : ρ}

@[simp] theorem filter_rows (t : Table key) (p : ρ → Bool) : (t.filter p).rows = t.rows.filter p :=
  rfl

theorem filter_congr (h : ∀ r ∈ t, p r = q r) : t.filter p = t.filter q :=
  Table.ext (List.filter_congr h)

theorem filter_filter (t : Table key) (p q : ρ → Bool) :
    (t.filter p).filter q = t.filter fun r => p r && q r := by
  apply Table.ext
  rw [filter_rows, filter_rows, filter_rows, List.filter_filter]
  exact List.filter_congr fun r _ => Bool.and_comm _ _

theorem filter_comm (t : Table key) (p q : ρ → Bool) :
    (t.filter p).filter q = (t.filter q).filter p := by
  rw [filter_filter, filter_filter]
  exact filter_congr fun r _ => Bool.and_comm _ _

theorem filter_eq_self (h : ∀ r ∈ t, p r = true) : t.filter p = t :=
  Table.ext (List.filter_eq_self.mpr h)

theorem filter_self (t : Table key) (p : ρ → Bool) : (t.filter p).filter p = t.filter p :=
  filter_eq_self fun _ hr => (mem_filter.mp hr).2

theorem filter_delete (t : Table key) (p q : ρ → Bool) :
    (t.delete q).filter p = (t.filter p).delete q := filter_comm _ _ _

theorem delete_congr (h : ∀ r ∈ t, p r = q r) : t.delete p = t.delete q :=
  filter_congr fun r hr => by rw [h r hr]

theorem delete_eq_self (h : ∀ r ∈ t, p r = false) : t.delete p = t :=
  filter_eq_self fun r hr => by rw [h r hr]; rfl

theorem find?_filter (h : ∀ r ∈ t, q r = true → p r = true) :
    (t.filter p).find? q = t.find? q := by
  rw [find?, find?, filter_rows, List.find?_filter]
  refine List.find?_congr fun r hr => ?_
  cases hq : q r with
  | false => simp
  | true => simp [h r hr hq]

/-- Rows that refer to selected rows of another table go with them: whether the deletion or
the selection comes first does not matter. -/
theorem filter_delete_refs {κ' ρ' : Type*} {key' : ρ' → κ'} [DecidableEq κ] (t : Table key)
    (u : Table key') (ref : ρ' → κ) (sel gone : ρ → Bool) :
    (u.delete fun x => t.rows.any fun r => gone r && key r == ref x).filter
        (fun x => (t.delete gone).rows.any fun r => key r == ref x && sel r) =
      (u.filter fun x => t.rows.any fun r => key r == ref x && sel r).delete
        fun x => (t.filter sel).rows.any fun r => gone r && key r == ref x := by
  unfold delete
  rw [filter_filter, filter_filter]
  refine filter_congr fun x _ => ?_
  rw [Bool.eq_iff_iff]
  simp only [Bool.and_eq_true, Bool.not_eq_true', List.any_eq_true, List.any_eq_false, filter_rows,
    List.mem_filter, beq_iff_eq, not_and]
  constructor
  · rintro ⟨hkept, r, ⟨hr, hstays⟩, hkey, hsel⟩
    exact ⟨⟨r, hr, hkey, hsel⟩, fun q hq => hkept q hq.1⟩
  · rintro ⟨⟨r, hr, hkey, hsel⟩, hkept⟩
    -- the row that is referred to is the only one of its key
    have hone : ∀ q ∈ t.rows, key q = ref x → q = r := fun q hq h =>
      eq_of_key hq hr (h.trans hkey.symm)
    have hstays : gone r = false := by
      rw [Bool.eq_false_iff]
      intro hgone
      exact hkept r ⟨hr, hsel⟩ hgone hkey
    refine ⟨?_, r, ⟨hr, hstays⟩, hkey, hsel⟩
    intro q hq hgone h
    rw [hone q hq h, hstays] at hgone
    cases hgone

section Modify

variable (hf : ∀ r, key (f r) = key r) (hg : ∀ r, key (g r) = key r)

theorem filter_modify (h : ∀ r ∈ t, p (f r) = p r) :
    (t.modify q f hf).filter p = (t.filter p).modify q f hf := by
  apply Table.ext
  rw [filter_rows]
  simp only [modify, filter_rows]
  rw [List.filter_map]
  congr 1
  refine List.filter_congr fun r hr => ?_
  simp only [Function.comp_apply]
  split
  · exact h r hr
  · rfl

theorem modify_modify_all (h : ∀ r ∈ t, q (g r) = q r) (hfg : ∀ r ∈ t, f (g r) = g (f r)) :
    (t.modify (fun _ => true) g hg).modify q f hf =
      (t.modify q f hf).modify (fun _ => true) g hg := by
  apply Table.ext
  simp only [modify, List.map_map, if_true]
  refine List.map_congr_left fun r hr => ?_
  simp only [Function.comp_apply, h r hr]
  split
  · exact hfg r hr
  · rfl

end Modify

section Put

variable [DecidableEq κ]

theorem insert?_eq_put (h : ∀ s ∈ t, key s ≠ key r) : t.insert? r = some (t.put r) := by
  have hk : key r ∉ t.rows.map key := by
    intro hmem
    obtain ⟨s, hs, hkey⟩ := List.mem_map.mp hmem
    exact h s hs hkey
  obtain ⟨u, hu⟩ := exists_insert? h
  rw [hu, Option.some_inj]
  apply Table.ext
  rw [(insert?_eq_some.mp hu).2, put]
  simp only [hk, if_false]

theorem filter_put_of (hr : p r = true) (h : ∀ s ∈ t, key s = key r → p s = true) :
    (t.put r).filter p = (t.filter p).put r := by
  have hmem : key r ∈ (t.rows.filter p).map key ↔ key r ∈ t.rows.map key := by
    simp only [List.mem_map, List.mem_filter]
    constructor
    · rintro ⟨s, ⟨hs, -⟩, hk⟩
      exact ⟨s, hs, hk⟩
    · rintro ⟨s, hs, hk⟩
      exact ⟨s, ⟨hs, h s hs hk⟩, hk⟩
  apply Table.ext
  simp only [put, filter_rows, hmem]
  split
  · rw [List.filter_map]
    congr 1
    refine List.filter_congr fun s hs => ?_
    simp only [Function.comp_apply]
    split
    · rename_i hk
      rw [hr, h s hs hk]
    · rfl
  · rw [List.filter_append, List.filter_singleton, hr, cond_true]

theorem filter_put_of_not (hr : p r = false) (h : ∀ s ∈ t, key s = key r → p s = false) :
    (t.put r).filter p = t.filter p := by
  apply Table.ext
  simp only [put, filter_rows]
  split
  · have hsame : (t.rows.filter (p ∘ fun s => if key s = key r then r else s)) = t.rows.filter p := by
      refine List.filter_congr fun s hs => ?_
      simp only [Function.comp_apply]
      split
      · rename_i hk
        rw [hr, h s hs hk]
      · rfl
    rw [List.filter_map, hsame]
    conv_rhs => rw [← List.map_id (t.rows.filter p)]
    refine List.map_congr_left fun s hs => ?_
    obtain ⟨hs, hps⟩ := List.mem_filter.mp hs
    have hk : key s ≠ key r := by
      intro hk
      rw [h s hs hk] at hps
      cases hps
    rw [if_neg hk, id]
  · rw [List.filter_append, List.filter_singleton, hr, cond_false, List.append_nil]

theorem modify_put (hf : ∀ r, key (f r) = key r) :
    (t.put r).modify (fun _ => true) f hf = (t.modify (fun _ => true) f hf).put (f r) := by
  have hkeys : (t.rows.map f).map key = t.rows.map key := by
    rw [List.map_map]
    exact List.map_congr_left fun s _ => hf s
  apply Table.ext
  simp only [put, modify, if_true, hf, hkeys]
  split
  · rw [List.map_map, List.map_map]
    refine List.map_congr_left fun s _ => ?_
    simp only [Function.comp_apply, hf]
    split <;> rfl
  · rw [List.map_append, List.map_singleton]

def putAll (t : Table key) (rows : List ρ) : Table key := rows.foldl put t

theorem filter_putAll {rows : List ρ} (hrows : ∀ r ∈ rows, p r = true)
    (hkey : ∀ r s, key r = key s → p r = p s) :
    (t.putAll rows).filter p = (t.filter p).putAll rows := by
  induction rows generalizing t with
  | nil => rfl
  | cons r rows ih =>
    have hr := hrows r List.mem_cons_self
    rw [putAll, List.foldl_cons, ← putAll, ih fun q hq => hrows q (List.mem_cons_of_mem r hq),
      filter_put_of hr fun q _ h => (hkey q r h).trans hr]
    rfl

theorem filter_putAll_of_not {rows : List ρ} (hrows : ∀ r ∈ rows, p r = false)
    (hkey : ∀ r s, key r = key s → p r = p s) : (t.putAll rows).filter p = t.filter p := by
  induction rows generalizing t with
  | nil => rfl
  | cons r rows ih =>
    have hr := hrows r List.mem_cons_self
    rw [putAll, List.foldl_cons, ← putAll, ih fun q hq => hrows q (List.mem_cons_of_mem r hq),
      filter_put_of_not hr fun q _ h => (hkey q r h).trans hr]

theorem mem_putAll {t : Table fun r : ρ => r} [DecidableEq ρ] {rows : List ρ} :
    r ∈ t.putAll rows ↔ r ∈ t ∨ r ∈ rows := by
  induction rows generalizing t with
  | nil => simp [putAll]
  | cons q rows ih =>
    rw [putAll, List.foldl_cons, ← putAll, ih, mem_put, List.mem_cons]
    by_cases h : r = q
    · simp [h]
    · simp [h]

end Put

end Noted.Library.Table
