import Mathlib.Data.List.Nodup
import Mathlib.Data.List.Perm.Subperm

/-!
# Tables with a primary key

A table is a list of rows without two rows of one key, which every operation
keeps: an insert of a key that is there fails, and an update cannot change a
key. Rows keep the order of their inserts.
-/

namespace Noted.Library

variable {κ ρ : Type*}

structure Table (key : ρ → κ) where
  rows : List ρ
  nodup : (rows.map key).Nodup

namespace Table

variable {key : ρ → κ}

instance : Membership ρ (Table key) := ⟨fun t r => r ∈ t.rows⟩

instance : EmptyCollection (Table key) := ⟨⟨[], List.nodup_nil⟩⟩

theorem mem_rows {t : Table key} {r : ρ} : r ∈ t.rows ↔ r ∈ t := Iff.rfl

@[ext] theorem ext {t u : Table key} (h : t.rows = u.rows) : t = u := by
  cases t
  cases u
  simp_all

@[simp] theorem not_mem_empty (r : ρ) : r ∉ (∅ : Table key) := List.not_mem_nil

theorem eq_of_key {t : Table key} {r s : ρ} (hr : r ∈ t) (hs : s ∈ t) (h : key r = key s) :
    r = s :=
  List.inj_on_of_nodup_map t.nodup hr hs h

def find? (t : Table key) (p : ρ → Bool) : Option ρ := t.rows.find? p

theorem find?_eq_none {t : Table key} {p : ρ → Bool} :
    t.find? p = none ↔ ∀ r ∈ t, p r = false := by
  simp [find?, mem_rows]

theorem find?_eq_some {t : Table key} {p : ρ → Bool} {k : κ} (hp : ∀ r, p r = true → key r = k)
    {r : ρ} : t.find? p = some r ↔ r ∈ t ∧ p r = true := by
  constructor
  · intro h
    exact ⟨List.mem_of_find?_eq_some h, List.find?_some h⟩
  · intro h
    obtain ⟨hr, hpr⟩ := h
    cases hf : t.find? p with
    | none =>
      have hnone := find?_eq_none.mp hf r hr
      simp [hpr] at hnone
    | some s =>
      have hs : s ∈ t := List.mem_of_find?_eq_some hf
      have hps : p s = true := List.find?_some hf
      rw [eq_of_key hs hr ((hp s hps).trans (hp r hpr).symm)]

theorem mem_of_find? {t : Table key} {p : ρ → Bool} {r : ρ} (h : t.find? p = some r) : r ∈ t :=
  List.mem_of_find?_eq_some h

theorem prop_of_find? {t : Table key} {p : ρ → Bool} {r : ρ} (h : t.find? p = some r) :
    p r = true :=
  List.find?_some h

section Insert

variable [DecidableEq κ]

def insert? (t : Table key) (r : ρ) : Option (Table key) :=
  if h : key r ∈ t.rows.map key then none
  else some ⟨t.rows ++ [r], by
    rw [List.map_append]
    refine List.nodup_append.mpr ⟨t.nodup, by simp, ?_⟩
    intro k hk k' hk'
    obtain rfl : k' = key r := by simpa using hk'
    rintro rfl
    exact h hk⟩

theorem insert?_eq_some {t u : Table key} {r : ρ} :
    t.insert? r = some u ↔ (∀ s ∈ t, key s ≠ key r) ∧ u.rows = t.rows ++ [r] := by
  unfold insert?
  split
  · rename_i h
    obtain ⟨s, hs, hk⟩ := List.mem_map.mp h
    refine iff_of_false (by simp) ?_
    intro hall
    exact hall.1 s hs hk
  · rename_i h
    constructor
    · intro heq
      obtain rfl := Option.some.inj heq
      refine ⟨fun s hs hk => h ?_, rfl⟩
      exact List.mem_map.mpr ⟨s, hs, hk⟩
    · intro hall
      rw [Option.some_inj]
      exact Table.ext hall.2.symm

theorem insert?_eq_none {t : Table key} {r : ρ} :
    t.insert? r = none ↔ ∃ s ∈ t, key s = key r := by
  rw [← not_iff_not, ← ne_eq, Option.ne_none_iff_exists']
  simp only [insert?_eq_some, not_exists, not_and]
  constructor
  · intro h s hs
    obtain ⟨u, hu, -⟩ := h
    exact hu s hs
  · intro h
    have hk : key r ∉ t.rows.map key := by
      intro hmem
      obtain ⟨s, hs, hk⟩ := List.mem_map.mp hmem
      exact h s hs hk
    cases hi : t.insert? r with
    | none => simp [insert?, hk] at hi
    | some u => exact ⟨u, (insert?_eq_some.mp hi)⟩

theorem exists_insert? {t : Table key} {r : ρ} (h : ∀ s ∈ t, key s ≠ key r) :
    ∃ u, t.insert? r = some u := by
  cases hi : t.insert? r with
  | some u => exact ⟨u, rfl⟩
  | none =>
    obtain ⟨s, hs, hk⟩ := insert?_eq_none.mp hi
    exact absurd hk (h s hs)

theorem mem_insert? {t u : Table key} {r s : ρ} (h : t.insert? r = some u) :
    s ∈ u ↔ s ∈ t ∨ s = r := by
  rw [← mem_rows, (insert?_eq_some.mp h).2, List.mem_append, List.mem_singleton, mem_rows]

/-- `ON CONFLICT DO NOTHING` -/
def insertNew (t : Table key) (r : ρ) : Table key := (t.insert? r).getD t

theorem mem_insertNew {t : Table key} {r s : ρ} :
    s ∈ t.insertNew r ↔ s ∈ t ∨ (s = r ∧ ∀ q ∈ t, key q ≠ key r) := by
  unfold insertNew
  cases h : t.insert? r with
  | none =>
    obtain ⟨q, hq, hk⟩ := insert?_eq_none.mp h
    simp only [Option.getD_none]
    constructor
    · exact Or.inl
    · intro hs
      obtain hs | hs := hs
      · exact hs
      · exact absurd hk (hs.2 q hq)
  | some u =>
    simp only [Option.getD_some, mem_insert? h]
    have hfree := (insert?_eq_some.mp h).1
    constructor
    · intro hs
      exact hs.imp_right fun heq => ⟨heq, hfree⟩
    · intro hs
      exact hs.imp_right And.left

end Insert

/-- Changes the rows that satisfy a condition, never their key. -/
def modify (t : Table key) (p : ρ → Bool) (f : ρ → ρ) (hf : ∀ r, key (f r) = key r) : Table key where
  rows := t.rows.map fun r => if p r then f r else r
  nodup := by
    rw [List.map_map]
    have hkeys : (key ∘ fun r => if p r then f r else r) = key := by
      funext r
      simp only [Function.comp_apply]
      split
      · exact hf r
      · rfl
    rw [hkeys]
    exact t.nodup

section Modify

variable {p : ρ → Bool} {f : ρ → ρ} {hf : ∀ r, key (f r) = key r}

theorem mem_modify {t : Table key} {s : ρ} :
    s ∈ t.modify p f hf ↔ ∃ r ∈ t, s = if p r then f r else r := by
  rw [← mem_rows, modify, List.mem_map]
  constructor
  · intro h
    obtain ⟨r, hr, hs⟩ := h
    exact ⟨r, hr, hs.symm⟩
  · intro h
    obtain ⟨r, hr, hs⟩ := h
    exact ⟨r, hr, hs.symm⟩

theorem find?_modify {t : Table key} {q : ρ → Bool} (hq : ∀ r, q (f r) = q r) :
    (t.modify p f hf).find? q = (t.find? q).map fun r => if p r then f r else r := by
  have hsame : ∀ r, q (if p r then f r else r) = q r := by
    intro r
    split_ifs
    · exact hq r
    · rfl
  simp only [find?, modify, List.find?_map, Function.comp_def, hsame]

theorem modify_eq_self {t : Table key} (h : ∀ r ∈ t, p r = true → f r = r) :
    t.modify p f hf = t := by
  apply Table.ext
  change List.map _ t.rows = t.rows
  conv_rhs => rw [← List.map_id t.rows]
  apply List.map_congr_left
  intro r hr
  by_cases hp : p r = true
  · simp [hp, h r hr hp]
  · simp [hp]

end Modify

section Put

variable [DecidableEq κ]

/-- `ON CONFLICT(key) DO UPDATE`: the row replaces the one of its key. -/
def put (t : Table key) (r : ρ) : Table key where
  rows :=
    if key r ∈ t.rows.map key then t.rows.map fun s => if key s = key r then r else s
    else t.rows ++ [r]
  nodup := by
    split
    · rw [List.map_map]
      have hkeys : (key ∘ fun s => if key s = key r then r else s) = key := by
        funext s
        simp only [Function.comp_apply]
        split
        · rename_i h
          exact h.symm
        · rfl
      rw [hkeys]
      exact t.nodup
    · rename_i h
      rw [List.map_append]
      refine List.nodup_append.mpr ⟨t.nodup, by simp, ?_⟩
      intro k hk k' hk'
      obtain rfl : k' = key r := by simpa using hk'
      rintro rfl
      exact h hk

theorem mem_put {t : Table key} {r s : ρ} :
    s ∈ t.put r ↔ s = r ∨ (s ∈ t ∧ key s ≠ key r) := by
  rw [← mem_rows, put]
  split
  · rename_i h
    obtain ⟨q, hq, hk⟩ := List.mem_map.mp h
    rw [List.mem_map]
    constructor
    · intro hs
      obtain ⟨p, hp, rfl⟩ := hs
      by_cases hpk : key p = key r
      · simp [hpk]
      · simp only [hpk, if_false]
        exact Or.inr ⟨hp, hpk⟩
    · intro hs
      obtain rfl | ⟨hs, hne⟩ := hs
      · exact ⟨q, hq, by simp [hk]⟩
      · exact ⟨s, hs, by simp [hne]⟩
  · rename_i h
    rw [List.mem_append, List.mem_singleton, mem_rows]
    constructor
    · intro hs
      obtain hs | rfl := hs
      · refine Or.inr ⟨hs, ?_⟩
        intro hk
        exact h (List.mem_map.mpr ⟨s, hs, hk⟩)
      · exact Or.inl rfl
    · intro hs
      obtain rfl | ⟨hs, -⟩ := hs
      · exact Or.inr rfl
      · exact Or.inl hs

theorem find?_put {t : Table key} {r : ρ} {p : ρ → Bool} {k : κ}
    (hp : ∀ r, p r = true ↔ key r = k) :
    (t.put r).find? p = if key r = k then some r else t.find? p := by
  have hkey : ∀ r, p r = true → key r = k := fun r => (hp r).mp
  apply Option.ext
  intro q
  rw [find?_eq_some hkey, mem_put]
  split_ifs with hr
  · rw [Option.some_inj]
    constructor
    · intro hq
      obtain ⟨rfl | ⟨-, hne⟩, hpq⟩ := hq
      · rfl
      · exact absurd ((hkey q hpq).trans hr.symm) hne
    · intro hq
      subst hq
      exact ⟨Or.inl rfl, (hp _).mpr hr⟩
  · rw [find?_eq_some hkey]
    constructor
    · intro hq
      obtain ⟨rfl | ⟨hq, -⟩, hpq⟩ := hq
      · exact absurd (hkey _ hpq) hr
      · exact ⟨hq, hpq⟩
    · intro hq
      obtain ⟨hq, hpq⟩ := hq
      exact ⟨Or.inr ⟨hq, fun h => hr (h.symm.trans (hkey q hpq))⟩, hpq⟩

end Put

def filter (t : Table key) (p : ρ → Bool) : Table key where
  rows := t.rows.filter p
  nodup := List.Nodup.sublist (List.Sublist.map key List.filter_sublist) t.nodup

def delete (t : Table key) (p : ρ → Bool) : Table key := t.filter fun r => !p r

@[simp] theorem mem_filter {t : Table key} {p : ρ → Bool} {r : ρ} :
    r ∈ t.filter p ↔ r ∈ t ∧ p r = true := by
  rw [← mem_rows, filter, List.mem_filter, mem_rows]

@[simp] theorem mem_delete {t : Table key} {p : ρ → Bool} {r : ρ} :
    r ∈ t.delete p ↔ r ∈ t ∧ p r = false := by
  simp [delete]

/-- Rows that satisfy `q` have keys of rows that satisfied `p`, or new keys: there are
not more of them than of both together. -/
theorem countP_le {t u : Table key} {p q : ρ → Bool} (new : List κ)
    (h : ∀ r ∈ u, q r = true → key r ∈ new ∨ ∃ s ∈ t, p s = true ∧ key s = key r) :
    u.rows.countP q ≤ t.rows.countP p + new.length := by
  have hnodup : ((u.rows.filter q).map key).Nodup :=
    u.nodup.sublist (List.filter_sublist.map key)
  have hsubset : (u.rows.filter q).map key ⊆ (t.rows.filter p).map key ++ new := by
    intro k hk
    obtain ⟨r, hr, rfl⟩ := List.mem_map.mp hk
    rw [List.mem_filter] at hr
    rw [List.mem_append]
    obtain hnew | ⟨s, hs, hps, hkey⟩ := h r hr.1 hr.2
    · exact Or.inr hnew
    · exact Or.inl (List.mem_map.mpr ⟨s, List.mem_filter.mpr ⟨hs, hps⟩, hkey⟩)
  have hle := (List.subperm_of_subset hnodup hsubset).length_le
  rw [List.length_append, List.length_map, List.length_map] at hle
  rwa [List.countP_eq_length_filter, List.countP_eq_length_filter]

end Table

end Noted.Library
