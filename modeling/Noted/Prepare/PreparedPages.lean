import Mathlib.Algebra.Order.Ring.Rat
import Mathlib.Tactic.Linarith
import Noted.Library.Recency
import Noted.Library.Runs
import Noted.Text

/-!
# The cache of prepared pages (prepare-processing.ts)

`PreparedPageCache` keeps the prepared pages in a `Map`, in the order of their last uses,
and counts their bytes by hand. Its limits are any JavaScript numbers.
-/

namespace Noted.Prepare

open Library Recency

section Definitions

/-- A number to compare with: what is not a number is neither more nor less. -/
inductive Limit
  | nan
  | negInfinity
  | finite (x : ℚ)
  | infinity
  deriving DecidableEq

def Limit.lt : Limit → ℚ → Bool
  | .nan, _ => false
  | .negInfinity, _ => true
  | .finite x, n => x < n
  | .infinity, _ => false

def Limit.ge : Limit → ℚ → Bool
  | .nan, _ => false
  | .negInfinity, _ => false
  | .finite x, n => n ≤ x
  | .infinity, _ => true

structure ArrayBuffer where
  id : Nat
  byteLength : Nat
  deriving DecidableEq

/-- `Map.set`: a new key goes to the end. -/
def mapSet (entries : List (Text × ArrayBuffer)) (key : Text) (value : ArrayBuffer) :
    List (Text × ArrayBuffer) :=
  if key ∈ entries.map Prod.fst then
    entries.map fun e => if e.1 = key then (key, value) else e
  else entries ++ [(key, value)]

def mapDelete (entries : List (Text × ArrayBuffer)) (key : Text) : List (Text × ArrayBuffer) :=
  entries.filter fun e => e.1 ≠ key

structure PreparedPageCache where
  maxEntries : Limit
  maxBytes : Limit
  entries : List (Text × ArrayBuffer)
  totalBytes : Int
  deriving DecidableEq

namespace PreparedPageCache

def new (maxEntries maxBytes : Limit) : PreparedPageCache := ⟨maxEntries, maxBytes, [], 0⟩

variable (c : PreparedPageCache)

def size : Nat := c.entries.length

def bytes : Int := c.totalBytes

def get (key : Text) : Option ArrayBuffer × PreparedPageCache :=
  match c.entries.lookup key with
  | none => (none, c)
  | some value =>
    (some value, { c with entries := mapSet (mapDelete c.entries key) key value })

def delete (key : Text) : Bool × PreparedPageCache :=
  match c.entries.lookup key with
  | none => (false, c)
  | some value =>
    (true, { c with
      totalBytes := c.totalBytes - value.byteLength
      entries := mapDelete c.entries key })

def exceeds : Bool := c.maxEntries.lt c.size || c.maxBytes.lt c.totalBytes

/-- The loop of `set`, which gives up when its turns are used up. -/
def evict : Nat → PreparedPageCache → Option PreparedPageCache
  | 0, _ => none
  | turns + 1, c =>
    if c.exceeds then
      match c.entries.head? with
      | none => some c
      | some oldest => evict turns (c.delete oldest.1).2
    else some c

def set (key : Text) (value : ArrayBuffer) : Option PreparedPageCache :=
  let c := (c.delete key).2
  if c.maxBytes.lt value.byteLength || c.maxEntries.lt 1 then some c
  else
    evict (c.entries.length + 2)
      { c with
        entries := mapSet c.entries key value
        totalBytes := c.totalBytes + value.byteLength }

def take (key : Text) : Option ArrayBuffer × PreparedPageCache :=
  match c.entries.lookup key with
  | none => (none, c)
  | some value => (some value, (c.delete key).2)

def clear : PreparedPageCache := { c with entries := [], totalBytes := 0 }

inductive Call
  | set (key : Text) (value : ArrayBuffer)
  | get (key : Text)
  | take (key : Text)
  | delete (key : Text)
  | clear
  deriving DecidableEq

inductive Answer
  | done
  | value (value : Option ArrayBuffer)
  | deleted (deleted : Bool)
  deriving DecidableEq

def step (c : PreparedPageCache) : Call → Option (Answer × PreparedPageCache)
  | .set key value => (c.set key value).map fun c => (.done, c)
  | .get key => some (.value (c.get key).1, (c.get key).2)
  | .take key => some (.value (c.take key).1, (c.take key).2)
  | .delete key => some (.deleted (c.delete key).1, (c.delete key).2)
  | .clear => some (.done, c.clear)

end PreparedPageCache

end Definitions

namespace PreparedPageCache

section Pages

variable {entries : List (Text × ArrayBuffer)} {key : Text} {value : ArrayBuffer}

def sizes (entries : List (Text × ArrayBuffer)) : Int :=
  (entries.map fun e => (e.2.byteLength : Int)).sum

theorem sizes_append (entries pages : List (Text × ArrayBuffer)) :
    sizes (entries ++ pages) = sizes entries + sizes pages := by
  simp [sizes]

theorem sizes_sublist {pages : List (Text × ArrayBuffer)} (h : pages.Sublist entries) :
    sizes pages ≤ sizes entries := by
  induction h with
  | slnil => exact le_rfl
  | cons e _ ih =>
    simp only [sizes, List.map_cons, List.sum_cons] at ih ⊢
    omega
  | cons_cons e _ ih =>
    simp only [sizes, List.map_cons, List.sum_cons] at ih ⊢
    omega

theorem not_mem_mapDelete : key ∉ (mapDelete entries key).map Prod.fst := by
  simp [mapDelete]

theorem mapSet_mapDelete : mapSet (mapDelete entries key) key value =
    mapDelete entries key ++ [(key, value)] := if_neg not_mem_mapDelete

theorem mapDelete_of_lookup (h : entries.lookup key = none) : mapDelete entries key = entries := by
  rw [List.lookup_eq_none_iff] at h
  rw [mapDelete, List.filter_eq_self]
  intro e he
  have hne : key ≠ e.1 := by simpa using h e he
  simpa using hne.symm

theorem mem_of_lookup (h : entries.lookup key = some value) : (key, value) ∈ entries := by
  obtain ⟨before, after, rfl, -⟩ := List.lookup_eq_some_iff.mp h
  simp

theorem lookup_eq_some (hnodup : (entries.map Prod.fst).Nodup) :
    entries.lookup key = some value ↔ (key, value) ∈ entries := by
  refine ⟨mem_of_lookup, fun h => ?_⟩
  obtain ⟨before, after, rfl⟩ := List.append_of_mem h
  refine List.lookup_eq_some_iff.mpr ⟨before, after, rfl, fun e he => ?_⟩
  rw [List.map_append, List.map_cons, List.nodup_append] at hnodup
  have hne := hnodup.2.2 e.1 (List.mem_map_of_mem he) key List.mem_cons_self
  simpa using hne.symm

theorem sizes_mapDelete (hnodup : (entries.map Prod.fst).Nodup)
    (h : entries.lookup key = some value) :
    sizes (mapDelete entries key) = sizes entries - value.byteLength := by
  obtain ⟨before, after, rfl⟩ := List.append_of_mem (mem_of_lookup h)
  rw [List.map_append, List.map_cons, List.nodup_append, List.nodup_cons] at hnodup
  obtain ⟨-, ⟨hafter, -⟩, hbefore⟩ := hnodup
  have hkept : ∀ e ∈ before ++ after, e.1 ≠ key := by
    intro e he heq
    obtain he | he := List.mem_append.mp he
    · exact hbefore e.1 (List.mem_map_of_mem he) key List.mem_cons_self heq
    · exact hafter (List.mem_map.mpr ⟨e, he, heq⟩)
  have hrest : mapDelete (before ++ (key, value) :: after) key = before ++ after := by
    rw [mapDelete, List.filter_append, List.filter_cons_of_neg (by simp), ← List.filter_append,
      List.filter_eq_self]
    simpa using hkept
  rw [hrest]
  simp only [sizes, List.map_append, List.map_cons, List.sum_append, List.sum_cons]
  omega

end Pages

section Counted

variable {c : PreparedPageCache} {key : Text} {value : ArrayBuffer}

def holding (c : PreparedPageCache) (entries : List (Text × ArrayBuffer)) : PreparedPageCache :=
  { c with entries := entries, totalBytes := sizes entries }

/-- One page for each key, and the total of their bytes. -/
structure Counted (c : PreparedPageCache) : Prop where
  nodup : (c.entries.map Prod.fst).Nodup
  bytes : c.totalBytes = sizes c.entries

theorem Counted.holding_entries (hc : c.Counted) : c.holding c.entries = c := by
  rw [holding, ← hc.bytes]

theorem Counted.holding (hc : c.Counted) {entries : List (Text × ArrayBuffer)}
    (h : entries.Sublist c.entries) : (c.holding entries).Counted where
  nodup := hc.nodup.sublist (h.map Prod.fst)
  bytes := rfl

theorem counted_append (hc : c.Counted) (key : Text) (value : ArrayBuffer) :
    (c.holding (mapDelete c.entries key ++ [(key, value)])).Counted where
  nodup := by
    have hkept := hc.nodup.sublist (List.filter_sublist.map Prod.fst :
      ((mapDelete c.entries key).map Prod.fst).Sublist _)
    change ((mapDelete c.entries key ++ [(key, value)]).map Prod.fst).Nodup
    rw [List.map_append, List.nodup_append]
    refine ⟨hkept, List.nodup_singleton _, ?_⟩
    intro k hk l hl heq
    obtain rfl := List.mem_singleton.mp hl
    exact not_mem_mapDelete (heq ▸ hk)
  bytes := rfl

theorem Counted.delete (hc : c.Counted) (key : Text) :
    (c.delete key).2 = c.holding (mapDelete c.entries key) := by
  cases h : c.entries.lookup key with
  | none =>
    simp only [PreparedPageCache.delete, h]
    rw [mapDelete_of_lookup h, hc.holding_entries]
  | some value =>
    simp only [PreparedPageCache.delete, h]
    rw [PreparedPageCache.holding, sizes_mapDelete hc.nodup h, hc.bytes]

/-- The loop of `set` ends: it drops pages from the front while a limit is exceeded. -/
theorem Counted.evict (hc : c.Counted) (turns : Nat) (hturns : c.entries.length < turns) :
    ∃ n, evict turns c = some (c.holding (c.entries.drop n)) ∧
      (∀ m < n, (c.holding (c.entries.drop m)).exceeds = true) ∧
        ((c.holding (c.entries.drop n)).exceeds = false ∨ c.entries.drop n = []) := by
  induction turns generalizing c with
  | zero => omega
  | succ turns ih =>
    rw [PreparedPageCache.evict]
    cases hexceeds : c.exceeds with
    | false =>
      refine ⟨0, ?_, by simp, Or.inl ?_⟩
      · rw [List.drop_zero, hc.holding_entries]
        rfl
      · rw [List.drop_zero, hc.holding_entries, hexceeds]
    | true =>
      rw [if_pos rfl]
      cases hentries : c.entries with
      | nil =>
        refine ⟨0, ?_, by simp, Or.inr rfl⟩
        rw [List.drop_zero, ← hentries, hc.holding_entries, hentries]
        rfl
      | cons oldest rest =>
        have hnodup := hc.nodup
        rw [hentries, List.map_cons, List.nodup_cons] at hnodup
        have hrest : mapDelete c.entries oldest.1 = rest := by
          rw [hentries, mapDelete, List.filter_cons_of_neg (by simp), List.filter_eq_self]
          intro e he
          simpa using fun heq : e.1 = oldest.1 => hnodup.1 (heq ▸ List.mem_map_of_mem he)
        have hdelete : (c.delete oldest.1).2 = c.holding rest := by rw [hc.delete, hrest]
        have hsub : rest.Sublist c.entries := by
          rw [hentries]
          exact List.sublist_cons_self oldest rest
        have hlength : rest.length < turns := by
          rw [hentries, List.length_cons] at hturns
          omega
        obtain ⟨n, hevict, hover, hend⟩ := ih (hc.holding hsub) hlength
        refine ⟨n + 1, ?_, ?_, hend⟩
        · rw [List.head?_cons]
          dsimp only
          rw [hdelete]
          exact hevict
        · intro m hm
          cases m with
          | zero =>
            rw [List.drop_zero, ← hentries, hc.holding_entries]
            exact hexceeds
          | succ m => exact hover m (by omega)

end Counted

section Limits

variable {limit : Limit} {m n : ℚ} {c : PreparedPageCache}

theorem lt_eq_false_of_le (hmn : m ≤ n) (h : limit.lt n = false) : limit.lt m = false := by
  cases limit with
  | nan => rfl
  | negInfinity => cases h
  | finite x =>
    simp only [Limit.lt, decide_eq_false_iff_not, not_lt] at h ⊢
    exact hmn.trans h
  | infinity => rfl

theorem ge_of_lt_eq_false (hzero : limit.ge 0 = true) (h : limit.lt n = false) :
    limit.ge n = true := by
  cases limit with
  | nan => cases hzero
  | negInfinity => cases hzero
  | finite x => simpa [Limit.lt, Limit.ge] using h
  | infinity => rfl

theorem exceeds_of_le {pages entries : List (Text × ArrayBuffer)}
    (hlength : pages.length ≤ entries.length) (hsizes : sizes pages ≤ sizes entries)
    (h : (c.holding entries).exceeds = false) : (c.holding pages).exceeds = false := by
  obtain ⟨hentries, hbytes⟩ := Bool.or_eq_false_iff.mp h
  rw [exceeds, Bool.or_eq_false_iff]
  exact ⟨lt_eq_false_of_le (by exact_mod_cast hlength) hentries,
    lt_eq_false_of_le (by exact_mod_cast hsizes) hbytes⟩

end Limits

section Steps

variable {c c' : PreparedPageCache} {call : Call} {answer : Answer} {key : Text}
  {value : ArrayBuffer}

/-- What `set` leaves: nothing for a page that does not fit, and else the page at the end of
as many others as the limits let stay. -/
inductive WasSet (c : PreparedPageCache) (key : Text) (value : ArrayBuffer) :
    PreparedPageCache → Prop
  | refused (h : (c.maxBytes.lt value.byteLength || c.maxEntries.lt 1) = true) :
      WasSet c key value (c.holding (mapDelete c.entries key))
  | kept (n : Nat) (hn : n ≤ (mapDelete c.entries key).length)
      (hover : ∀ m < n, (c.holding ((mapDelete c.entries key ++ [(key, value)]).drop m)).exceeds =
        true)
      (hwithin : (c.holding ((mapDelete c.entries key ++ [(key, value)]).drop n)).exceeds =
        false) :
      WasSet c key value (c.holding ((mapDelete c.entries key ++ [(key, value)]).drop n))

theorem exceeds_singleton (h : (c.maxBytes.lt value.byteLength || c.maxEntries.lt 1) = false) :
    (c.holding [(key, value)]).exceeds = false := by
  obtain ⟨hbytes, hentries⟩ := Bool.or_eq_false_iff.mp h
  rw [exceeds, Bool.or_eq_false_iff]
  constructor
  · simpa [holding, size] using hentries
  · simpa [holding, sizes] using hbytes

theorem Counted.set (hc : c.Counted) (key : Text) (value : ArrayBuffer) :
    ∃ c', c.set key value = some c' ∧ WasSet c key value c' := by
  have hdelete := hc.delete key
  cases hbig : c.maxBytes.lt value.byteLength || c.maxEntries.lt 1 with
  | true =>
    refine ⟨_, ?_, .refused hbig⟩
    rw [PreparedPageCache.set, hdelete]
    exact if_pos hbig
  | false =>
    generalize hall : mapDelete c.entries key ++ [(key, value)] = all
    have hcounted := counted_append hc key value
    rw [hall] at hcounted
    have hlength : all.length = (mapDelete c.entries key).length + 1 := by simp [← hall]
    obtain ⟨n, hevict, hover, hend⟩ :=
      hcounted.evict ((mapDelete c.entries key).length + 2)
        (by change all.length < _; omega)
    change PreparedPageCache.evict _ (c.holding all) = some (c.holding (all.drop n)) at hevict
    change ∀ m < n, (c.holding (all.drop m)).exceeds = true at hover
    -- the loop stops before the new page
    have hn : n ≤ (mapDelete c.entries key).length := by
      by_contra hlong
      have hlast := hover (mapDelete c.entries key).length (not_le.mp hlong)
      rw [← hall, List.drop_left, exceeds_singleton hbig] at hlast
      cases hlast
    have hwithin : (c.holding (all.drop n)).exceeds = false := by
      refine hend.resolve_right fun hnil => ?_
      have hshort := List.drop_eq_nil_iff.mp hnil
      change all.length ≤ n at hshort
      omega
    subst hall
    refine ⟨_, ?_, .kept n hn hover hwithin⟩
    rw [PreparedPageCache.set, hdelete, ← hevict]
    have hpushed : ({ c.holding (mapDelete c.entries key) with
        entries := mapSet (mapDelete c.entries key) key value
        totalBytes := sizes (mapDelete c.entries key) + value.byteLength } : PreparedPageCache) =
          c.holding (mapDelete c.entries key ++ [(key, value)]) := by
      rw [mapSet_mapDelete, PreparedPageCache.holding, PreparedPageCache.holding, sizes_append]
      simp [sizes]
    rw [← hpushed]
    exact if_neg (Bool.eq_false_iff.mp hbig)

inductive Stepped (c : PreparedPageCache) : Call → Answer → PreparedPageCache → Prop
  | set (key : Text) (value : ArrayBuffer) (c' : PreparedPageCache) (h : WasSet c key value c') :
      Stepped c (.set key value) .done c'
  | missing (key : Text) (h : c.entries.lookup key = none) : Stepped c (.get key) (.value none) c
  | found (key : Text) (value : ArrayBuffer) (h : c.entries.lookup key = some value) :
      Stepped c (.get key) (.value (some value))
        (c.holding (mapDelete c.entries key ++ [(key, value)]))
  | taken (key : Text) :
      Stepped c (.take key) (.value (c.entries.lookup key)) (c.holding (mapDelete c.entries key))
  | deleted (key : Text) (deleted : Bool) :
      Stepped c (.delete key) (.deleted deleted) (c.holding (mapDelete c.entries key))
  | cleared : Stepped c .clear .done (c.holding [])

theorem Counted.stepped (hc : c.Counted) (h : c.step call = some (answer, c')) :
    Stepped c call answer c' := by
  cases call with
  | set key value =>
    obtain ⟨c'', hset, hkept⟩ := hc.set key value
    rw [step, hset, Option.map_some] at h
    obtain ⟨rfl, rfl⟩ := Prod.mk.inj (Option.some.inj h)
    exact .set key value c'' hkept
  | get key =>
    obtain ⟨rfl, rfl⟩ := Prod.mk.inj (Option.some.inj h)
    cases hlookup : c.entries.lookup key with
    | none =>
      simp only [PreparedPageCache.get, hlookup]
      exact .missing key hlookup
    | some value =>
      have hsame : (c.get key).2 = c.holding (mapDelete c.entries key ++ [(key, value)]) := by
        simp only [PreparedPageCache.get, hlookup, mapSet_mapDelete]
        rw [PreparedPageCache.holding, sizes_append, sizes_mapDelete hc.nodup hlookup, hc.bytes]
        simp [sizes]
      rw [hsame]
      simp only [PreparedPageCache.get, hlookup]
      exact .found key value hlookup
  | take key =>
    obtain ⟨rfl, rfl⟩ := Prod.mk.inj (Option.some.inj h)
    have htake : c.take key = (c.entries.lookup key, c.holding (mapDelete c.entries key)) := by
      rw [PreparedPageCache.take, ← hc.delete key]
      cases hlookup : c.entries.lookup key with
      | none => simp only [PreparedPageCache.delete, hlookup]
      | some value => rfl
    rw [htake]
    exact .taken key
  | delete key =>
    obtain ⟨rfl, rfl⟩ := Prod.mk.inj (Option.some.inj h)
    rw [hc.delete key]
    exact .deleted key _
  | clear =>
    obtain ⟨rfl, rfl⟩ := Prod.mk.inj (Option.some.inj h)
    exact .cleared

theorem Stepped.limits (h : Stepped c call answer c') :
    c'.maxEntries = c.maxEntries ∧ c'.maxBytes = c.maxBytes := by
  cases h with
  | set key value _ hset =>
    cases hset with
    | refused hbig => exact ⟨rfl, rfl⟩
    | kept n hn hover hwithin => exact ⟨rfl, rfl⟩
  | _ => exact ⟨rfl, rfl⟩

end Steps

section History

variable {c c' : PreparedPageCache} {call : Call} {answer : Answer}
  {t : List (Entry PreparedPageCache Call Answer)} {x : Entry PreparedPageCache Call Answer}

def usedKey (x : Entry PreparedPageCache Call Answer) : Option Text :=
  match x.event, x.response with
  | .set key _, _ => some key
  | .get key, .value (some _) => some key
  | _, _ => none

def uses (t : List (Entry PreparedPageCache Call Answer)) : List Text := t.filterMap usedKey

theorem uses_snoc : uses (t ++ [x]) = uses t ++ (usedKey x).toList := by
  rw [uses, List.filterMap_append]
  cases h : usedKey x <;> simp [uses, h]

structure Kept (t : List (Entry PreparedPageCache Call Answer)) (c : PreparedPageCache) : Prop where
  counted : c.Counted
  within : c.entries = [] ∨ c.exceeds = false
  order : InOrder (uses t) (c.entries.map Prod.fst)

theorem Kept.new (maxEntries maxBytes : Limit) : Kept [] (new maxEntries maxBytes) where
  counted := ⟨List.nodup_nil, rfl⟩
  within := Or.inl rfl
  order := inOrder_nil

theorem Kept.sublist (h : Kept t c) {pages : List (Text × ArrayBuffer)}
    (hpages : pages.Sublist c.entries) (hx : usedKey x = none) :
    Kept (t ++ [x]) (c.holding pages) where
  counted := h.counted.holding hpages
  within := by
    refine h.within.imp (fun hnil => ?_) fun hwithin => ?_
    · exact List.sublist_nil.mp (hnil ▸ hpages)
    · rw [← h.counted.holding_entries] at hwithin
      exact exceeds_of_le hpages.length_le (sizes_sublist hpages) hwithin
  order := by
    rw [uses_snoc, hx, Option.toList_none, List.append_nil]
    exact h.order.sublist (hpages.map Prod.fst)

theorem Kept.front (h : Kept t c) (key : Text) (value : ArrayBuffer) :
    InOrder (uses t ++ [key]) ((mapDelete c.entries key ++ [(key, value)]).map Prod.fst) := by
  rw [List.map_append]
  exact (h.order.sublist (List.filter_sublist.map Prod.fst)).snoc not_mem_mapDelete

theorem Kept.set (h : Kept t c) {key : Text} {value : ArrayBuffer}
    (hset : WasSet c key value c') : Kept (t ++ [⟨c, .set key value, .done, c'⟩]) c' := by
  have huses : uses (t ++ [⟨c, .set key value, .done, c'⟩]) = uses t ++ [key] := uses_snoc
  cases hset with
  | refused hbig =>
    have hsub : (mapDelete c.entries key).Sublist c.entries := List.filter_sublist
    refine ⟨h.counted.holding hsub, ?_, ?_⟩
    · refine h.within.imp (fun hnil => ?_) fun hwithin => ?_
      · exact List.sublist_nil.mp (hnil ▸ hsub)
      · rw [← h.counted.holding_entries] at hwithin
        exact exceeds_of_le hsub.length_le (sizes_sublist hsub) hwithin
    · rw [huses]
      exact (h.front key value).sublist ((List.sublist_append_left _ _).map Prod.fst)
  | kept n hn hover hwithin =>
    refine ⟨?_, Or.inr hwithin, ?_⟩
    · exact (counted_append h.counted key value).holding (List.drop_sublist _ _)
    · rw [huses]
      exact (h.front key value).sublist ((List.drop_sublist _ _).map Prod.fst)

theorem Kept.step (h : Kept t c) (hstep : c.step call = some (answer, c')) :
    Kept (t ++ [⟨c, call, answer, c'⟩]) c' := by
  cases h.counted.stepped hstep with
  | set key value _ hset => exact h.set hset
  | missing key hmissing =>
    have hsame := h.sublist (x := ⟨c, .get key, .value none, c⟩) (List.Sublist.refl c.entries) rfl
    rwa [h.counted.holding_entries] at hsame
  | found key value hfound =>
    refine ⟨counted_append h.counted key value, ?_, ?_⟩
    · refine Or.inr ?_
      have hmem := mem_of_lookup hfound
      have hwithin := h.within.resolve_left (List.ne_nil_of_mem hmem)
      rw [← h.counted.holding_entries] at hwithin
      refine exceeds_of_le ?_ ?_ hwithin
      · have hless : (mapDelete c.entries key).length < c.entries.length :=
          List.length_filter_lt_length_iff_exists.mpr ⟨_, hmem, by simp⟩
        rw [List.length_append, List.length_singleton]
        omega
      · rw [sizes_append, sizes_mapDelete h.counted.nodup hfound]
        simp [sizes]
    · rw [uses_snoc]
      exact h.front key value
  | taken key => exact h.sublist List.filter_sublist rfl
  | deleted key deleted => exact h.sublist List.filter_sublist rfl
  | cleared => exact h.sublist (List.nil_sublist _) rfl

/-- Why a page leaves the cache: it is deleted, taken or replaced, or all are, or it is
dropped with those used before it, as the pages used after it exceed a limit with it. -/
inductive Leaves (t : List (Entry PreparedPageCache Call Answer)) (c c' : PreparedPageCache)
    (e : Text × ArrayBuffer) : Call → Prop
  | deleted : Leaves t c c' e (.delete e.1)
  | taken : Leaves t c c' e (.take e.1)
  | cleared : Leaves t c c' e .clear
  | replaced (value : ArrayBuffer) : Leaves t c c' e (.set e.1 value)
  | evicted (key : Text) (value : ArrayBuffer) (before after : List (Text × ArrayBuffer))
      (hall : mapDelete c.entries key ++ [(key, value)] = before ++ e :: after)
      (hkept : c'.entries <:+ after) (hover : (c.holding (e :: after)).exceeds = true)
      (hused : ∀ kept ∈ c'.entries, UsedSince (uses t ++ [key]) e.1 kept.1) :
      Leaves t c c' e (.set key value)

theorem Kept.leaves (h : Kept t c) (hstep : c.step call = some (answer, c'))
    {e : Text × ArrayBuffer} (he : e ∈ c.entries) (hgone : e ∉ c'.entries) :
    Leaves t c c' e call := by
  have hdeleted : ∀ {key}, e ∉ mapDelete c.entries key → e.1 = key := by
    intro key hnot
    by_contra hne
    exact hnot (List.mem_filter.mpr ⟨he, by simpa using hne⟩)
  cases h.counted.stepped hstep with
  | set key value _ hset =>
    cases hset with
    | refused =>
      obtain rfl := hdeleted hgone
      exact .replaced value
    | kept n hn hover hwithin =>
      by_cases hkey : e.1 = key
      · subst hkey
        exact .replaced value
      · have hmem : e ∈ (mapDelete c.entries key ++ [(key, value)]).take n := by
          have hall : e ∈ mapDelete c.entries key ++ [(key, value)] :=
            List.mem_append_left _ (List.mem_filter.mpr ⟨he, by simpa using hkey⟩)
          rw [← List.take_append_drop n (mapDelete c.entries key ++ [(key, value)])] at hall
          exact (List.mem_append.mp hall).resolve_right hgone
        have hfront := h.front key value
        generalize hall : mapDelete c.entries key ++ [(key, value)] = all at hover hmem hfront
        obtain ⟨before, between, htake⟩ := List.append_of_mem hmem
        have hsplit : all = before ++ e :: (between ++ all.drop n) := by
          rw [← List.cons_append, ← List.append_assoc, ← htake, List.take_append_drop]
        have hearly : before.length < n := by
          have hshort := congrArg List.length htake
          have htaken := List.length_take_le n all
          simp only [List.length_append, List.length_cons] at hshort
          omega
        refine .evicted key value before (between ++ all.drop n) (hall.trans hsplit)
          (List.suffix_append _ _) ?_ ?_
        · have hdrop := hover before.length hearly
          rwa [hsplit, List.drop_left] at hdrop
        · intro kept hkept
          rw [hsplit, List.map_append, List.map_cons, List.map_append] at hfront
          have hlater := (List.pairwise_cons.mp (List.pairwise_append.mp hfront).2.1).1
          exact hlater kept.1 (List.mem_append_right _ (List.mem_map_of_mem hkept))
  | missing key hmissing => exact absurd he hgone
  | found key value hfound =>
    have hlast : e.1 = key := hdeleted fun hmem => hgone (List.mem_append_left _ hmem)
    have hsame : e = (key, value) := by
      have hlookup := (lookup_eq_some h.counted.nodup).mpr (hlast ▸ he : (key, e.2) ∈ c.entries)
      rw [hfound] at hlookup
      exact Prod.ext hlast (Option.some.inj hlookup).symm
    exact absurd (List.mem_append_right _ (hsame ▸ List.mem_singleton_self _)) hgone
  | taken key =>
    obtain rfl := hdeleted hgone
    exact .taken
  | deleted key deleted =>
    obtain rfl := hdeleted hgone
    exact .deleted
  | cleared => exact .cleared

structure Accounts (t : List (Entry PreparedPageCache Call Answer)) (c : PreparedPageCache) :
    Prop where
  bytes : c.bytes = sizes c.entries
  nodup : (c.entries.map Prod.fst).Nodup
  maxBytes : c.maxBytes.ge 0 = true → c.maxBytes.ge c.bytes = true
  maxEntries : c.maxEntries.ge 0 = true → c.maxEntries.ge c.size = true
  /-- A page that fits is readable when it is set, which ends. -/
  readable : ∀ key value, ∃ c', c.set key value = some c' ∧
    ((c.maxBytes.lt value.byteLength || c.maxEntries.lt 1) = false → (c'.get key).1 = some value)
  leaves : ∀ call answer c', c.step call = some (answer, c') →
    ∀ e ∈ c.entries, e ∉ c'.entries → Leaves t c c' e call

theorem Kept.readable (h : Kept t c) (key : Text) (value : ArrayBuffer) :
    ∃ c', c.set key value = some c' ∧
      ((c.maxBytes.lt value.byteLength || c.maxEntries.lt 1) = false →
        (c'.get key).1 = some value) := by
  obtain ⟨c', hc', hset⟩ := h.counted.set key value
  refine ⟨c', hc', fun hfits => ?_⟩
  have hkept := h.set hset
  have hmem : (key, value) ∈ c'.entries := by
    cases hset with
    | refused hbig =>
      rw [hfits] at hbig
      cases hbig
    | kept n hn hover hwithin =>
      change _ ∈ (mapDelete c.entries key ++ [(key, value)]).drop n
      rw [List.drop_append_of_le_length hn]
      exact List.mem_append_right _ (List.mem_singleton_self _)
  rw [PreparedPageCache.get, (lookup_eq_some hkept.counted.nodup).mpr hmem]

theorem Kept.accounts (h : Kept t c) : Accounts t c where
  bytes := h.counted.bytes
  nodup := h.counted.nodup
  maxBytes hzero := by
    obtain hnil | hwithin := h.within
    · rw [bytes, h.counted.bytes, hnil]
      exact_mod_cast hzero
    · exact ge_of_lt_eq_false hzero (Bool.or_eq_false_iff.mp hwithin).2
  maxEntries hzero := by
    obtain hnil | hwithin := h.within
    · rw [size, hnil]
      exact_mod_cast hzero
    · exact ge_of_lt_eq_false hzero (Bool.or_eq_false_iff.mp hwithin).1
  readable := h.readable
  leaves _ _ _ hstep _ he hgone := h.leaves hstep he hgone

/-- Over every sequence of calls and with any limits. -/
theorem preparedPageCache_accounts {maxEntries maxBytes : Limit}
    (h : Run step (new maxEntries maxBytes) t c) :
    (c.maxEntries = maxEntries ∧ c.maxBytes = maxBytes) ∧ Accounts t c := by
  have hkept : (c.maxEntries = maxEntries ∧ c.maxBytes = maxBytes) ∧ Kept t c := by
    induction h with
    | nil => exact ⟨⟨rfl, rfl⟩, Kept.new maxEntries maxBytes⟩
    | snoc _ hlast ih =>
      obtain ⟨⟨hentries, hbytes⟩, hkept⟩ := ih
      have hlimits := (hkept.counted.stepped hlast).limits
      exact ⟨⟨hlimits.1.trans hentries, hlimits.2.trans hbytes⟩, hkept.step hlast⟩
  exact hkept.imp_right Kept.accounts

/-- No cache holds less than nothing, as a negative limit asks. -/
theorem not_within_negative : ¬∀ (maxEntries maxBytes : Limit)
    (t : List (Entry PreparedPageCache Call Answer)) (c : PreparedPageCache),
    Run step (new maxEntries maxBytes) t c → c.maxBytes.ge c.bytes = true := by
  intro h
  exact absurd (h (.finite 1) (.finite (-1)) [] _ Run.nil) (by decide +kernel)

def evictingCalls : List Call :=
  [.set "a".toList ⟨1, 3⟩, .set "b".toList ⟨2, 4⟩, .get "a".toList, .set "c".toList ⟨3, 5⟩]

theorem preparedPageCache_accounts_evicts : ∃ t c,
    Run step (new (.finite 5) (.finite 8)) t c ∧ c.bytes = 8 ∧
      c.entries = [("a".toList, ⟨1, 3⟩), ("c".toList, ⟨3, 5⟩)] ∧ Accounts t c := by
  obtain ⟨t, c, hrun, hp⟩ : ∃ t c, Run step (new (.finite 5) (.finite 8)) t c ∧
      (c.bytes == 8 && c.entries == [("a".toList, ⟨1, 3⟩), ("c".toList, ⟨3, 5⟩)]) = true :=
    exists_run evictingCalls (by decide +kernel)
  simp only [Bool.and_eq_true, beq_iff_eq] at hp
  exact ⟨t, c, hrun, hp.1, hp.2, (preparedPageCache_accounts hrun).2⟩

end History

end PreparedPageCache

end Noted.Prepare
