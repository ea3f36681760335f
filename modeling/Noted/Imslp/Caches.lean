import Mathlib.Algebra.Order.Ring.Rat
import Mathlib.Tactic.Linarith
import Noted.Library.Recency
import Noted.Library.Runs
import Noted.Types

/-!
# The caches of the IMSLP search (internal/app/imslp.go, imslp_files.go)

A cache is a linked list of entries, the last used at its front, and a map from keys to the
elements of the list. The search and the file lookup have one each and differ in the time
their entries live. Times are exact seconds, and each call is one step under the searcher's
lock.
-/

namespace Noted.Imslp

open Library Recency

section Config

structure CacheConfig where
  cacheSize : Int
  cacheTTL : ℚ
  negativeTTL : ℚ
  fileCacheSize : Int
  fileCacheTTL : ℚ

def CacheConfig.ttl (cfg : CacheConfig) (works : List (IMSLPWork Char)) : ℚ :=
  if works.length = 0 then cfg.negativeTTL else cfg.cacheTTL

end Config

variable {ν : Type}

structure CacheEntry (ν : Type) where
  key : Text
  value : ν
  expires : ℚ

/-- A list of elements, the front first, with what each element holds, and a map from keys
to elements; `made` elements were made. -/
structure Cache (ν : Type) where
  list : List Nat
  values : Nat → Option (CacheEntry ν)
  entries : Text → Option Nat
  made : Nat

namespace Cache

def remove (c : Cache ν) (element : Nat) : Cache ν := { c with list := c.list.erase element }

def moveToFront (c : Cache ν) (element : Nat) : Cache ν :=
  if element ∈ c.list then { c with list := element :: c.list.erase element } else c

def setValue (c : Cache ν) (element : Nat) (entry : CacheEntry ν) : Cache ν :=
  { c with values := Function.update c.values element (some entry) }

def pushFront (c : Cache ν) (key : Text) (entry : CacheEntry ν) : Cache ν where
  list := c.made :: c.list
  values := Function.update c.values c.made (some entry)
  entries := Function.update c.entries key (some c.made)
  made := c.made + 1

def delete (c : Cache ν) (key : Text) : Cache ν :=
  { c with entries := Function.update c.entries key none }

def cached (c : Cache ν) (now : ℚ) (key : Text) : Option ν × Cache ν :=
  match c.entries key with
  | none => (none, c)
  | some element =>
    match c.values element with
    | none => (none, c)
    | some entry =>
      if ¬ now < entry.expires then (none, (c.remove element).delete key)
      else (some entry.value, c.moveToFront element)

/-- The loop of `store`, which gives up when its turns are used up. -/
def evict (size : Int) : Nat → Cache ν → Option (Cache ν)
  | 0, _ => none
  | turns + 1, c =>
    if size < c.list.length then do
      let oldest ← c.list.getLast?
      let entry ← c.values oldest
      evict size turns ((c.remove oldest).delete entry.key)
    else some c

def store (c : Cache ν) (size : Int) (ttl : ν → ℚ) (now : ℚ) (key : Text) (value : ν) :
    Option (Cache ν) :=
  let entry := ⟨key, value, now + ttl value⟩
  match c.entries key with
  | some element => some ((c.setValue element entry).moveToFront element)
  | none => evict size (c.list.length + 2) (c.pushFront key entry)

end Cache

structure CacheState (ν : Type) where
  clock : ℚ
  cache : Cache ν

def CacheState.start (clock : ℚ) : CacheState ν := ⟨clock, [], fun _ => none, fun _ => none, 0⟩

inductive CacheEvent (ν : Type)
  | tick (clock : ℚ)
  | cached (key : Text)
  | store (key : Text) (value : ν)

inductive CacheAnswer (ν : Type)
  | done
  | found (value : ν)
  | missing
  deriving DecidableEq

def cacheStep (size : Int) (ttl : ν → ℚ) (σ : CacheState ν) :
    CacheEvent ν → Option (CacheAnswer ν × CacheState ν)
  | .tick clock => if σ.clock ≤ clock then some (.done, { σ with clock := clock }) else none
  | .cached key =>
    let (value, cache) := σ.cache.cached σ.clock key
    some ((value.map .found).getD .missing, { σ with cache := cache })
  | .store key value =>
    (σ.cache.store size ttl σ.clock key value).map fun cache => (.done, { σ with cache := cache })

namespace Cache

section View

variable {c c' : Cache ν} {key : Text} {entry : CacheEntry ν} {element : Nat} {now : ℚ}

/-- The list and the map hold the same entries, one element for each key. -/
structure Linked (c : Cache ν) : Prop where
  nodup : c.list.Nodup
  made : ∀ element ∈ c.list, element < c.made
  held : ∀ element ∈ c.list, ∃ entry, c.values element = some entry
  entries : ∀ key element, c.entries key = some element ↔
    element ∈ c.list ∧ ∃ entry, c.values element = some entry ∧ entry.key = key

def view (c : Cache ν) : List (CacheEntry ν) := c.list.filterMap c.values

theorem mem_view : entry ∈ c.view ↔ ∃ element ∈ c.list, c.values element = some entry :=
  List.mem_filterMap

theorem Linked.entry_of_key (hc : c.Linked) (h : c.entries key = some element) :
    ∃ entry, c.values element = some entry ∧ entry.key = key ∧ entry ∈ c.view := by
  obtain ⟨hmem, entry, hentry, hkey⟩ := (hc.entries key element).mp h
  exact ⟨entry, hentry, hkey, mem_view.mpr ⟨element, hmem, hentry⟩⟩

theorem Linked.entries_eq_none (hc : c.Linked) :
    c.entries key = none ↔ ∀ entry ∈ c.view, entry.key ≠ key := by
  constructor
  · intro h entry hentry hkey
    obtain ⟨element, hmem, hvalue⟩ := mem_view.mp hentry
    have hsome := (hc.entries key element).mpr ⟨hmem, entry, hvalue, hkey⟩
    rw [h] at hsome
    cases hsome
  · intro h
    cases hentries : c.entries key with
    | none => rfl
    | some element =>
      obtain ⟨entry, -, hkey, hmem⟩ := hc.entry_of_key hentries
      exact absurd hkey (h entry hmem)

theorem Linked.element_eq (hc : c.Linked) {a b : Nat} {e f : CacheEntry ν} (ha : a ∈ c.list)
    (hb : b ∈ c.list) (he : c.values a = some e) (hf : c.values b = some f)
    (hkey : e.key = f.key) : a = b := by
  have hfirst := (hc.entries e.key a).mpr ⟨ha, e, he, rfl⟩
  have hsecond := (hc.entries e.key b).mpr ⟨hb, f, hf, hkey.symm⟩
  exact Option.some.inj (hfirst.symm.trans hsecond)

theorem Linked.length_view (hc : c.Linked) : c.view.length = c.list.length := by
  have hheld := hc.held
  unfold view
  generalize c.list = l at hheld
  induction l with
  | nil => rfl
  | cons a l ih =>
    obtain ⟨entry, hentry⟩ := hheld a List.mem_cons_self
    rw [List.filterMap_cons_some hentry, List.length_cons, List.length_cons,
      ih fun element hmem => hheld element (List.mem_cons_of_mem a hmem)]

theorem Linked.view_erase (hc : c.Linked) (hmem : element ∈ c.list)
    (hvalue : c.values element = some entry) :
    (c.list.erase element).filterMap c.values = c.view.filter fun e => e.key ≠ entry.key := by
  rw [hc.nodup.erase_eq_filter, view, List.filterMap_filter, List.filter_filterMap]
  apply List.filterMap_congr
  intro a ha
  obtain ⟨e, he⟩ := hc.held a ha
  rw [he, Option.filter_some]
  by_cases heq : a = element
  · subst heq
    obtain rfl : e = entry := Option.some.inj (he.symm.trans hvalue)
    simp
  · have hkey : e.key ≠ entry.key := fun hkey => heq (hc.element_eq ha hmem he hvalue hkey)
    simp [heq, hkey]

theorem Linked.remove (hc : c.Linked) (hmem : element ∈ c.list)
    (hvalue : c.values element = some entry) : ((c.remove element).delete entry.key).Linked where
  nodup := hc.nodup.erase element
  made a ha := hc.made a (List.mem_of_mem_erase ha)
  held a ha := hc.held a (List.mem_of_mem_erase ha)
  entries key a := by
    simp only [Cache.remove, Cache.delete, hc.nodup.mem_erase_iff]
    by_cases hkey : key = entry.key
    · subst hkey
      rw [Function.update_self]
      refine iff_of_false (by simp) ?_
      rintro ⟨⟨hne, ha⟩, e, he, hsame⟩
      exact hne (hc.element_eq ha hmem he hvalue hsame)
    · rw [Function.update_of_ne hkey, hc.entries key a]
      constructor
      · rintro ⟨ha, e, he, rfl⟩
        refine ⟨⟨fun heq => hkey ?_, ha⟩, e, he, rfl⟩
        subst heq
        rw [Option.some.inj (he.symm.trans hvalue)]
      · rintro ⟨⟨-, ha⟩, he⟩
        exact ⟨ha, he⟩

theorem Linked.moveToFront (hc : c.Linked) (hmem : element ∈ c.list)
    (hvalue : c.values element = some entry) : (c.moveToFront element).Linked ∧
      (c.moveToFront element).view = entry :: c.view.filter fun e => e.key ≠ entry.key := by
  rw [Cache.moveToFront, if_pos hmem]
  have hperm : ∀ a, a ∈ element :: c.list.erase element ↔ a ∈ c.list := by
    intro a
    exact (List.perm_cons_erase hmem).symm.mem_iff
  constructor
  · refine ⟨(List.perm_cons_erase hmem).nodup hc.nodup, ?_, ?_, ?_⟩
    · exact fun a ha => hc.made a ((hperm a).mp ha)
    · exact fun a ha => hc.held a ((hperm a).mp ha)
    · intro key a
      rw [hc.entries key a, ← hperm a]
  · rw [view, List.filterMap_cons_some hvalue, hc.view_erase hmem hvalue]

end View

section Cached

variable {c : Cache ν} {key : Text} {now : ℚ}

inductive Looked (c : Cache ν) (now : ℚ) (key : Text) : Option ν → Cache ν → Prop
  | missing (h : ∀ e ∈ c.view, e.key ≠ key) : Looked c now key none c
  | expired (c' : Cache ν) (e : CacheEntry ν) (he : e ∈ c.view) (hkey : e.key = key)
      (hexpired : e.expires ≤ now) (hview : c'.view = c.view.filter fun e => e.key ≠ key) :
      Looked c now key none c'
  | hit (c' : Cache ν) (e : CacheEntry ν) (he : e ∈ c.view) (hkey : e.key = key)
      (hnow : now < e.expires) (hview : c'.view = e :: c.view.filter fun e => e.key ≠ key) :
      Looked c now key (some e.value) c'

theorem Linked.cached (hc : c.Linked) (now : ℚ) (key : Text) :
    (c.cached now key).2.Linked ∧ Looked c now key (c.cached now key).1 (c.cached now key).2 := by
  cases hentries : c.entries key with
  | none =>
    simp only [Cache.cached, hentries]
    exact ⟨hc, .missing (hc.entries_eq_none.mp hentries)⟩
  | some element =>
    obtain ⟨hmem, e, hvalue, rfl⟩ := (hc.entries key element).mp hentries
    have he : e ∈ c.view := mem_view.mpr ⟨element, hmem, hvalue⟩
    simp only [Cache.cached, hentries, hvalue]
    split_ifs with hnow
    · obtain ⟨hlinked, hview⟩ := hc.moveToFront hmem hvalue
      exact ⟨hlinked, .hit _ e he rfl hnow hview⟩
    · exact ⟨hc.remove hmem hvalue, .expired _ e he rfl (not_lt.mp hnow) (hc.view_erase hmem hvalue)⟩

end Cached

section Store

variable {c : Cache ν} {size : Int} {key : Text}

theorem Linked.evict (hc : c.Linked) (hsize : 0 ≤ size) (turns : Nat)
    (hturns : c.list.length < turns) :
    ∃ c', evict size turns c = some c' ∧ c'.Linked ∧ c'.view = c.view.take size.toNat := by
  induction turns generalizing c with
  | zero => omega
  | succ turns ih =>
    rw [Cache.evict]
    split_ifs with hlong
    · obtain ⟨kept, oldest, hlist⟩ : ∃ kept oldest, c.list = kept ++ [oldest] := by
        refine (List.eq_nil_or_concat' c.list).resolve_left fun hnil => ?_
        rw [hnil, List.length_nil] at hlong
        omega
      have hmem : oldest ∈ c.list := by simp [hlist]
      obtain ⟨entry, hvalue⟩ := hc.held oldest hmem
      have herase : c.list.erase oldest = kept := by
        have hnot : oldest ∉ kept := by
          have hnodup := hc.nodup
          rw [hlist] at hnodup
          exact fun h => (List.nodup_append.mp hnodup).2.2 oldest h oldest (by simp) rfl
        rw [hlist, List.erase_append_right _ hnot, List.erase_cons_head, List.append_nil]
      have hlength : c.list.length = kept.length + 1 := by simp [hlist]
      obtain ⟨c', hc', hlinked, hview⟩ := ih (hc.remove hmem hvalue)
        (by simp only [Cache.remove, Cache.delete, herase]; omega)
      refine ⟨c', ?_, hlinked, hview.trans ?_⟩
      · rw [← hc', hlist, List.getLast?_concat]
        simp [hvalue]
      · have hkept : ((c.remove oldest).delete entry.key).view = kept.filterMap c.values := by
          simp only [view, Cache.remove, Cache.delete, herase]
        have hfirst : (kept.filterMap c.values).length = kept.length := by
          rw [← hkept, (hc.remove hmem hvalue).length_view]
          simp only [Cache.remove, Cache.delete, herase]
        rw [hkept, view, hlist, List.filterMap_append,
          List.take_append_of_le_length (by rw [hfirst]; omega)]
    · refine ⟨c, rfl, hc, (List.take_of_length_le ?_).symm⟩
      rw [hc.length_view]
      omega

theorem Linked.pushFront (hc : c.Linked) (entry : CacheEntry ν)
    (hnew : ∀ e ∈ c.view, e.key ≠ entry.key) : (c.pushFront entry.key entry).Linked ∧
      (c.pushFront entry.key entry).view = entry :: c.view := by
  have hne : ∀ a ∈ c.list, a ≠ c.made := fun a ha heq => absurd (hc.made a ha) (by omega)
  have hold : ∀ a ∈ c.list, Function.update c.values c.made (some entry) a = c.values a :=
    fun a ha => Function.update_of_ne (hne a ha) _ _
  constructor
  · refine ⟨List.nodup_cons.mpr ⟨fun h => hne c.made h rfl, hc.nodup⟩, ?_, ?_, ?_⟩
    · intro a ha
      obtain rfl | ha := List.mem_cons.mp ha
      · exact Nat.lt_succ_self _
      · exact Nat.lt_succ_of_lt (hc.made a ha)
    · intro a ha
      obtain rfl | ha := List.mem_cons.mp ha
      · exact ⟨entry, Function.update_self ..⟩
      · obtain ⟨e, he⟩ := hc.held a ha
        exact ⟨e, (hold a ha).trans he⟩
    · intro key a
      simp only [Cache.pushFront, List.mem_cons]
      by_cases ha : a = c.made
      · subst ha
        rw [Function.update_self]
        by_cases hkey : key = entry.key
        · subst hkey
          rw [Function.update_self]
          simp
        · rw [Function.update_of_ne hkey]
          refine iff_of_false (fun h => ?_) (by simpa using Ne.symm hkey)
          exact hne _ ((hc.entries key _).mp h).1 rfl
      · rw [Function.update_of_ne ha, or_iff_right ha]
        by_cases hkey : key = entry.key
        · subst hkey
          rw [Function.update_self]
          refine iff_of_false (by simpa using Ne.symm ha) ?_
          rintro ⟨hmem, e, he, hsame⟩
          exact hnew e (mem_view.mpr ⟨a, hmem, he⟩) hsame
        · rw [Function.update_of_ne hkey, hc.entries key a]
  · rw [view, Cache.pushFront, List.filterMap_cons_some (Function.update_self ..)]
    exact congrArg (entry :: ·) (List.filterMap_congr hold)

theorem Linked.setValue (hc : c.Linked) {element : Nat} {old entry : CacheEntry ν}
    (hmem : element ∈ c.list) (hvalue : c.values element = some old) (hkey : entry.key = old.key) :
    (c.setValue element entry).Linked := by
  have hkeys : ∀ a key, (∃ e, c.values a = some e ∧ e.key = key) ↔
      ∃ e, Function.update c.values element (some entry) a = some e ∧ e.key = key := by
    intro a key
    by_cases ha : a = element
    · subst ha
      simp [hvalue, hkey]
    · rw [Function.update_of_ne ha]
  refine ⟨hc.nodup, hc.made, ?_, ?_⟩
  · intro a ha
    obtain ⟨e, he⟩ := hc.held a ha
    obtain ⟨e', he', -⟩ := (hkeys a e.key).mp ⟨e, he, rfl⟩
    exact ⟨e', he'⟩
  · intro key a
    rw [Cache.setValue, hc.entries key a, hkeys a key]

/-- A call of `store` ends; its entry goes to the front, and what no longer fits is gone. -/
theorem Linked.store (hc : c.Linked) (hsize : 0 < size) (hlength : c.view.length ≤ size.toNat)
    (ttl : ν → ℚ) (now : ℚ) (key : Text) (value : ν) :
    ∃ c', c.store size ttl now key value = some c' ∧ c'.Linked ∧
      c'.view = ((⟨key, value, now + ttl value⟩ : CacheEntry ν) ::
        c.view.filter fun e => e.key ≠ key).take size.toNat := by
  generalize hentry : (⟨key, value, now + ttl value⟩ : CacheEntry ν) = entry
  have hkey : entry.key = key := by rw [← hentry]
  cases hentries : c.entries key with
  | none =>
    have hnew := hc.entries_eq_none.mp hentries
    obtain ⟨hlinked, hview⟩ := hc.pushFront entry (by rwa [hkey])
    obtain ⟨c', hc', hlinked', hview'⟩ := hlinked.evict hsize.le (c.list.length + 2)
      (by simp [Cache.pushFront])
    refine ⟨c', ?_, hlinked', ?_⟩
    · rw [← hc', Cache.store, hentries, hentry, hkey]
    · rw [hview', hview, List.filter_eq_self.mpr]
      simpa using hnew
  | some element =>
    obtain ⟨hmem, old, hvalue, hold⟩ := (hc.entries key element).mp hentries
    have hset := hc.setValue hmem hvalue (hkey.trans hold.symm)
    obtain ⟨hlinked, hview⟩ := hset.moveToFront hmem (Function.update_self ..)
    refine ⟨_, by rw [Cache.store, hentries, hentry], hlinked, ?_⟩
    have hrest : (c.setValue element entry).view.filter (fun e => e.key ≠ entry.key) =
        c.view.filter fun e => e.key ≠ key := by
      rw [← hset.view_erase hmem (Function.update_self ..), ← hold, ← hc.view_erase hmem hvalue]
      apply List.filterMap_congr
      intro a ha
      have hne : a ≠ element := ((hc.nodup.mem_erase_iff).mp ha).1
      exact Function.update_of_ne hne _ _
    rw [hview, hrest, List.take_of_length_le]
    have hless : (c.view.filter fun e => e.key ≠ key).length < c.view.length := by
      apply List.length_filter_lt_length_iff_exists.mpr
      exact ⟨old, mem_view.mpr ⟨element, hmem, hvalue⟩, by simp [hold]⟩
    rw [List.length_cons]
    omega

end Store

end Cache

section History

variable {size : Int} {ttl : ν → ℚ} {σ σ' : CacheState ν} {e : CacheEvent ν} {r : CacheAnswer ν}
  {t : List (Entry (CacheState ν) (CacheEvent ν) (CacheAnswer ν))}
  {x : Entry (CacheState ν) (CacheEvent ν) (CacheAnswer ν)} {key : Text}

def usedKey (x : Entry (CacheState ν) (CacheEvent ν) (CacheAnswer ν)) : Option Text :=
  match x.event, x.response with
  | .store key _, _ => some key
  | .cached key, .found _ => some key
  | _, _ => none

def uses (t : List (Entry (CacheState ν) (CacheEvent ν) (CacheAnswer ν))) : List Text :=
  t.filterMap usedKey

def storedBy (key : Text) (x : Entry (CacheState ν) (CacheEvent ν) (CacheAnswer ν)) :
    Option (ν × ℚ) :=
  match x.event with
  | .store k value => if k = key then some (value, x.before.clock) else none
  | _ => none

def lastStored (t : List (Entry (CacheState ν) (CacheEvent ν) (CacheAnswer ν))) (key : Text) :
    Option (ν × ℚ) :=
  (t.filterMap (storedBy key)).getLast?

theorem uses_snoc : uses (t ++ [x]) = uses t ++ (usedKey x).toList := by
  rw [uses, List.filterMap_append]
  cases h : usedKey x <;> simp [uses, h]

theorem lastStored_snoc : lastStored (t ++ [x]) key = (storedBy key x).or (lastStored t key) := by
  rw [lastStored, List.filterMap_append, List.getLast?_append]
  cases h : storedBy key x <;> simp [lastStored, h]

structure Kept (size : Int) (ttl : ν → ℚ)
    (t : List (Entry (CacheState ν) (CacheEvent ν) (CacheAnswer ν))) (σ : CacheState ν) : Prop where
  linked : σ.cache.Linked
  bounded : σ.cache.view.length ≤ size.toNat
  order : InOrder (uses t) (σ.cache.view.map CacheEntry.key).reverse
  stored : ∀ e ∈ σ.cache.view, ∃ time, lastStored t e.key = some (e.value, time) ∧
    e.expires = time + ttl e.value
  absent : ∀ key value time, lastStored t key = some (value, time) →
    (∀ e ∈ σ.cache.view, e.key ≠ key) →
      time + ttl value ≤ σ.clock ∨ Displaced size.toNat (uses t) key

theorem Kept.start (size : Int) (ttl : ν → ℚ) (clock : ℚ) :
    Kept size ttl [] (CacheState.start clock) where
  linked := ⟨List.nodup_nil, by simp [CacheState.start], by simp [CacheState.start], by
    simp [CacheState.start]⟩
  bounded := Nat.zero_le _
  order := inOrder_nil
  stored := by simp [CacheState.start, Cache.view]
  absent := by simp [lastStored]

inductive CacheStepped (size : Int) (ttl : ν → ℚ) (σ : CacheState ν) :
    CacheEvent ν → CacheAnswer ν → CacheState ν → Prop
  | tick (clock : ℚ) (h : σ.clock ≤ clock) :
      CacheStepped size ttl σ (.tick clock) .done { σ with clock := clock }
  | missing (key : Text) (h : ∀ e ∈ σ.cache.view, e.key ≠ key) :
      CacheStepped size ttl σ (.cached key) .missing σ
  | expired (cache : Cache ν) (e : CacheEntry ν) (he : e ∈ σ.cache.view)
      (hexpired : e.expires ≤ σ.clock)
      (hview : cache.view = σ.cache.view.filter fun f => f.key ≠ e.key) :
      CacheStepped size ttl σ (.cached e.key) .missing { σ with cache := cache }
  | hit (cache : Cache ν) (e : CacheEntry ν) (he : e ∈ σ.cache.view) (hnow : σ.clock < e.expires)
      (hview : cache.view = e :: σ.cache.view.filter fun f => f.key ≠ e.key) :
      CacheStepped size ttl σ (.cached e.key) (.found e.value) { σ with cache := cache }
  | stored (key : Text) (value : ν) (cache : Cache ν)
      (hview : cache.view = ((⟨key, value, σ.clock + ttl value⟩ : CacheEntry ν) ::
        σ.cache.view.filter fun e => e.key ≠ key).take size.toNat) :
      CacheStepped size ttl σ (.store key value) .done { σ with cache := cache }

theorem cacheStepped (hsize : 0 < size) (hlinked : σ.cache.Linked)
    (hbounded : σ.cache.view.length ≤ size.toNat) (h : cacheStep size ttl σ e = some (r, σ')) :
    σ'.cache.Linked ∧ CacheStepped size ttl σ e r σ' := by
  cases e with
  | tick clock =>
    obtain ⟨hclock, heq⟩ := Option.ite_none_right_eq_some.mp h
    obtain ⟨rfl, rfl⟩ := Prod.mk.inj (Option.some.inj heq)
    exact ⟨hlinked, .tick clock hclock⟩
  | cached key =>
    obtain ⟨hcache, hlooked⟩ := hlinked.cached σ.clock key
    simp only [cacheStep] at h
    generalize σ.cache.cached σ.clock key = looked at h hcache hlooked
    obtain ⟨value, cache⟩ := looked
    obtain ⟨rfl, rfl⟩ := Prod.mk.inj (Option.some.inj h)
    refine ⟨hcache, ?_⟩
    cases hlooked with
    | missing hmissing => exact .missing key hmissing
    | expired _ e he hkey hexpired hview =>
      subst hkey
      exact .expired cache e he hexpired hview
    | hit _ e he hkey hnow hview =>
      subst hkey
      exact .hit cache e he hnow hview
  | store key value =>
    obtain ⟨cache, hcache, hlinked', hview⟩ := hlinked.store hsize hbounded ttl σ.clock key value
    obtain ⟨cache', hcache', heq⟩ := Option.map_eq_some_iff.mp h
    obtain rfl := Option.some.inj (hcache.symm.trans hcache')
    obtain ⟨rfl, rfl⟩ := Prod.mk.inj heq
    exact ⟨hlinked', .stored key value cache hview⟩

theorem Kept.front (hσ : Kept size ttl t σ) (key : Text) : InOrder (uses t ++ [key])
    (key :: (σ.cache.view.filter fun f => f.key ≠ key).map CacheEntry.key).reverse := by
  rw [List.reverse_cons]
  refine (hσ.order.sublist (List.filter_sublist.map CacheEntry.key).reverse).snoc ?_
  simp

theorem Kept.stored_other (hσ : Kept size ttl t σ) {e : CacheEntry ν}
    (he : e ∈ σ.cache.view.filter fun f => f.key ≠ key) (hx : ∀ k ≠ key, storedBy k x = none) :
    ∃ time, lastStored (t ++ [x]) e.key = some (e.value, time) ∧ e.expires = time + ttl e.value := by
  obtain ⟨he, hkey⟩ := List.mem_filter.mp he
  rw [lastStored_snoc, hx e.key (by simpa using hkey), Option.none_or]
  exact hσ.stored e he

theorem Kept.step (hσ : Kept size ttl t σ) (hsize : 0 < size)
    (h : cacheStep size ttl σ e = some (r, σ')) : Kept size ttl (t ++ [⟨σ, e, r, σ'⟩]) σ' := by
  obtain ⟨hlinked, hstepped⟩ := cacheStepped hsize hσ.linked hσ.bounded h
  cases hstepped with
  | tick clock hclock =>
    refine ⟨hlinked, hσ.bounded, ?_, ?_, ?_⟩
    · simpa [uses_snoc, usedKey] using hσ.order
    · simpa [lastStored_snoc, storedBy] using hσ.stored
    · intro key value time hstored habsent
      rw [lastStored_snoc] at hstored
      rw [uses_snoc]
      obtain hexpired | hdisplaced := hσ.absent key value time hstored habsent
      · exact Or.inl (hexpired.trans hclock)
      · exact Or.inr (by simpa [usedKey] using hdisplaced)
  | missing key hmissing =>
    refine ⟨hlinked, hσ.bounded, ?_, ?_, ?_⟩
    · simpa [uses_snoc, usedKey] using hσ.order
    · simpa [lastStored_snoc, storedBy] using hσ.stored
    · simpa [uses_snoc, usedKey, lastStored_snoc, storedBy] using hσ.absent
  | expired cache e he hexpired hview =>
    have hsub : cache.view.Sublist σ.cache.view := hview ▸ List.filter_sublist
    refine ⟨hlinked, hsub.length_le.trans hσ.bounded, ?_, ?_, ?_⟩
    · rw [uses_snoc]
      simpa [usedKey] using hσ.order.sublist (hsub.map CacheEntry.key).reverse
    · intro f hf
      simpa [lastStored_snoc, storedBy] using hσ.stored f (hsub.subset hf)
    · intro key value time hstored habsent
      rw [lastStored_snoc] at hstored
      rw [uses_snoc]
      by_cases hkey : e.key = key
      · obtain ⟨time', hlast, htime⟩ := hσ.stored e he
        rw [hkey] at hlast
        obtain ⟨rfl, rfl⟩ := Prod.mk.inj (Option.some.inj (hlast.symm.trans hstored))
        exact Or.inl (htime ▸ hexpired)
      · have hold : ∀ f ∈ σ.cache.view, f.key ≠ key := by
          intro f hf heq
          refine habsent f ?_ heq
          change f ∈ cache.view
          rw [hview, List.mem_filter]
          exact ⟨hf, by simpa [heq] using Ne.symm hkey⟩
        obtain hexpired | hdisplaced := hσ.absent key value time hstored hold
        · exact Or.inl hexpired
        · exact Or.inr (by simpa [usedKey] using hdisplaced)
  | hit cache e he hnow hview =>
    have hrest : (σ.cache.view.filter fun f => f.key ≠ e.key).length < σ.cache.view.length :=
      List.length_filter_lt_length_iff_exists.mpr ⟨e, he, by simp⟩
    have hx : ∀ k, storedBy k ⟨σ, .cached e.key, .found e.value, { σ with cache := cache }⟩ = none :=
      fun k => rfl
    refine ⟨hlinked, ?_, ?_, ?_, ?_⟩
    · have hbounded := hσ.bounded
      rw [hview, List.length_cons]
      omega
    · rw [uses_snoc, hview]
      exact hσ.front e.key
    · intro f hf
      obtain rfl | hf := List.mem_cons.mp (hview ▸ hf)
      · rw [lastStored_snoc, hx, Option.none_or]
        exact hσ.stored f he
      · exact hσ.stored_other hf fun k _ => hx k
    · intro key value time hstored habsent
      have hne : key ≠ e.key := by
        rintro rfl
        exact habsent e (hview ▸ List.mem_cons_self) rfl
      have hold : ∀ f ∈ σ.cache.view, f.key ≠ key := by
        intro f hf heq
        refine habsent f (hview ▸ List.mem_cons_of_mem e (List.mem_filter.mpr ⟨hf, ?_⟩)) heq
        simpa [heq] using hne
      rw [lastStored_snoc, hx, Option.none_or] at hstored
      rw [uses_snoc]
      exact (hσ.absent key value time hstored hold).imp_right fun h => h.snoc hne
  | stored key value cache hview =>
    have hother : ∀ k ≠ key, storedBy k ⟨σ, .store key value, .done, { σ with cache := cache }⟩ =
        none := fun k hk => if_neg (Ne.symm hk)
    have hself : storedBy key ⟨σ, .store key value, .done, { σ with cache := cache }⟩ =
        some (value, σ.clock) := if_pos rfl
    generalize hentry : (⟨key, value, σ.clock + ttl value⟩ : CacheEntry ν) = entry at hview
    have hkey : entry.key = key := by rw [← hentry]
    -- the keys before the eviction
    have hfront := hσ.front key
    rw [← hkey, ← List.map_cons (f := CacheEntry.key), hkey,
      ← List.take_append_drop size.toNat (entry :: _), ← hview, List.map_append,
      List.reverse_append] at hfront
    refine ⟨hlinked, ?_, ?_, ?_, ?_⟩
    · rw [hview]
      exact List.length_take_le _ _
    · rw [uses_snoc]
      exact hfront.sublist (List.sublist_append_right _ _)
    · intro f hf
      obtain rfl | hf := List.mem_cons.mp (List.mem_of_mem_take (hview ▸ hf))
      · refine ⟨σ.clock, ?_, by rw [← hentry]⟩
        rw [hkey, lastStored_snoc, hself, Option.some_or, ← hentry]
      · exact hσ.stored_other hf hother
    · intro k v time hstored habsent
      have hne : k ≠ key := by
        rintro rfl
        refine habsent entry ?_ hkey
        rw [hview, show size.toNat = size.toNat - 1 + 1 by omega, List.take_succ_cons]
        exact List.mem_cons_self
      rw [lastStored_snoc, hother k hne, Option.none_or] at hstored
      rw [uses_snoc]
      by_cases hold : ∀ f ∈ σ.cache.view, f.key ≠ k
      · exact (hσ.absent k v time hstored hold).imp_right fun h => h.snoc hne
      · push Not at hold
        obtain ⟨f, hf, rfl⟩ := hold
        -- the entry was evicted by this call
        have hrest : f ∈ entry :: σ.cache.view.filter fun f => f.key ≠ key :=
          List.mem_cons_of_mem entry (List.mem_filter.mpr ⟨hf, by simpa using hne⟩)
        rw [← List.take_append_drop size.toNat (entry :: _), List.mem_append, ← hview] at hrest
        have hgone := hrest.resolve_left fun h => habsent f h rfl
        refine Or.inr (hfront.displaced (List.mem_reverse.mpr (List.mem_map_of_mem hgone)) ?_)
        have hlong := List.length_pos_of_mem hgone
        rw [List.length_drop] at hlong
        rw [List.length_reverse, List.length_map, hview, List.length_take]
        omega

theorem Kept.run (hsize : 0 < size) {clock : ℚ}
    (h : Run (cacheStep size ttl) (CacheState.start clock) t σ) : Kept size ttl t σ := by
  induction h with
  | nil => exact Kept.start size ttl clock
  | snoc _ hlast ih => exact ih.step hsize hlast

end History

end Noted.Imslp
