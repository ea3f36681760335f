import Noted.Library.Runs
import Noted.Search.Highlight
import Noted.Types

/-!
# The IMSLP search of the Prepare page (prepare-imslp.ts)

A search is sent some time after the last keystroke, and its answer comes later still;
`request`, `lastSent`, `stale` and `status` say whether what is on screen answers the
query in the field. `clearTimeout` reaches the timer set last, so that an older one may
still be armed. Here stand the methods that these take part in; the fields that only the
panel's template reads are left out.
-/

namespace Noted.Prepare

open Library
open LibraryPage (utf16Length)

variable (U : UnicodeTables)

/-- `text.replace(/\s+/g, ' ')`; the flag says that the run's space has been written. -/
def singleSpaces : Bool → Text → Text
  | _, [] => []
  | inRun, c :: cs =>
    if jsSpace c then if inRun then singleSpaces true cs else ' ' :: singleSpaces true cs
    else c :: singleSpaces false cs

def imslpQueryKey (query : Text) : Text :=
  Browser.toLowerCase U (singleSpaces false (jsTrim query))

def imslpCacheEntries : Nat := 20

inductive SearchStatus
  | idle
  | searching
  | ready
  | unavailable
  | throttled
  deriving DecidableEq

/-- The callbacks that timers run: the debounce, the retry of a throttled search, and the
quiet retry of one that was unavailable. -/
inductive Callback
  | debounce
  | throttled
  | unavailable (query : Text)
  deriving DecidableEq

/-- A search that was sent and whose observer is still subscribed. -/
structure SearchRequest where
  request : Nat
  key : Text
  query : Text
  retry : Bool
  deriving DecidableEq

inductive SearchResult
  | ready (results : List (IMSLPWork Char))
  | throttled
  | unavailable
  deriving DecidableEq

/-- The fields of the class, with the page's source mode and step. Below them stand the
timers that are armed, the requests under way, and the answers that have come, each with
the key it was asked for. -/
structure ImslpSearch where
  query : Text
  results : List (IMSLPWork Char)
  status : SearchStatus
  linkOpen : Bool
  stale : Bool
  request : Nat
  timer : Option Nat
  search : Option Nat
  lastSent : Text
  destroyed : Bool
  cache : List (Text × List (IMSLPWork Char))
  sourceMode : Text
  onSource : Bool
  timersSet : Nat
  timers : List (Nat × Callback)
  requests : List SearchRequest
  received : List (Text × List (IMSLPWork Char))
  deriving DecidableEq

inductive SearchEvent
  | type (query : Text)
  | enter
  | timer (n : Nat) (callback : Callback)
  | answer (q : SearchRequest) (result : SearchResult)
  | fail (q : SearchRequest)
  | chooseSource (mode : Text)
  | setStep (source : Bool)
  | destroy
  deriving DecidableEq

def SearchEvent.cancels : SearchEvent → Bool
  | .chooseSource mode => decide (mode ≠ "imslp".toList)
  | .setStep source => !source
  | .destroy => true
  | _ => false

namespace ImslpSearch

variable (σ : ImslpSearch)

def new : ImslpSearch :=
  ⟨[], [], .idle, false, false, 0, none, none, [], false, [], "all".toList, true, 0, [], [], []⟩

def panelOpen : Bool := σ.sourceMode == "imslp".toList && σ.onSource

def resultsStale : Bool := σ.stale || σ.status == .searching || σ.status == .throttled

def clearTimeout : ImslpSearch :=
  { σ with timers := σ.timers.filter fun p => some p.1 ≠ σ.timer }

def setTimeout (callback : Callback) : ImslpSearch :=
  { σ with
    timer := some σ.timersSet
    timersSet := σ.timersSet + 1
    timers := (σ.timersSet, callback) :: σ.timers }

def unsubscribe : ImslpSearch :=
  { σ with
    requests := σ.requests.filter fun q => some q.request ≠ σ.search
    search := none }

/-- The search under way is dropped, and the next one has a number of its own. -/
def supersede (lastSent : Text) : ImslpSearch :=
  { σ with request := σ.request + 1, lastSent := lastSent }.unsubscribe

def cancel : ImslpSearch :=
  let σ := σ.clearTimeout.supersede []
  { σ with
    stale := false
    status :=
      if σ.status = .searching ∨ σ.status = .throttled then
        if σ.results.isEmpty then .idle else .ready
      else σ.status }

def reset : ImslpSearch := { σ.cancel with status := .idle, results := [] }

/-- `Map` keeps the order in which keys were set. -/
def remember (key : Text) (works : List (IMSLPWork Char)) : ImslpSearch :=
  let cache := (σ.cache.filter fun p => p.1 ≠ key) ++ [(key, works)]
  { σ with cache := if imslpCacheEntries < cache.length then cache.tail else cache }

def display (key : Text) (works : List (IMSLPWork Char)) : ImslpSearch :=
  { σ.remember key works with status := .ready, results := works, stale := false }

def input : ImslpSearch :=
  let σ := σ.clearTimeout
  if utf16Length (jsTrim σ.query) < 2 then σ.reset
  else if imslpQueryKey U σ.query ≠ σ.lastSent then
    { σ.supersede [] with stale := true }.setTimeout .debounce
  else σ.setTimeout .debounce

/-- The request that `find` sends when it finds nothing cached. -/
def searchIMSLP (key query : Text) (retry : Bool) : ImslpSearch :=
  { σ with
    status := if retry then σ.status else .searching
    search := some σ.request
    requests := ⟨σ.request, key, query, retry⟩ :: σ.requests }

def find (immediate retry : Bool) : ImslpSearch :=
  let σ := σ.clearTimeout
  let query := jsTrim σ.query
  let key := imslpQueryKey U query
  if utf16Length query < 2 ∨ 100 < utf16Length query then σ.reset
  else if key = σ.lastSent ∧ immediate = false then σ
  else
    match σ.cache.find? fun p => p.1 == key with
    | some cached => (σ.supersede key).display key cached.2
    | none => (σ.supersede key).searchIMSLP key query retry

def unavailable (q : SearchRequest) : ImslpSearch :=
  let σ :=
    { σ with
      lastSent := []
      status := .unavailable
      results := []
      stale := false
      linkOpen := true }
  if q.retry then σ else σ.setTimeout (.unavailable q.query)

def settle (q : SearchRequest) : ImslpSearch := { σ with requests := σ.requests.erase q }

def receive (q : SearchRequest) (result : SearchResult) : ImslpSearch :=
  match result with
  | .ready results => { σ.settle q with received := (q.key, results) :: σ.received }
  | _ => σ.settle q

def next (q : SearchRequest) (result : SearchResult) : ImslpSearch :=
  if q.request ≠ σ.request ∨ σ.destroyed = true then σ
  else
    match result with
    | .ready results => σ.display q.key results
    | .throttled => { σ with lastSent := [], status := .throttled }.setTimeout .throttled
    | .unavailable => σ.unavailable q

def error (q : SearchRequest) : ImslpSearch :=
  if q.request ≠ σ.request ∨ σ.destroyed = true then σ else σ.unavailable q

def run (callback : Callback) : ImslpSearch :=
  match callback with
  | .debounce => σ.find U false false
  | .throttled => σ.find U true false
  | .unavailable query =>
    if jsTrim σ.query = query ∧ σ.panelOpen = true then σ.find U true true else σ

def step (σ : ImslpSearch) (e : SearchEvent) : Option (Unit × ImslpSearch) :=
  match e with
  | .type query => some ((), { σ with query := query }.input U)
  | .enter => some ((), σ.find U true false)
  | .timer n callback =>
    if (n, callback) ∈ σ.timers then
      some ((), { σ with timers := σ.timers.erase (n, callback) }.run U callback)
    else none
  | .answer q result =>
    if q ∈ σ.requests then some ((), (σ.receive q result).next q result) else none
  | .fail q => if q ∈ σ.requests then some ((), (σ.settle q).error q) else none
  | .chooseSource mode =>
    let σ := if mode ≠ "imslp".toList then σ.cancel else σ
    some ((), { σ with sourceMode := mode })
  | .setStep source =>
    let σ := if source then σ else σ.cancel
    some ((), { σ with onSource := source })
  | .destroy => some ((), { σ with destroyed := true }.cancel)

/-- What is on screen may be opened only as an answer to the query in the field. -/
def AnswersQuery : Prop :=
  σ.results ≠ [] → σ.resultsStale = false → (imslpQueryKey U σ.query, σ.results) ∈ σ.received

/-- Results that a changed query has made stale are still an answer to it. -/
def StaleAnswers : Prop :=
  σ.results ≠ [] → σ.stale = true → (imslpQueryKey U σ.query, σ.results) ∈ σ.received

structure Bounded : Prop where
  numbered : ∀ q ∈ σ.requests, q.request ≤ σ.request
  cached : ∀ p ∈ σ.cache, p ∈ σ.received

/-- What was sent last, and the latest request, are of the query in the field, and so are
the results that are not stale. -/
structure Sound : Prop extends σ.Bounded where
  sent : σ.lastSent = [] ∨ σ.lastSent = imslpQueryKey U σ.query
  asked : ∀ q ∈ σ.requests, q.request = σ.request → q.key = imslpQueryKey U σ.query
  fresh : σ.results ≠ [] → σ.stale = false → (imslpQueryKey U σ.query, σ.results) ∈ σ.received

section Facts

variable {U σ} {σ' : ImslpSearch} {e : SearchEvent} {q : SearchRequest} {key : Text}
  {works : List (IMSLPWork Char)} {callback : Callback} {query : Text} {immediate retry : Bool}

theorem singleSpaces_ne_nil {text : Text} (h : text ≠ []) : singleSpaces false text ≠ [] := by
  cases text with
  | nil => exact absurd rfl h
  | cons c cs =>
    by_cases hc : jsSpace c = true <;> simp [singleSpaces, hc]

theorem toLowerCase_ne_nil {text : Text} (h : text ≠ []) : Browser.toLowerCase U text ≠ [] := by
  cases text with
  | nil => exact absurd rfl h
  | cons c cs =>
    rw [Browser.toLowerCase, Browser.toLowerFrom]
    split_ifs <;> simp

theorem imslpQueryKey_ne_nil (h : ¬utf16Length (jsTrim query) < 2) :
    imslpQueryKey U query ≠ [] := by
  apply toLowerCase_ne_nil
  apply singleSpaces_ne_nil
  intro hnil
  rw [hnil] at h
  exact h (by decide)

theorem imslpQueryKey_jsTrim : imslpQueryKey U (jsTrim query) = imslpQueryKey U query := by
  have htrim : jsTrim (jsTrim query) = jsTrim query := trimBy_trimBy jsSpace query
  rw [imslpQueryKey, htrim, imslpQueryKey]

theorem Bounded.cached_remember (h : σ.Bounded) (hworks : (key, works) ∈ σ.received) :
    ∀ p ∈ (σ.remember key works).cache, p ∈ σ.received := by
  intro p hp
  have hmem : p ∈ (σ.cache.filter fun p => p.1 ≠ key) ++ [(key, works)] := by
    unfold remember at hp
    dsimp only at hp
    split_ifs at hp
    · exact List.mem_of_mem_tail hp
    · exact hp
  obtain hold | hnew := List.mem_append.mp hmem
  · exact h.cached p (List.mem_of_mem_filter hold)
  · rw [List.mem_singleton.mp hnew]
    exact hworks

theorem Sound.of_eq (h : σ.Sound U) (hquery : σ'.query = σ.query) (hresults : σ'.results = σ.results)
    (hstale : σ'.stale = σ.stale) (hrequest : σ'.request = σ.request)
    (hlastSent : σ'.lastSent = σ.lastSent ∨ σ'.lastSent = []) (hcache : σ'.cache = σ.cache)
    (hrequests : σ'.requests ⊆ σ.requests) (hreceived : σ.received ⊆ σ'.received) :
    σ'.Sound U := by
  refine ⟨⟨?_, ?_⟩, ?_, ?_, ?_⟩
  · intro q hq
    rw [hrequest]
    exact h.numbered q (hrequests hq)
  · intro p hp
    rw [hcache] at hp
    exact hreceived (h.cached p hp)
  · obtain hsame | hnil := hlastSent
    · rw [hsame, hquery]
      exact h.sent
    · exact Or.inl hnil
  · intro q hq hlatest
    rw [hquery]
    exact h.asked q (hrequests hq) (hlatest.trans hrequest)
  · intro hne hfresh
    rw [hresults] at hne
    rw [hstale] at hfresh
    rw [hquery, hresults]
    exact hreceived (h.fresh hne hfresh)

theorem Sound.of_superseded (hrequest : σ'.request = σ.request + 1)
    (hrequests : ∀ q ∈ σ'.requests, q.request ≤ σ.request)
    (hcache : ∀ p ∈ σ'.cache, p ∈ σ'.received)
    (hsent : σ'.lastSent = [] ∨ σ'.lastSent = imslpQueryKey U σ'.query)
    (hfresh : σ'.results ≠ [] → σ'.stale = false →
      (imslpQueryKey U σ'.query, σ'.results) ∈ σ'.received) : σ'.Sound U := by
  refine ⟨⟨?_, hcache⟩, hsent, ?_, hfresh⟩
  · intro q hq
    have hle := hrequests q hq
    omega
  · intro q hq hlatest
    have hle := hrequests q hq
    omega

theorem cancel_resultsStale : σ.cancel.resultsStale = false := by
  have hstatus : σ.cancel.status ≠ .searching ∧ σ.cancel.status ≠ .throttled := by
    show (if σ.status = .searching ∨ σ.status = .throttled then _ else σ.status) ≠ _ ∧
      (if σ.status = .searching ∨ σ.status = .throttled then _ else σ.status) ≠ _
    split_ifs with hsearching hempty
    · exact ⟨by decide, by decide⟩
    · exact ⟨by decide, by decide⟩
    · exact not_or.mp hsearching
  have hstale : σ.cancel.stale = false := rfl
  simp [resultsStale, hstale, hstatus.1, hstatus.2]

theorem Bounded.clearTimeout (h : σ.Bounded) : σ.clearTimeout.Bounded := ⟨h.numbered, h.cached⟩

theorem Sound.clearTimeout (h : σ.Sound U) : σ.clearTimeout.Sound U :=
  h.of_eq rfl rfl rfl rfl (Or.inl rfl) rfl (fun _ hq => hq) fun _ hp => hp

theorem Sound.setTimeout (h : σ.Sound U) : (σ.setTimeout callback).Sound U :=
  h.of_eq rfl rfl rfl rfl (Or.inl rfl) rfl (fun _ hq => hq) fun _ hp => hp

theorem Bounded.supersede (h : σ.Bounded) :
    ∀ q ∈ (σ.supersede key).requests, q.request ≤ σ.request :=
  fun q hq => h.numbered q (List.mem_of_mem_filter hq)

theorem Bounded.cancel (h : σ.Bounded)
    (hfresh : σ.results ≠ [] → (imslpQueryKey U σ.query, σ.results) ∈ σ.received) :
    σ.cancel.Sound U :=
  Sound.of_superseded rfl h.clearTimeout.supersede h.cached (Or.inl rfl) fun hne _ => hfresh hne

theorem Bounded.reset (h : σ.Bounded) : σ.reset.Sound U :=
  Sound.of_superseded rfl h.clearTimeout.supersede h.cached (Or.inl rfl) fun hne _ => absurd rfl hne

theorem Sound.numbered_key (h : σ.Sound U) (hkey : imslpQueryKey U query = σ.lastSent)
    (hlong : ¬utf16Length (jsTrim query) < 2) :
    imslpQueryKey U query = imslpQueryKey U σ.query := by
  obtain hnil | hsent := h.sent
  · exact absurd (hkey.trans hnil) (imslpQueryKey_ne_nil hlong)
  · exact hkey.trans hsent

/-- A keystroke that leaves the key as it is keeps what is sound; after every other one
nothing on screen counts. -/
theorem Sound.type (h : σ.Sound U) : ({ σ with query := query }.input U).Sound U := by
  have hbounded : { σ with query := query }.clearTimeout.Bounded := ⟨h.numbered, h.cached⟩
  unfold input
  dsimp only
  split_ifs with hshort hother
  · exact hbounded.reset
  · refine Sound.setTimeout ?_
    exact Sound.of_superseded rfl hbounded.supersede h.cached (Or.inl rfl)
      fun _ hfresh => Bool.noConfusion hfresh
  · refine Sound.setTimeout ?_
    have hkey : imslpQueryKey U query = imslpQueryKey U σ.query :=
      h.numbered_key (not_not.mp hother) hshort
    refine ⟨hbounded, Or.inr (not_not.mp hother).symm, ?_, ?_⟩
    · intro q hq hlatest
      exact (h.asked q hq hlatest).trans hkey.symm
    · intro hne hfresh
      show (imslpQueryKey U query, σ.results) ∈ σ.received
      rw [hkey]
      exact h.fresh hne hfresh

theorem Bounded.display (h : σ.Bounded) (hkey : key = imslpQueryKey U σ.query)
    (hsent : σ.lastSent = [] ∨ σ.lastSent = imslpQueryKey U σ.query)
    (hasked : ∀ q ∈ σ.requests, q.request = σ.request → q.key = imslpQueryKey U σ.query)
    (hworks : (key, works) ∈ σ.received) : (σ.display key works).Sound U := by
  refine ⟨⟨h.numbered, h.cached_remember hworks⟩, hsent, hasked, ?_⟩
  intro _ _
  show (imslpQueryKey U σ.query, works) ∈ σ.received
  rw [← hkey]
  exact hworks

theorem Sound.find (h : σ.Sound U) : (σ.find U immediate retry).Sound U := by
  have hbounded : σ.clearTimeout.Bounded := h.clearTimeout.toBounded
  have hkey : imslpQueryKey U (jsTrim σ.query) = imslpQueryKey U σ.query := imslpQueryKey_jsTrim
  have hsuper : (σ.clearTimeout.supersede (imslpQueryKey U (jsTrim σ.query))).Sound U :=
    Sound.of_superseded rfl hbounded.supersede h.cached (Or.inr hkey) h.fresh
  unfold ImslpSearch.find
  dsimp only
  by_cases hlength : utf16Length (jsTrim σ.query) < 2 ∨ 100 < utf16Length (jsTrim σ.query)
  · rw [if_pos (by exact hlength)]
    exact hbounded.reset
  rw [if_neg (by exact hlength)]
  by_cases hagain : imslpQueryKey U (jsTrim σ.query) = σ.lastSent ∧ immediate = false
  · rw [if_pos (by exact hagain)]
    exact h.clearTimeout
  rw [if_neg (by exact hagain)]
  split
  · rename_i cached hcached
    have hname : cached.1 = imslpQueryKey U (jsTrim σ.query) := by
      have hfound := List.find?_some hcached
      exact eq_of_beq hfound
    have hreceived := h.cached cached (List.mem_of_find?_eq_some hcached)
    rw [← Prod.eta cached, hname] at hreceived
    exact hsuper.toBounded.display hkey hsuper.sent hsuper.asked hreceived
  · refine ⟨⟨?_, h.cached⟩, Or.inr hkey, ?_, h.fresh⟩
    · intro q hq
      obtain rfl | hold := List.mem_cons.mp hq
      · exact Nat.le_refl _
      · exact hsuper.numbered q hold
    · intro q hq hlatest
      obtain rfl | hold := List.mem_cons.mp hq
      · exact hkey
      · exact hsuper.asked q hold hlatest

theorem Sound.unavailable (h : σ.Sound U) : (σ.unavailable q).Sound U := by
  have hempty : ({ σ with
      lastSent := []
      status := .unavailable
      results := []
      stale := false
      linkOpen := true } : ImslpSearch).Sound U :=
    ⟨⟨h.numbered, h.cached⟩, Or.inl rfl, h.asked, fun hne _ => absurd rfl hne⟩
  unfold ImslpSearch.unavailable
  dsimp only
  split_ifs
  · exact hempty
  · exact hempty.setTimeout

theorem receive_eq (σ : ImslpSearch) (q : SearchRequest) (result : SearchResult) :
    ∃ received, σ.received ⊆ received ∧
      σ.receive q result = { σ.settle q with received := received } := by
  cases result with
  | ready results => exact ⟨_, fun _ hp => List.mem_cons_of_mem _ hp, rfl⟩
  | throttled => exact ⟨_, fun _ hp => hp, rfl⟩
  | unavailable => exact ⟨_, fun _ hp => hp, rfl⟩

theorem Sound.settle (h : σ.Sound U) : (σ.settle q).Sound U :=
  h.of_eq rfl rfl rfl rfl (Or.inl rfl) rfl (fun _ hq => List.mem_of_mem_erase hq) fun _ hp => hp

theorem Sound.receive (h : σ.Sound U) (result : SearchResult) : (σ.receive q result).Sound U := by
  obtain ⟨received, hsub, heq⟩ := receive_eq σ q result
  rw [heq]
  exact h.settle.of_eq rfl rfl rfl rfl (Or.inl rfl) rfl (fun _ hq => hq) hsub

theorem Sound.answer (h : σ.Sound U) (hq : q ∈ σ.requests) (result : SearchResult) :
    ((σ.receive q result).next q result).Sound U := by
  have hreceive : (σ.receive q result).Sound U := h.receive result
  have hframe : (σ.receive q result).request = σ.request ∧
      (σ.receive q result).query = σ.query := by
    obtain ⟨received, -, heq⟩ := receive_eq σ q result
    rw [heq]
    exact ⟨rfl, rfl⟩
  unfold next
  split_ifs with hignored
  · exact hreceive
  have hlatest : q.request = σ.request := (not_not.mp (not_or.mp hignored).1).trans hframe.1
  cases result with
  | ready results =>
    have hkey : q.key = imslpQueryKey U σ.query := h.asked q hq hlatest
    exact hreceive.toBounded.display hkey hreceive.sent hreceive.asked (List.mem_cons_self ..)
  | throttled =>
    refine Sound.setTimeout ?_
    exact hreceive.of_eq rfl rfl rfl rfl (Or.inr rfl) rfl (fun _ hq => hq) fun _ hp => hp
  | unavailable => exact hreceive.unavailable

theorem Sound.error (h : σ.Sound U) : (σ.error q).Sound U := by
  unfold ImslpSearch.error
  split_ifs
  · exact h
  · exact h.unavailable

theorem Sound.run (h : σ.Sound U) : (σ.run U callback).Sound U := by
  cases callback with
  | debounce => exact h.find
  | throttled => exact h.find
  | unavailable query =>
    unfold ImslpSearch.run
    dsimp only
    split_ifs
    · exact h.find
    · exact h

theorem Sound.cancel (h : σ.Sound U) (hstale : σ.StaleAnswers U) : σ.cancel.Sound U := by
  refine h.toBounded.cancel ?_
  intro hne
  cases hfresh : σ.stale with
  | false => exact h.fresh hne hfresh
  | true => exact hstale hne hfresh

theorem Sound.step (h : σ.Sound U) (hstale : e.cancels = true → σ.StaleAnswers U)
    (hstep : σ.step U e = some ((), σ')) : σ'.Sound U := by
  have paged : ∀ τ : ImslpSearch, τ.Sound U → ∀ mode source,
      ({ τ with sourceMode := mode, onSource := source } : ImslpSearch).Sound U := by
    intro τ hτ mode source
    exact hτ.of_eq rfl rfl rfl rfl (Or.inl rfl) rfl (fun _ hq => hq) fun _ hp => hp
  cases e with
  | type query =>
    cases hstep
    exact h.type
  | enter =>
    cases hstep
    exact h.find
  | timer n callback =>
    obtain ⟨-, heq⟩ := Option.ite_none_right_eq_some.mp hstep
    cases heq
    refine Sound.run ?_
    exact h.of_eq rfl rfl rfl rfl (Or.inl rfl) rfl (fun _ hq => hq) fun _ hp => hp
  | answer q result =>
    obtain ⟨hq, heq⟩ := Option.ite_none_right_eq_some.mp hstep
    cases heq
    exact h.answer hq result
  | fail q =>
    obtain ⟨-, heq⟩ := Option.ite_none_right_eq_some.mp hstep
    cases heq
    exact h.settle.error
  | chooseSource mode =>
    cases hstep
    by_cases hleaves : mode ≠ "imslp".toList
    · rw [if_pos hleaves]
      exact paged σ.cancel (h.cancel (hstale (decide_eq_true hleaves))) _ _
    · rw [if_neg hleaves]
      exact paged σ h _ _
  | setStep source =>
    cases hstep
    cases source with
    | true => exact paged σ h _ _
    | false => exact paged σ.cancel (h.cancel (hstale rfl)) _ _
  | destroy =>
    cases hstep
    have hdestroyed : ({ σ with destroyed := true } : ImslpSearch).Sound U :=
      h.of_eq rfl rfl rfl rfl (Or.inl rfl) rfl (fun _ hq => hq) fun _ hp => hp
    exact hdestroyed.cancel (hstale rfl)

theorem staleAnswers_of_answers (he : e.cancels = true) (hstep : σ.step U e = some ((), σ'))
    (hanswers : σ'.AnswersQuery U) : σ.StaleAnswers U := by
  intro hne _
  cases e with
  | chooseSource mode =>
    cases hstep
    rw [if_pos (of_decide_eq_true he)] at hanswers
    exact hanswers hne cancel_resultsStale
  | setStep source =>
    cases source with
    | true => cases he
    | false =>
      cases hstep
      exact hanswers hne cancel_resultsStale
  | destroy =>
    cases hstep
    exact hanswers hne cancel_resultsStale
  | type query => cases he
  | enter => cases he
  | timer n callback => cases he
  | answer q result => cases he
  | fail q => cases he

theorem Sound.answers (h : σ.Sound U) : σ.AnswersQuery U := by
  intro hne hopen
  have hstale : σ.stale = false := by
    simp only [resultsStale, Bool.or_eq_false_iff] at hopen
    exact hopen.1.1
  exact h.fresh hne hstale

theorem sound_new : new.Sound U := by
  refine ⟨⟨?_, ?_⟩, Or.inl rfl, ?_, fun hne => absurd rfl hne⟩
  · intro q hq
    cases hq
  · intro p hp
    cases hp
  · intro q hq
    cases hq

end Facts

/-- In a run what may be opened always answers the query in the field if and only if, at
each leaving of the panel, the step or the page, the stale results on screen do. -/
theorem results_answer_query {t : List (Entry ImslpSearch SearchEvent Unit)} {σ : ImslpSearch}
    (h : Run (step U) new t σ) :
    (∀ x ∈ t, x.after.AnswersQuery U) ↔
      ∀ x ∈ t, x.event.cancels = true → x.before.StaleAnswers U := by
  constructor
  · intro hanswers x hx he
    obtain ⟨u, v, rfl⟩ := List.append_of_mem hx
    obtain ⟨-, hstep, -⟩ := h.at_entry
    exact staleAnswers_of_answers he hstep (hanswers x hx)
  · intro hstale x hx
    obtain ⟨hsound, hkeeps, hstep⟩ := h.at_mem_of (P := Sound U)
      (fun {s e r s'} hs hkeeps hstep => hs.step hkeeps hstep) sound_new hstale hx
    exact (hsound.step hkeeps hstep).answers

/-- The results for Chopin go stale when Liszt is typed. The panel is closed and opened
again before the debounce, and they may be opened, while Liszt stands in the field. -/
theorem not_results_answer_query :
    ¬∀ t σ, Run (step basicTables) new t σ → σ.AnswersQuery basicTables := by
  intro hall
  let nocturne : IMSLPWork Char :=
    ⟨"Nocturne".toList, "Chopin, Frédéric".toList, "https://imslp.org/wiki/Nocturne".toList⟩
  let chopin : SearchRequest := ⟨2, "chopin".toList, "Chopin".toList, false⟩
  obtain ⟨t, σ, hrun, h⟩ : ∃ t σ, Run (step basicTables) new t σ ∧
      (σ.panelOpen && σ.query == "Liszt".toList && σ.results == [nocturne] && !σ.resultsStale &&
        !σ.received.contains (imslpQueryKey basicTables σ.query, σ.results)) = true :=
    exists_run [.chooseSource "imslp".toList, .type "Chopin".toList, .timer 0 .debounce,
      .answer chopin (.ready [nocturne]), .type "Liszt".toList, .chooseSource "all".toList,
      .chooseSource "imslp".toList] (by decide +kernel)
  simp only [Bool.and_eq_true, beq_iff_eq, Bool.not_eq_true', List.contains_eq_mem,
    decide_eq_false_iff_not] at h
  obtain ⟨⟨⟨-, hresults⟩, hopen⟩, hreceived⟩ := h
  have hne : σ.results ≠ [] := by
    rw [hresults]
    exact List.cons_ne_nil _ _
  exact hreceived (hall t σ hrun hne hopen)

theorem results_answer_query_open : ∃ t σ, Run (step basicTables) new t σ ∧
    σ.results.length = 1 ∧ σ.resultsStale = false ∧ ∀ x ∈ t, x.after.AnswersQuery basicTables := by
  let nocturne : IMSLPWork Char :=
    ⟨"Nocturne".toList, "Chopin, Frédéric".toList, "https://imslp.org/wiki/Nocturne".toList⟩
  let etude : IMSLPWork Char :=
    ⟨"Étude".toList, "Liszt, Franz".toList, "https://imslp.org/wiki/Etude".toList⟩
  obtain ⟨t, σ, hrun, h⟩ : ∃ t σ, Run (step basicTables) new t σ ∧
      (σ.results.length == 1 && !σ.resultsStale && t.all fun x => !x.event.cancels) = true :=
    exists_run [.chooseSource "imslp".toList, .type "Chopin".toList, .timer 0 .debounce,
      .answer ⟨2, "chopin".toList, "Chopin".toList, false⟩ (.ready [nocturne]),
      .type "Liszt".toList, .timer 1 .debounce,
      .answer ⟨4, "liszt".toList, "Liszt".toList, false⟩ (.ready [etude])] (by decide +kernel)
  simp only [Bool.and_eq_true, beq_iff_eq, Bool.not_eq_true', List.all_eq_true] at h
  obtain ⟨⟨hlength, hopen⟩, hstays⟩ := h
  refine ⟨t, σ, hrun, hlength, hopen, ?_⟩
  refine (results_answer_query basicTables hrun).mpr fun x hx hcancels => ?_
  exact Bool.noConfusion (hcancels.symm.trans (hstays x hx))

end ImslpSearch

end Noted.Prepare
