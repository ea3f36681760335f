import Noted.Library.Choice
import Noted.Library.Runs
import Noted.LibraryPage.View

/-!
# The library's address (library.store.ts, library.utils.ts)

The store's search, filter and sort, what it takes the server to remember of the
latter two, the saves of the choices, and the address. A handler up to its next
`await` is one step, and so is the effect that writes the address, which runs some
time after a signal it reads has changed. The preferences are read from the server at
one step and arrive at a later one, and a save is begun, carried out and answered at
steps of its own.
-/

namespace Noted.LibraryPage

open Library

/-- What the library reads of an address; the parameter `show` is `shows`. -/
structure LibraryParams where
  q : Option Text
  shows : Option Text
  sort : Option Text
  deriving DecidableEq

structure AddressedView where
  query : Option Text
  filter : Option LibraryFilter
  sort : Option LibrarySort
  deriving DecidableEq

def viewFromParams (params : LibraryParams) : AddressedView where
  query := params.q.filter fun query => !query.isEmpty
  filter := LIBRARY_FILTERS.find? fun option => some option.value = params.shows
  sort := LIBRARY_SORTS.find? fun option => some option.value = params.sort

structure Preferences where
  libraryFilter : LibraryFilter
  librarySort : LibrarySort
  deriving DecidableEq

/-- `explicit` says of the filter and of the sort whether this tab chose it or the
address already carried it. -/
def paramsOfView (view : LibraryView) (remembered : Preferences) (explicit : Bool × Bool) :
    LibraryParams where
  q := if view.query ≠ [] then some view.query else none
  shows :=
    if explicit.1 ∧ (view.filter ≠ .current ∨ view.filter ≠ remembered.libraryFilter) then
      some view.filter.value
    else none
  sort :=
    if explicit.2 ∧ (view.sort ≠ .title ∨ view.sort ≠ remembered.librarySort) then
      some view.sort.value
    else none

def addressKey (params : LibraryParams) : Text × Text × Text :=
  (params.q.getD [], params.shows.getD [], params.sort.getD [])

inductive PreferenceChange
  | libraryFilter (chosen : LibraryFilter)
  | librarySort (chosen : LibrarySort)
  deriving DecidableEq

def PreferenceChange.apply (p : Preferences) : PreferenceChange → Preferences
  | .libraryFilter chosen => { p with libraryFilter := chosen }
  | .librarySort chosen => { p with librarySort := chosen }

/-- The store, the preferences on their way to it, the save under way with whether the
server has carried it out, the saves behind it, what the server remembers, the effect
that is due, and the address. -/
structure AddressStore where
  query : Text
  filter : Choice LibraryFilter
  sort : Choice LibrarySort
  preferences : Load Preferences
  running : Option (PreferenceChange × Bool)
  preferenceSave : List PreferenceChange
  server : Preferences
  scheduled : Bool
  address : LibraryParams
  writtenAddress : Option (Text × Text × Text)
  deriving DecidableEq

inductive AddressEvent
  | search (query : Text)
  | chooseFilter (filter : LibraryFilter)
  | chooseSort (sort : LibrarySort)
  | readPreferences
  | loadPreferences
  | savePreference
  | apply
  | succeed
  | fail
  | writeAddress
  deriving DecidableEq

/-- A page opened on an address, with details=new in it or not. -/
def openedAt (params : LibraryParams) (details : Bool) (server : Preferences) : AddressStore where
  query := (viewFromParams params).query.getD []
  filter := .opened .current (viewFromParams params).filter
  sort := .opened .title (viewFromParams params).sort
  preferences := .sent
  running := none
  preferenceSave := []
  server := server
  scheduled := true
  address := params
  writtenAddress := if details then none else some (addressKey params)

namespace AddressStore

variable (σ : AddressStore)

def preferencesSettled : Bool := σ.preferences == .arrived

def view : LibraryView := ⟨σ.query, σ.filter.shown, σ.sort.shown⟩

def remembered : Preferences := ⟨σ.filter.remembered, σ.sort.remembered⟩

def params : LibraryParams :=
  paramsOfView σ.view σ.remembered
    (σ.filter.addressed.isSome || σ.filter.chosen, σ.sort.addressed.isSome || σ.sort.chosen)

def signals : LibraryView × Preferences × Bool := (σ.view, σ.remembered, σ.preferencesSettled)

def notify (σ' : AddressStore) : AddressStore :=
  { σ' with scheduled := σ'.scheduled || σ'.signals != σ.signals }

/-- Choosing the filter already shown, once the server's copy is known, changes nothing. -/
def chooseFilter (filter : LibraryFilter) : AddressStore :=
  if σ.preferencesSettled = true ∧ filter = σ.filter.shown ∧ filter = σ.filter.remembered then σ
  else
    σ.notify { σ with
      filter := σ.filter.choose filter
      preferenceSave := σ.preferenceSave ++ [.libraryFilter filter] }

def chooseSort (sort : LibrarySort) : AddressStore :=
  if σ.preferencesSettled = true ∧ sort = σ.sort.shown ∧ sort = σ.sort.remembered then σ
  else
    σ.notify { σ with
      sort := σ.sort.choose sort
      preferenceSave := σ.preferenceSave ++ [.librarySort sort] }

def loadPreferences (stored : Preferences) : AddressStore :=
  σ.notify { σ with
    filter := σ.filter.arrive stored.libraryFilter
    sort := σ.sort.arrive stored.librarySort
    preferences := .arrived }

/-- A newer choice is queued behind one that is no longer shown, and saves itself. -/
def isShown : PreferenceChange → Bool
  | .libraryFilter chosen => chosen == σ.filter.shown
  | .librarySort chosen => chosen == σ.sort.shown

def savePreference (change : PreferenceChange) (queue : List PreferenceChange) : AddressStore :=
  { σ with
    preferenceSave := queue
    running := if σ.isShown change then some (change, false) else none }

def saved (change : PreferenceChange) : AddressStore :=
  σ.notify (match change with
    | .libraryFilter chosen => { σ with running := none, filter := σ.filter.succeed chosen }
    | .librarySort chosen => { σ with running := none, sort := σ.sort.succeed chosen })

def writeAddress : AddressStore :=
  if σ.preferencesSettled = true ∧ some (addressKey σ.params) ≠ σ.writtenAddress then
    { σ with
      scheduled := false
      address := σ.params
      writtenAddress := some (addressKey σ.params) }
  else { σ with scheduled := false }

def step (σ : AddressStore) (e : AddressEvent) : Option (Unit × AddressStore) :=
  match e with
  | .search query => some ((), σ.notify { σ with query := query })
  | .chooseFilter filter => some ((), σ.chooseFilter filter)
  | .chooseSort sort => some ((), σ.chooseSort sort)
  | .readPreferences =>
    if σ.preferences = .sent then some ((), { σ with preferences := .read σ.server }) else none
  | .loadPreferences =>
    match σ.preferences with
    | .read stored => some ((), σ.loadPreferences stored)
    | _ => none
  | .savePreference =>
    match σ.running, σ.preferenceSave with
    | none, change :: queue => some ((), σ.savePreference change queue)
    | _, _ => none
  | .apply =>
    match σ.running with
    | some (change, false) =>
      some ((), { σ with running := some (change, true), server := change.apply σ.server })
    | _ => none
  | .succeed =>
    match σ.running with
    | some (change, true) => some ((), σ.saved change)
    | _ => none
  | .fail =>
    match σ.running with
    | some (_, false) => some ((), { σ with running := none })
    | _ => none
  | .writeAddress => if σ.scheduled = true then some ((), σ.writeAddress) else none

def Quiet : Prop :=
  σ.preferences = .arrived ∧ σ.running = none ∧ σ.preferenceSave = [] ∧ σ.scheduled = false

/-- The page opened on the address, once the server's preferences have arrived. -/
def reopened : AddressStore := (openedAt σ.address false σ.server).loadPreferences σ.server

def Reopens : Prop :=
  σ.reopened.filter.shown = σ.filter.shown ∧ σ.reopened.sort.shown = σ.sort.shown

end AddressStore

/-- One of the two choices that the store keeps: which changes are of it, what the
server remembers of it, and what the store keeps of it. -/
structure Part (α : Type) where
  pick : PreferenceChange → Option α
  stored : Preferences → α
  choice : AddressStore → Choice α

def PreferenceChange.filter? : PreferenceChange → Option LibraryFilter
  | .libraryFilter chosen => some chosen
  | .librarySort _ => none

def PreferenceChange.sort? : PreferenceChange → Option LibrarySort
  | .libraryFilter _ => none
  | .librarySort chosen => some chosen

def filterPart : Part LibraryFilter := ⟨PreferenceChange.filter?, (·.libraryFilter), (·.filter)⟩

def sortPart : Part LibrarySort := ⟨PreferenceChange.sort?, (·.librarySort), (·.sort)⟩

namespace Part

variable {α : Type} (P : Part α) (σ : AddressStore)

def of : Remembered α where
  toChoice := P.choice σ
  server := P.stored σ.server
  load := σ.preferences.map P.stored
  running := σ.running.bind fun q => (P.pick q.1).map (·, q.2)
  queue := σ.preferenceSave.filterMap P.pick

def ChoosesOrStays (σ' : AddressStore) : Prop :=
  P.of σ' = P.of σ ∨
    ∃ v, P.of σ' =
      { P.of σ with toChoice := (P.of σ).choose v, queue := (P.of σ).queue ++ [v] }

structure Lawful [DecidableEq α] : Prop where
  frame : ∀ σ σ', σ'.filter = σ.filter → σ'.sort = σ.sort → P.choice σ' = P.choice σ
  chooseFilter : ∀ σ filter, P.ChoosesOrStays σ (σ.chooseFilter filter)
  chooseSort : ∀ σ sort, P.ChoosesOrStays σ (σ.chooseSort sort)
  loadPreferences : ∀ σ p, P.choice (σ.loadPreferences p) = (P.choice σ).arrive (P.stored p)
  isShown : ∀ σ c v, P.pick c = some v → σ.isShown c = (v == (P.choice σ).shown)
  apply : ∀ p c, P.stored (PreferenceChange.apply p c) = (P.pick c).getD (P.stored p)
  saved : ∀ σ c,
    P.choice (σ.saved c) = (P.pick c).elim (P.choice σ) (P.choice σ).succeed

end Part

theorem filterPart_lawful : filterPart.Lawful where
  frame _ _ hfilter _ := hfilter
  chooseFilter σ filter := by
    unfold AddressStore.chooseFilter
    split_ifs
    · exact Or.inl rfl
    · refine Or.inr ⟨filter, ?_⟩
      simp only [Part.of, filterPart, AddressStore.notify, List.filterMap_append]
      rfl
  chooseSort σ sort := by
    unfold AddressStore.chooseSort
    split_ifs
    · exact Or.inl rfl
    · refine Or.inl ?_
      simp [Part.of, filterPart, AddressStore.notify, PreferenceChange.filter?]
  loadPreferences _ _ := rfl
  isShown σ c v h := by
    cases c with
    | libraryFilter chosen =>
      obtain rfl := Option.some.inj h
      rfl
    | librarySort chosen => cases h
  apply p c := by cases c <;> rfl
  saved σ c := by cases c <;> rfl

theorem sortPart_lawful : sortPart.Lawful where
  frame _ _ _ hsort := hsort
  chooseFilter σ filter := by
    unfold AddressStore.chooseFilter
    split_ifs
    · exact Or.inl rfl
    · refine Or.inl ?_
      simp [Part.of, sortPart, AddressStore.notify, PreferenceChange.sort?]
  chooseSort σ sort := by
    unfold AddressStore.chooseSort
    split_ifs
    · exact Or.inl rfl
    · refine Or.inr ⟨sort, ?_⟩
      simp only [Part.of, sortPart, AddressStore.notify, List.filterMap_append]
      rfl
  loadPreferences _ _ := rfl
  isShown σ c v h := by
    cases c with
    | libraryFilter chosen => cases h
    | librarySort chosen =>
      obtain rfl := Option.some.inj h
      rfl
  apply p c := by cases c <;> rfl
  saved σ c := by cases c <;> rfl

def AddressEvent.isAction : AddressEvent → Bool
  | .chooseFilter _ | .chooseSort _ => true
  | _ => false

section Steps

variable {α : Type} [DecidableEq α] {P : Part α} {σ σ' : AddressStore} {e : AddressEvent} {r : Unit}

theorem Part.Lawful.of_eq (hP : P.Lawful) (σ : AddressStore) {ρ : Remembered α}
    (hfilter : σ'.filter = σ.filter) (hsort : σ'.sort = σ.sort)
    (hchoice : ρ.toChoice = P.choice σ) (hserver : P.stored σ'.server = ρ.server)
    (hload : (P.of σ').load = ρ.load)
    (hrunning : (P.of σ').running = ρ.running) (hqueue : (P.of σ').queue = ρ.queue) :
    P.of σ' = ρ := by
  have hsame := (hP.frame σ σ' hfilter hsort).trans hchoice.symm
  cases ρ
  simp only [Part.of] at *
  simp only [hsame, hserver, hload, hrunning, hqueue]

theorem Part.Lawful.step_savePreference (hP : P.Lawful) {c : PreferenceChange}
    {queue : List PreferenceChange} (hidle : σ.running = none)
    (hqueue : σ.preferenceSave = c :: queue) :
    (P.of σ).Step .quiet (P.of (σ.savePreference c queue)) := by
  have hrunning : (P.of σ).running = none := by simp [Part.of, hidle]
  cases hpick : P.pick c with
  | none =>
    have hsame : P.of (σ.savePreference c queue) = P.of σ := by
      refine hP.of_eq σ rfl rfl rfl rfl rfl ?_ ?_
      · rw [hrunning]
        by_cases hshown : σ.isShown c = true
        · simp [Part.of, AddressStore.savePreference, hshown, hpick]
        · simp [Part.of, AddressStore.savePreference, hshown]
      · simp [Part.of, AddressStore.savePreference, hqueue, hpick]
    rw [hsame]
    exact .stay
  | some v =>
    have hof : (P.of σ).queue = v :: queue.filterMap P.pick := by
      simp [Part.of, hqueue, hpick]
    have hshown := hP.isShown σ c v hpick
    by_cases hv : v = (P.choice σ).shown
    · rw [hv, beq_self_eq_true] at hshown
      have heq : P.of (σ.savePreference c queue) =
          { P.of σ with running := some (v, false), queue := queue.filterMap P.pick } := by
        refine hP.of_eq σ rfl rfl rfl rfl rfl ?_ rfl
        simp [Part.of, AddressStore.savePreference, hshown, hpick]
      rw [heq]
      exact .start hrunning hof hv
    · rw [beq_eq_false_iff_ne.mpr hv] at hshown
      have heq : P.of (σ.savePreference c queue) =
          { P.of σ with queue := queue.filterMap P.pick } := by
        refine hP.of_eq σ rfl rfl rfl rfl rfl ?_ rfl
        simp [Part.of, AddressStore.savePreference, hshown, hidle]
      rw [heq]
      exact .skip hrunning hof hv

theorem Part.Lawful.step_apply (hP : P.Lawful) {c : PreferenceChange}
    (hrunning : σ.running = some (c, false)) :
    (P.of σ).Step .quiet
      (P.of { σ with running := some (c, true), server := c.apply σ.server }) := by
  have hstored := hP.apply σ.server c
  have hof : (P.of σ).running = (P.pick c).map (·, false) := by simp [Part.of, hrunning]
  cases hpick : P.pick c with
  | none =>
    rw [hpick] at hstored hof
    have hsame : P.of { σ with running := some (c, true), server := c.apply σ.server } =
        P.of σ := by
      refine hP.of_eq σ rfl rfl rfl hstored rfl ?_ rfl
      rw [hof]
      simp [Part.of, hpick]
    rw [hsame]
    exact .stay
  | some v =>
    rw [hpick] at hstored hof
    have heq : P.of { σ with running := some (c, true), server := c.apply σ.server } =
        { P.of σ with running := some (v, true), server := v } := by
      refine hP.of_eq σ rfl rfl rfl hstored rfl ?_ rfl
      simp [Part.of, hpick]
    rw [heq]
    exact .apply hof

theorem Part.Lawful.step_saved (hP : P.Lawful) {c : PreferenceChange}
    (hrunning : σ.running = some (c, true)) : (P.of σ).Step .quiet (P.of (σ.saved c)) := by
  have hof : (P.of σ).running = (P.pick c).map (·, true) := by simp [Part.of, hrunning]
  have hchoice := hP.saved σ c
  have hrest : P.of (σ.saved c) =
      { P.of σ with toChoice := P.choice (σ.saved c), running := none } := by
    cases c <;> rfl
  rw [hrest, hchoice]
  cases hpick : P.pick c with
  | none =>
    rw [hpick, Option.map_none] at hof
    have hsame : { P.of σ with toChoice := P.choice σ, running := none } = P.of σ := by
      rw [← hof]
      rfl
    rw [Option.elim_none, hsame]
    exact .stay
  | some v =>
    rw [hpick] at hof
    exact .succeed hof

theorem Part.Lawful.step_fail (hP : P.Lawful) {c : PreferenceChange}
    (hrunning : σ.running = some (c, false)) :
    ((P.of σ).running.isSome = true ∧ (P.of σ).Step .fail (P.of { σ with running := none })) ∨
      ((P.of σ).running.isSome = false ∧ P.of { σ with running := none } = P.of σ) := by
  have hof : (P.of σ).running = (P.pick c).map (·, false) := by simp [Part.of, hrunning]
  cases hpick : P.pick c with
  | none =>
    rw [hpick] at hof
    exact Or.inr ⟨by simp [hof], hP.of_eq σ rfl rfl rfl rfl rfl hof.symm rfl⟩
  | some v =>
    rw [hpick] at hof
    have heq : P.of { σ with running := none } = { P.of σ with running := none } :=
      hP.of_eq σ rfl rfl rfl rfl rfl rfl rfl
    exact Or.inl ⟨by simp [hof], heq ▸ .fail hof⟩

inductive AddressStore.Moves (σ : AddressStore) : AddressEvent → AddressStore → Prop
  | search (query : Text) : Moves σ (.search query) (σ.notify { σ with query := query })
  | chooseFilter (filter : LibraryFilter) : Moves σ (.chooseFilter filter) (σ.chooseFilter filter)
  | chooseSort (sort : LibrarySort) : Moves σ (.chooseSort sort) (σ.chooseSort sort)
  | readPreferences : σ.preferences = .sent →
      Moves σ .readPreferences { σ with preferences := .read σ.server }
  | loadPreferences {stored : Preferences} : σ.preferences = .read stored →
      Moves σ .loadPreferences (σ.loadPreferences stored)
  | savePreference {change : PreferenceChange} {queue : List PreferenceChange} :
      σ.running = none → σ.preferenceSave = change :: queue →
      Moves σ .savePreference (σ.savePreference change queue)
  | apply {change : PreferenceChange} : σ.running = some (change, false) →
      Moves σ .apply { σ with running := some (change, true), server := change.apply σ.server }
  | succeed {change : PreferenceChange} : σ.running = some (change, true) →
      Moves σ .succeed (σ.saved change)
  | fail {change : PreferenceChange} : σ.running = some (change, false) →
      Moves σ .fail { σ with running := none }
  | writeAddress : σ.scheduled = true → Moves σ .writeAddress σ.writeAddress

theorem AddressStore.moves_of_step (h : σ.step e = some (r, σ')) : σ.Moves e σ' := by
  cases e with
  | search query =>
    obtain ⟨-, rfl⟩ := Prod.mk.inj (Option.some.inj h)
    exact .search query
  | chooseFilter filter =>
    obtain ⟨-, rfl⟩ := Prod.mk.inj (Option.some.inj h)
    exact .chooseFilter filter
  | chooseSort sort =>
    obtain ⟨-, rfl⟩ := Prod.mk.inj (Option.some.inj h)
    exact .chooseSort sort
  | readPreferences =>
    obtain ⟨hsent, heq⟩ := Option.ite_none_right_eq_some.mp h
    obtain ⟨-, rfl⟩ := Prod.mk.inj (Option.some.inj heq)
    exact .readPreferences hsent
  | loadPreferences =>
    simp only [step] at h
    split at h
    · obtain ⟨-, rfl⟩ := Prod.mk.inj (Option.some.inj h)
      exact .loadPreferences ‹_›
    · cases h
  | savePreference =>
    simp only [step] at h
    split at h
    · obtain ⟨-, rfl⟩ := Prod.mk.inj (Option.some.inj h)
      exact .savePreference ‹_› ‹_›
    · cases h
  | apply =>
    simp only [step] at h
    split at h
    · obtain ⟨-, rfl⟩ := Prod.mk.inj (Option.some.inj h)
      exact .apply ‹_›
    · cases h
  | succeed =>
    simp only [step] at h
    split at h
    · obtain ⟨-, rfl⟩ := Prod.mk.inj (Option.some.inj h)
      exact .succeed ‹_›
    · cases h
  | fail =>
    simp only [step] at h
    split at h
    · obtain ⟨-, rfl⟩ := Prod.mk.inj (Option.some.inj h)
      exact .fail ‹_›
    · cases h
  | writeAddress =>
    obtain ⟨hscheduled, heq⟩ := Option.ite_none_right_eq_some.mp h
    obtain ⟨-, rfl⟩ := Prod.mk.inj (Option.some.inj heq)
    exact .writeAddress hscheduled

theorem Part.ChoosesOrStays.step (h : P.ChoosesOrStays σ σ') :
    ∃ k, (P.of σ).Step k (P.of σ') ∧ k ≠ .fail := by
  obtain heq | ⟨v, heq⟩ := h
  · exact ⟨.quiet, heq ▸ .stay, by simp⟩
  · exact ⟨.choose, heq ▸ .choose v, by simp⟩

theorem Part.Lawful.step (hP : P.Lawful) (h : σ.Moves e σ') :
    ∃ k, (P.of σ).Step k (P.of σ') ∧ (k = .choose → e.isAction = true) ∧
      (k = .fail → e = .fail) := by
  cases h with
  | search query =>
    have hsame : P.of (σ.notify { σ with query := query }) = P.of σ :=
      hP.of_eq σ rfl rfl rfl rfl rfl rfl rfl
    exact ⟨.quiet, hsame ▸ .stay, by simp, by simp⟩
  | chooseFilter filter =>
    obtain ⟨k, hstep, hk⟩ := (hP.chooseFilter σ filter).step
    exact ⟨k, hstep, fun _ => rfl, fun hfail => absurd hfail hk⟩
  | chooseSort sort =>
    obtain ⟨k, hstep, hk⟩ := (hP.chooseSort σ sort).step
    exact ⟨k, hstep, fun _ => rfl, fun hfail => absurd hfail hk⟩
  | readPreferences hsent =>
    have heq : P.of { σ with preferences := .read σ.server } =
        { P.of σ with load := .read (P.of σ).server } := hP.of_eq σ rfl rfl rfl rfl rfl rfl rfl
    have hload : (P.of σ).load = .sent := by simp [Part.of, hsent, Load.map]
    exact ⟨.quiet, heq ▸ .read hload, by simp, by simp⟩
  | @loadPreferences stored hread =>
    have hload : (P.of σ).load = .read (P.stored stored) := by simp [Part.of, hread, Load.map]
    have heq : P.of (σ.loadPreferences stored) =
        { P.of σ with toChoice := (P.of σ).arrive (P.stored stored), load := .arrived } := by
      rw [show (P.of σ).toChoice = P.choice σ from rfl, ← hP.loadPreferences]
      rfl
    exact ⟨.quiet, heq ▸ .arrive hload, by simp, by simp⟩
  | savePreference hidle hqueue =>
    exact ⟨.quiet, hP.step_savePreference hidle hqueue, by simp, by simp⟩
  | apply hrunning => exact ⟨.quiet, hP.step_apply hrunning, by simp, by simp⟩
  | succeed hrunning => exact ⟨.quiet, hP.step_saved hrunning, by simp, by simp⟩
  | fail hrunning =>
    obtain ⟨-, hstep⟩ | ⟨-, hsame⟩ := hP.step_fail hrunning
    · exact ⟨.fail, hstep, by simp, fun _ => rfl⟩
    · exact ⟨.quiet, hsame ▸ .stay, by simp, by simp⟩
  | writeAddress _ =>
    have hsame : P.of σ.writeAddress = P.of σ := by
      unfold AddressStore.writeAddress
      split_ifs
      · exact hP.of_eq σ rfl rfl rfl rfl rfl rfl rfl
      · exact hP.of_eq σ rfl rfl rfl rfl rfl rfl rfl
    exact ⟨.quiet, hsame ▸ .stay, by simp, by simp⟩

end Steps

section Written

def viewOfKey (key : Text × Text × Text) : AddressedView where
  query := if key.1 = [] then none else some key.1
  filter := LIBRARY_FILTERS.find? fun option => option.value = key.2.1
  sort := LIBRARY_SORTS.find? fun option => option.value = key.2.2

theorem viewFromParams_eq (params : LibraryParams) :
    viewFromParams params = viewOfKey (addressKey params) := by
  obtain ⟨q, shows, sort⟩ := params
  have hquery : q.filter (fun query => !query.isEmpty) =
      if q.getD [] = [] then none else some (q.getD []) := by
    cases q with
    | none => rfl
    | some q => cases q <;> simp
  have hfilter : LIBRARY_FILTERS.find? (fun option => some option.value = shows) =
      LIBRARY_FILTERS.find? fun option => option.value = shows.getD [] := by
    cases shows with
    | none => decide
    | some shows => simp
  have hsort : LIBRARY_SORTS.find? (fun option => some option.value = sort) =
      LIBRARY_SORTS.find? fun option => option.value = sort.getD [] := by
    cases sort with
    | none => decide
    | some sort => simp
  simp only [viewFromParams, viewOfKey, addressKey, hquery, hfilter, hsort]
  rfl

theorem find_filter (named : Option LibraryFilter) :
    LIBRARY_FILTERS.find? (fun option => some option.value = named.map LibraryFilter.value) =
      named := by
  cases named with
  | none => rfl
  | some filter => cases filter <;> decide

theorem find_sort (named : Option LibrarySort) :
    LIBRARY_SORTS.find? (fun option => some option.value = named.map LibrarySort.value) =
      named := by
  cases named with
  | none => rfl
  | some sort => cases sort <;> decide

variable {σ σ' : AddressStore} {e : AddressEvent} {r : Unit}

theorem AddressStore.viewFromParams_filter (σ : AddressStore) :
    (viewFromParams σ.params).filter = σ.filter.named .current := by
  have hshows : σ.params.shows = (σ.filter.named .current).map LibraryFilter.value := by
    unfold Choice.named
    split_ifs with hnamed
    · exact if_pos hnamed
    · exact if_neg hnamed
  rw [viewFromParams, hshows]
  exact find_filter _

theorem AddressStore.viewFromParams_sort (σ : AddressStore) :
    (viewFromParams σ.params).sort = σ.sort.named .title := by
  have hsort : σ.params.sort = (σ.sort.named .title).map LibrarySort.value := by
    unfold Choice.named
    split_ifs with hnamed
    · exact if_pos hnamed
    · exact if_neg hnamed
  rw [viewFromParams, hsort]
  exact find_sort _

theorem AddressStore.viewFromParams_query (σ : AddressStore) :
    (viewFromParams σ.params).query = if σ.query = [] then none else some σ.query := by
  rw [viewFromParams_eq]
  by_cases h : σ.query = []
  · simp [viewOfKey, addressKey, params, paramsOfView, view, h]
  · simp [viewOfKey, addressKey, params, paramsOfView, view, h]

theorem AddressStore.viewFromParams_congr (hquery : σ'.query = σ.query)
    (hfilter : σ'.filter.named .current = σ.filter.named .current)
    (hsort : σ'.sort.named .title = σ.sort.named .title) :
    viewFromParams σ'.params = viewFromParams σ.params := by
  have hq := σ.viewFromParams_query
  have hf := σ.viewFromParams_filter
  have hs := σ.viewFromParams_sort
  rw [← hquery, ← σ'.viewFromParams_query] at hq
  rw [← hfilter, ← σ'.viewFromParams_filter] at hf
  rw [← hsort, ← σ'.viewFromParams_sort] at hs
  cases h : viewFromParams σ.params
  cases h' : viewFromParams σ'.params
  rw [h, h'] at hq hf hs
  simp_all

/-- The address written is the page's, and once the effect is not due it opens on the
view shown. -/
structure AddressStore.Written (σ : AddressStore) : Prop where
  key : ∀ k, σ.writtenAddress = some k → addressKey σ.address = k
  view : σ.preferences = .arrived → σ.scheduled = false →
    viewFromParams σ.address = viewFromParams σ.params

theorem AddressStore.notify_due (h : (σ.notify σ').scheduled = false) :
    σ'.scheduled = false ∧ σ'.signals = σ.signals := by
  simpa [notify] using h

theorem AddressStore.Written.of_eq (h : σ.Written) (haddress : σ'.address = σ.address)
    (hwritten : σ'.writtenAddress = σ.writtenAddress)
    (hview : σ'.preferences = .arrived → σ'.scheduled = false →
      σ.preferences = .arrived ∧ σ.scheduled = false ∧ σ'.query = σ.query ∧
        σ'.filter.named .current = σ.filter.named .current ∧
        σ'.sort.named .title = σ.sort.named .title) : σ'.Written := by
  refine ⟨?_, ?_⟩
  · rw [haddress, hwritten]
    exact h.key
  · intro harrived hdue
    obtain ⟨harrived, hdue, hquery, hfilter, hsort⟩ := hview harrived hdue
    rw [haddress, h.view harrived hdue]
    exact (viewFromParams_congr hquery hfilter hsort).symm

theorem AddressStore.written_openedAt (params : LibraryParams) (details : Bool)
    (server : Preferences) : (openedAt params details server).Written := by
  refine ⟨?_, ?_⟩
  · intro k hk
    cases details with
    | true => cases hk
    | false => exact Option.some.inj hk
  · intro harrived
    cases harrived

theorem AddressStore.Written.writeAddress (h : σ.Written) : σ.writeAddress.Written := by
  unfold AddressStore.writeAddress
  split_ifs with hnew
  · refine ⟨?_, fun _ _ => rfl⟩
    intro k hk
    exact Option.some.inj hk
  · refine ⟨h.key, ?_⟩
    intro harrived _
    have hsettled : σ.preferencesSettled = true := by simpa [preferencesSettled] using harrived
    simp only [hsettled, true_and, not_not] at hnew
    have hkey := h.key _ hnew.symm
    have hview : viewFromParams σ.address = viewFromParams σ.params := by
      rw [viewFromParams_eq, hkey, viewFromParams_eq σ.params]
    exact hview

theorem named_congr {α : Type} [DecidableEq α] {c c' : Choice α} {d : α}
    (hshown : c'.shown = c.shown) (hremembered : c'.remembered = c.remembered)
    (hexplicit : (c'.addressed.isSome || c'.chosen) = (c.addressed.isSome || c.chosen)) :
    c'.named d = c.named d := by
  rw [Choice.named, hshown, hremembered, hexplicit, Choice.named]

theorem AddressStore.Written.step (h : σ.Written) (hfilter : (filterPart.of σ).Sound)
    (hsort : (sortPart.of σ).Sound) (hmoves : σ.Moves e σ') : σ'.Written := by
  cases hmoves with
  | search query =>
    refine h.of_eq rfl rfl ?_
    intro harrived hdue
    obtain ⟨hdue, hsignals⟩ := notify_due hdue
    have hview := congrArg Prod.fst hsignals
    exact ⟨harrived, hdue, congrArg LibraryView.query hview, rfl, rfl⟩
  | chooseFilter filter =>
    unfold AddressStore.chooseFilter
    split_ifs with hsame
    · exact h
    refine h.of_eq rfl rfl ?_
    intro harrived hdue
    obtain ⟨hdue, hsignals⟩ := notify_due hdue
    obtain rfl : filter = σ.filter.shown :=
      congrArg LibraryView.filter (congrArg Prod.fst hsignals)
    have hload : (filterPart.of σ).load = .arrived := by
      rw [Part.of, show σ.preferences = .arrived from harrived]
      rfl
    have hne : σ.filter.shown ≠ σ.filter.remembered := by
      intro heq
      exact hsame ⟨beq_iff_eq.mpr harrived, rfl, heq⟩
    exact ⟨harrived, hdue, rfl, hfilter.named_choose hload hne, rfl⟩
  | chooseSort sort =>
    unfold AddressStore.chooseSort
    split_ifs with hsame
    · exact h
    refine h.of_eq rfl rfl ?_
    intro harrived hdue
    obtain ⟨hdue, hsignals⟩ := notify_due hdue
    obtain rfl : sort = σ.sort.shown :=
      congrArg LibraryView.sort (congrArg Prod.fst hsignals)
    have hload : (sortPart.of σ).load = .arrived := by
      rw [Part.of, show σ.preferences = .arrived from harrived]
      rfl
    have hne : σ.sort.shown ≠ σ.sort.remembered := by
      intro heq
      exact hsame ⟨beq_iff_eq.mpr harrived, rfl, heq⟩
    exact ⟨harrived, hdue, rfl, rfl, hsort.named_choose hload hne⟩
  | readPreferences _ =>
    refine h.of_eq rfl rfl ?_
    intro harrived
    cases harrived
  | @loadPreferences stored hread =>
    refine h.of_eq rfl rfl ?_
    intro _ hdue
    obtain ⟨-, hsignals⟩ := notify_due hdue
    have hsettled := congrArg (fun signals => signals.2.2) hsignals
    simp [AddressStore.signals, AddressStore.preferencesSettled, hread] at hsettled
  | savePreference _ _ =>
    refine h.of_eq rfl rfl ?_
    intro harrived hdue
    exact ⟨harrived, hdue, rfl, rfl, rfl⟩
  | apply _ =>
    refine h.of_eq rfl rfl ?_
    intro harrived hdue
    exact ⟨harrived, hdue, rfl, rfl, rfl⟩
  | @succeed change _ =>
    cases change with
    | libraryFilter chosen =>
      refine h.of_eq rfl rfl ?_
      intro harrived hdue
      obtain ⟨hdue, hsignals⟩ := notify_due hdue
      have hremembered := congrArg (fun signals => signals.2.1.libraryFilter) hsignals
      refine ⟨harrived, hdue, rfl, ?_, rfl⟩
      exact named_congr Choice.succeed_shown hremembered (by simp [AddressStore.saved,
        AddressStore.notify])
    | librarySort chosen =>
      refine h.of_eq rfl rfl ?_
      intro harrived hdue
      obtain ⟨hdue, hsignals⟩ := notify_due hdue
      have hremembered := congrArg (fun signals => signals.2.1.librarySort) hsignals
      refine ⟨harrived, hdue, rfl, rfl, ?_⟩
      exact named_congr Choice.succeed_shown hremembered (by simp [AddressStore.saved,
        AddressStore.notify])
  | fail _ =>
    refine h.of_eq rfl rfl ?_
    intro harrived hdue
    exact ⟨harrived, hdue, rfl, rfl, rfl⟩
  | writeAddress _ => exact h.writeAddress

end Written

namespace AddressStore

/-- No save of the default fails as the last of its kind to come, while the default is
shown and is the value that a bare address is taken to open on, and the server has
another. -/
def fresh (σ : AddressStore) : AddressEvent → Bool
  | .fail => !(filterPart.of σ).losing .current && !(sortPart.of σ).losing .title
  | _ => true

structure Sound (σ : AddressStore) : Prop where
  filter : (filterPart.of σ).Sound
  sort : (sortPart.of σ).Sound
  written : σ.Written

structure Right (σ : AddressStore) : Prop where
  filter : (filterPart.of σ).Right .current
  sort : (sortPart.of σ).Right .title

def Stuck (σ : AddressStore) : Prop :=
  (filterPart.of σ).Stuck .current ∨ (sortPart.of σ).Stuck .title

end AddressStore

section Runs

variable {σ σ' : AddressStore} {e : AddressEvent} {r : Unit} {params : LibraryParams}
  {details : Bool} {server : Preferences}

theorem sound_openedAt : (openedAt params details server).Sound :=
  ⟨Remembered.opened_sound LibraryFilter.current (viewFromParams params).filter
      server.libraryFilter,
    Remembered.opened_sound LibrarySort.title (viewFromParams params).sort server.librarySort,
    AddressStore.written_openedAt params details server⟩

theorem right_openedAt : (openedAt params details server).Right :=
  ⟨Remembered.opened_right .current (viewFromParams params).filter server.libraryFilter,
    Remembered.opened_right .title (viewFromParams params).sort server.librarySort⟩

theorem AddressStore.Sound.step (h : σ.Sound) (hstep : σ.step e = some (r, σ')) : σ'.Sound := by
  have hmoves := moves_of_step hstep
  obtain ⟨_, hfilter, -, -⟩ := filterPart_lawful.step hmoves
  obtain ⟨_, hsort, -, -⟩ := sortPart_lawful.step hmoves
  exact ⟨h.filter.step hfilter, h.sort.step hsort, h.written.step h.filter h.sort hmoves⟩

theorem AddressStore.Right.step (hr : σ.Right) (h : σ.Sound) (hfresh : σ.fresh e = true)
    (hstep : σ.step e = some (r, σ')) : σ'.Right := by
  have hmoves := moves_of_step hstep
  obtain ⟨k, hfilter, -, hk⟩ := filterPart_lawful.step hmoves
  obtain ⟨k', hsort, -, hk'⟩ := sortPart_lawful.step hmoves
  refine ⟨hr.filter.step h.filter hfilter ?_, hr.sort.step h.sort hsort ?_⟩
  · intro hfail
    rw [hk hfail] at hfresh
    exact (Bool.not_eq_true' _).mp ((Bool.and_eq_true _ _).mp hfresh).1
  · intro hfail
    rw [hk' hfail] at hfresh
    exact (Bool.not_eq_true' _).mp ((Bool.and_eq_true _ _).mp hfresh).2

theorem AddressStore.Sound.stuck (h : σ.Sound) (hfresh : σ.fresh e = false)
    (hstep : σ.step e = some (r, σ')) : σ'.Stuck := by
  have hmoves := moves_of_step hstep
  cases hmoves with
  | fail hrunning =>
    obtain hlosing | hlosing : (filterPart.of σ).losing .current = true ∨
        (sortPart.of σ).losing .title = true := by
      cases hfilter : (filterPart.of σ).losing .current with
      | true => exact Or.inl rfl
      | false => exact Or.inr (by simpa [fresh, hfilter] using hfresh)
    · obtain ⟨-, hfail⟩ | ⟨hnone, -⟩ := filterPart_lawful.step_fail hrunning
      · exact Or.inl (h.filter.stuck_of_fail hfail hlosing)
      · simp [Remembered.losing, hnone] at hlosing
    · obtain ⟨-, hfail⟩ | ⟨hnone, -⟩ := sortPart_lawful.step_fail hrunning
      · exact Or.inr (h.sort.stuck_of_fail hfail hlosing)
      · simp [Remembered.losing, hnone] at hlosing
  | _ => cases hfresh

theorem AddressStore.Stuck.step (hs : σ.Stuck) (h : σ.Sound) (haction : e.isAction = false)
    (hstep : σ.step e = some (r, σ')) : σ'.Stuck := by
  have hmoves := moves_of_step hstep
  refine hs.imp ?_ ?_
  · intro hfilter
    obtain ⟨k, hk, hchoose, -⟩ := filterPart_lawful.step hmoves
    refine hfilter.step h.filter hk ?_
    intro heq
    rw [hchoose heq] at haction
    cases haction
  · intro hsort
    obtain ⟨k, hk, hchoose, -⟩ := sortPart_lawful.step hmoves
    refine hsort.step h.sort hk ?_
    intro heq
    rw [hchoose heq] at haction
    cases haction

theorem AddressStore.Sound.reopened (h : σ.Sound) (hquiet : σ.Quiet) :
    σ.reopened.filter.shown = (σ.filter.named .current).getD σ.server.libraryFilter ∧
      σ.reopened.sort.shown = (σ.sort.named .title).getD σ.server.librarySort := by
  have hview := h.written.view hquiet.1 hquiet.2.2.2
  constructor
  · rw [← σ.viewFromParams_filter, ← hview]
    exact Choice.shown_of_opened _ _ _
  · rw [← σ.viewFromParams_sort, ← hview]
    exact Choice.shown_of_opened _ _ _

theorem Part.of_quiet {α : Type} (P : Part α) (hquiet : σ.Quiet) :
    (P.of σ).load = .arrived ∧ (P.of σ).saves = [] := by
  obtain ⟨harrived, hidle, hnone, -⟩ := hquiet
  constructor
  · simp [Part.of, harrived, Load.map]
  · simp [Part.of, Remembered.saves, hidle, hnone]

theorem AddressStore.Sound.reopens (h : σ.Sound) (hr : σ.Right) (hquiet : σ.Quiet) :
    σ.Reopens := by
  obtain ⟨hfilter, hsort⟩ := h.reopened hquiet
  obtain ⟨hload, hdone⟩ := filterPart.of_quiet hquiet
  obtain ⟨hload', hdone'⟩ := sortPart.of_quiet hquiet
  exact ⟨hfilter.trans (h.filter.reopens hr.filter hload hdone),
    hsort.trans (h.sort.reopens hr.sort hload' hdone')⟩

theorem AddressStore.Sound.not_reopens (h : σ.Sound) (hs : σ.Stuck) (hquiet : σ.Quiet) :
    ¬σ.Reopens := by
  rintro ⟨hfilter, hsort⟩
  obtain ⟨hfilter', hsort'⟩ := h.reopened hquiet
  obtain hs | hs := hs
  · exact hs.not_reopens (filterPart.of_quiet hquiet).1 (hfilter'.symm.trans hfilter)
  · exact hs.not_reopens (sortPart.of_quiet hquiet).1 (hsort'.symm.trans hsort)

end Runs

/-- Once nothing is on its way, the address opens on the filter and the sort shown,
when every failed save is fresh, and after one that is not it does not until the user's
next choice. -/
theorem address_reopens {params : LibraryParams} {details : Bool} {server : Preferences}
    {t : List (Entry AddressStore AddressEvent Unit)} {σ : AddressStore}
    (h : Run AddressStore.step (openedAt params details server) t σ) (hquiet : σ.Quiet) :
    ((∀ x ∈ t, x.before.fresh x.event = true) → σ.Reopens) ∧
      ∀ v x u, t = v ++ x :: u → x.before.fresh x.event = false →
        (∀ y ∈ u, y.event.isAction = false) → ¬σ.Reopens := by
  have hsound : ∀ {t σ}, Run AddressStore.step (openedAt params details server) t σ → σ.Sound :=
    fun h => h.invariant (fun hs hstep => hs.step hstep) sound_openedAt
  refine ⟨?_, ?_⟩
  · intro hfresh
    have hright : σ.Sound ∧ σ.Right := by
      refine h.invariant_of (P := fun s => s.Sound ∧ s.Right)
        (C := fun s e => s.fresh e = true) ?_ ⟨sound_openedAt, right_openedAt⟩ hfresh
      intro s e r s' hs hC hstep
      exact ⟨hs.1.step hstep, hs.2.step hs.1 hC hstep⟩
    exact hright.1.reopens hright.2 hquiet
  · rintro v x u rfl hfresh haction
    obtain ⟨hprior, hstep, hrest⟩ := h.at_entry
    have hbefore := hsound hprior
    have hstuck : σ.Sound ∧ σ.Stuck := by
      refine hrest.invariant_of (P := fun s => s.Sound ∧ s.Stuck)
        (C := fun _ e => AddressEvent.isAction e = false) ?_
        ⟨hbefore.step hstep, hbefore.stuck hfresh hstep⟩ haction
      intro s e r s' hs hC hnext
      exact ⟨hs.1.step hnext, hs.2.step hs.1 hC hnext⟩
    exact hstuck.1.not_reopens hstuck.2 hquiet

section Lost

def bare : AddressStore := openedAt ⟨none, none, none⟩ false ⟨.current, .title⟩

def favoritesChosen : List AddressEvent :=
  [.readPreferences, .loadPreferences, .chooseFilter .favorites, .savePreference, .apply]

theorem address_reopens_favorites : ∃ t σ, Run AddressStore.step bare t σ ∧
    σ.filter.shown = .favorites ∧ σ.Reopens := by
  obtain ⟨t, σ, hrun, h⟩ : ∃ t σ, Run AddressStore.step bare t σ ∧
      (t.all (fun x => x.before.fresh x.event) && σ.filter.shown == .favorites &&
        σ.preferences == .arrived && σ.running == none && σ.preferenceSave == [] &&
        !σ.scheduled) = true :=
    exists_run (favoritesChosen ++ [.succeed, .writeAddress]) (by decide +kernel)
  simp only [Bool.and_eq_true, List.all_eq_true, beq_iff_eq, Bool.not_eq_true'] at h
  obtain ⟨⟨⟨⟨⟨hfresh, hshown⟩, harrived⟩, hidle⟩, hnone⟩, hdue⟩ := h
  have hreopens := address_reopens hrun ⟨harrived, hidle, hnone, hdue⟩
  exact ⟨t, σ, hrun, hshown, hreopens.1 hfresh⟩

/-- The default chosen again while the other filter is being saved, whose save succeeds,
is not saved: the bare address opens on the other filter. -/
theorem not_address_reopens : ∃ t σ, Run AddressStore.step bare t σ ∧ σ.Quiet ∧ ¬σ.Reopens := by
  obtain ⟨t, σ, hrun, h⟩ : ∃ t σ, Run AddressStore.step bare t σ ∧
      (σ.preferences == .arrived && σ.running == none && σ.preferenceSave == [] &&
        !σ.scheduled && σ.reopened.filter.shown != σ.filter.shown) = true :=
    exists_run (favoritesChosen ++ [.chooseFilter .current, .succeed, .savePreference, .fail,
      .writeAddress]) (by decide +kernel)
  simp only [Bool.and_eq_true, beq_iff_eq, Bool.not_eq_true', bne_iff_ne] at h
  obtain ⟨⟨⟨⟨harrived, hidle⟩, hnone⟩, hdue⟩, hne⟩ := h
  exact ⟨t, σ, hrun, ⟨harrived, hidle, hnone, hdue⟩, fun hreopens => hne hreopens.1⟩

end Lost

end Noted.LibraryPage
