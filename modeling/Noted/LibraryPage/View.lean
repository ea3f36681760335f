import Noted.Surname
import Noted.Types

/-!
# What the library page shows (library.utils.ts)

`filterAndSort` keeps the pieces that fit the filter and match every term of the
search, ranks them while searching and puts them in the chosen order. The collator
of the browser is a parameter.
-/

namespace Noted.LibraryPage

inductive LibraryFilter
  | current
  | all
  | favorites
  | learning
  | playing
  | shelved
  deriving DecidableEq

def LibraryFilter.value : LibraryFilter → Text
  | .current => "current".toList
  | .all => "all".toList
  | .favorites => "favorites".toList
  | .learning => "learning".toList
  | .playing => "playing".toList
  | .shelved => "shelved".toList

def LIBRARY_FILTERS : List LibraryFilter :=
  [.current, .all, .favorites, .learning, .playing, .shelved]

inductive LibrarySort
  | title
  | composer
  | recent
  | added
  | fresh
  deriving DecidableEq

def LibrarySort.value : LibrarySort → Text
  | .title => "title".toList
  | .composer => "composer".toList
  | .recent => "recent".toList
  | .added => "added".toList
  | .fresh => "fresh".toList

def LIBRARY_SORTS : List LibrarySort := [.title, .composer, .recent, .added, .fresh]

structure LibraryView where
  query : Text
  filter : LibraryFilter
  sort : LibrarySort
  deriving DecidableEq

section Orders

variable (U : UnicodeTables) (collate : Text → Text → Ordering)

def titleOrder (a b : PieceSummary) : Ordering :=
  (collate a.title b.title).then ((collate a.composer b.composer).then (compare a.id b.id))

/-- Newest first, with a missing time last. -/
def newestFirst : Option Time → Option Time → Ordering
  | some a, some b => compare b a
  | some _, none => .lt
  | none, some _ => .gt
  | none, none => .eq

def composerOrder (a b : Text) : Ordering :=
  let aSurname := Browser.composerSurname U a
  let bSurname := Browser.composerSurname U b
  if aSurname.isEmpty ≠ bSurname.isEmpty then
    if aSurname.isEmpty then .gt else .lt
  else (collate aSurname bSurname).then (collate (jsTrim a) (jsTrim b))

def ORDERS (sort : LibrarySort) (a b : PieceSummary) : Ordering :=
  match sort with
  | .title => titleOrder collate a b
  | .composer => (composerOrder U collate a.composer b.composer).then (titleOrder collate a b)
  | .recent => (newestFirst a.lastPlayedAt b.lastPlayedAt).then (titleOrder collate a b)
  | .added => (compare b.createdAt a.createdAt).then (titleOrder collate a b)
  | .fresh => (compare a.pdfPages.isNone b.pdfPages.isNone).then
      ((newestFirst b.lastPlayedAt a.lastPlayedAt).then (titleOrder collate a b))

end Orders

section Filter

variable (U : UnicodeTables) (collate : Text → Text → Ordering)

/-- A search never hides a shelved piece. -/
def inFilter (piece : PieceSummary) (filter : LibraryFilter) (searching : Bool) : Bool :=
  match filter with
  | .current => piece.status != LibraryFilter.shelved.value || searching
  | .all => true
  | .favorites => piece.favorite
  | .learning | .playing | .shelved => piece.status == filter.value

structure TitlePrefix where
  folded : Text
  terms : Text
  parts : Text

def matchRank (piece : PieceSummary) (start : TitlePrefix) (words : List Text) : Nat :=
  if start.folded.isPrefixOf (Browser.fold U piece.title) ∨
      start.terms.isPrefixOf (Search.joinWords (Browser.searchTerms U piece.title)) ∨
      start.parts.isPrefixOf (Search.joinWords (Browser.catalogueTerms U piece.title true)) then 0
  else if words.all fun word => contains (' ' :: piece.searchText) (' ' :: word) then 1
  else 2

def exactTermRank (index : Text) (terms : List Text) : Nat :=
  (terms.filter fun term => !(index.splitOn ' ').contains term).length

def shown (pieces : List PieceSummary) (view : LibraryView) : List PieceSummary :=
  let words := Browser.searchTerms U view.query
  pieces.filter fun piece => inFilter piece view.filter (0 < words.length) &&
    words.all fun word => Browser.matchesSearchTerm piece.searchText word

def filterAndSort (pieces : List PieceSummary) (view : LibraryView) : List PieceSummary :=
  let words := Browser.searchTerms U view.query
  let order := ORDERS U collate view.sort
  let kept := shown U pieces view
  if words.isEmpty then kept.mergeSort fun a b => order a b != .gt
  else
    let start : TitlePrefix :=
      { folded := Browser.fold U view.query
        terms := Search.joinWords words
        parts := Search.joinWords (Browser.catalogueTerms U view.query true) }
    let rank (piece : PieceSummary) : Nat :=
      ((kept.reverse.find? fun p => p.id == piece.id).map (matchRank U · start words)).getD 0
    kept.mergeSort fun a b =>
      ((compare (exactTermRank a.searchText words) (exactTermRank b.searchText words)).then
        ((compare (rank a) (rank b)).then (order a b))) != .gt

/-- `!!fold(this.query())`: punctuation alone folds to no search. -/
def searching (query : Text) : Bool := !(Browser.fold U query).isEmpty

theorem filterAndSort_perm (pieces : List PieceSummary) (view : LibraryView) :
    (filterAndSort U collate pieces view).Perm (shown U pieces view) := by
  unfold filterAndSort
  dsimp only
  split
  · exact List.mergeSort_perm _ _
  · exact List.mergeSort_perm _ _

theorem mem_filterAndSort {pieces : List PieceSummary} {view : LibraryView} {p : PieceSummary} :
    p ∈ filterAndSort U collate pieces view ↔ p ∈ pieces ∧
      inFilter p view.filter (0 < (Browser.searchTerms U view.query).length) = true ∧
      ∀ t ∈ Browser.searchTerms U view.query,
        Browser.matchesSearchTerm p.searchText t = true := by
  rw [(filterAndSort_perm U collate pieces view).mem_iff, shown, List.mem_filter,
    Bool.and_eq_true, List.all_eq_true]

end Filter

end Noted.LibraryPage
