import Noted.Search.Suggestions
import Noted.System
import Mathlib.Data.List.Forall2

/-!
# What the queries of the library select

The text of a query shows the shapes of its terms and which filters are set. Its conditions
are tests of a row, and the similarity of `pg_trgm` is a parameter of them.
-/

namespace Noted.Search

open Library
open Library (Like.like)

section Shapes

variable (U : UnicodeTables)

/-- What the text of a query shows of a term. -/
structure Shape where
  column : SearchColumn
  fuzzy : Bool
  spellings : Nat
  deriving DecidableEq

def shape (term : Text) : Shape :=
  ⟨(searchPattern term).1, fuzzyTerm U term, (variants term).length⟩

structure SameShape (options options' : ListOptions) : Prop where
  terms : (searchTerms U options.query).map (shape U) =
    (searchTerms U options'.query).map (shape U)
  favorite : options.favorite.isSome = options'.favorite.isSome
  statuses : options.statuses.isSome = options'.statuses.isSome

structure Building.Same (b c : Building) : Prop where
  length : b.args.length = c.args.length
  clauses : b.clauses = c.clauses

variable {U} {b c : Building} {s t : Suggesting} {terms terms' : List Text}
  {options options' : ListOptions}

theorem foldl_shapes {β : Type*} {R : β → β → Prop} {f : β → Text → β} {a a' : β}
    (hstep : ∀ a a' x x', R a a' → shape U x = shape U x' → R (f a x) (f a' x')) (hR : R a a')
    (hshapes : terms.map (shape U) = terms'.map (shape U)) :
    R (terms.foldl f a) (terms'.foldl f a') := by
  have hrel : List.Forall₂ (fun x x' => shape U x = shape U x') terms terms' := by
    rwa [← List.forall₂_eq_eq_eq, List.forall₂_map_left_iff, List.forall₂_map_right_iff] at hshapes
  exact List.rel_foldl (fun a a' ha x x' hx => hstep a a' x x' ha hx) hR hrel

theorem Building.Same.push (h : b.Same c) (a a' : Arg) (clause : Nat → Clause Nat) :
    (b.push a clause).Same (c.push a' clause) where
  length := by simp [Building.push, h.length]
  clauses := by simp [Building.push, h.length, h.clauses]

theorem Building.Same.addToken (h : b.Same c) {token token' : Text}
    (hshape : shape U token = shape U token') :
    (b.addToken token).Same (c.addToken token') := by
  have hcolumn : (searchPattern token).1 = (searchPattern token').1 :=
    congrArg Shape.column hshape
  rw [Building.addToken, Building.addToken, hcolumn]
  exact h.push _ _ _

theorem Building.Same.addFavorite (h : b.Same c) {favorite favorite' : Option Bool}
    (hset : favorite.isSome = favorite'.isSome) :
    (b.addFavorite favorite).Same (c.addFavorite favorite') := by
  cases favorite <;> cases favorite' <;> first | exact h.push _ _ _ | exact h | cases hset

theorem Building.Same.addStatuses (h : b.Same c) {statuses statuses' : Option (List Text)}
    (hset : statuses.isSome = statuses'.isSome) :
    (b.addStatuses statuses).Same (c.addStatuses statuses') := by
  cases statuses <;> cases statuses' <;> first | exact h.push _ _ _ | exact h | cases hset

theorem listClauses_same {owner owner' : Id} {q q' : ListQuery}
    (h : listClauses U owner options = .ok q) (h' : listClauses U owner' options' = .ok q')
    (hshape : SameShape U options options') : q.whereSql = q'.whereSql := by
  obtain ⟨order, -, h⟩ := bind_eq_ok.mp h
  obtain ⟨order', -, h'⟩ := bind_eq_ok.mp h'
  obtain rfl := Except.ok.inj h
  obtain rfl := Except.ok.inj h'
  have hstart : (Building.start owner).Same (Building.start owner') := ⟨rfl, rfl⟩
  have htokens := foldl_shapes (fun b c x x' hsame hx => hsame.addToken hx) hstart hshape.terms
  have hfilters := (htokens.addFavorite hshape.favorite).addStatuses hshape.statuses
  exact congrArg (fun clauses => joined " AND " (clauses.map Clause.listSql)) hfilters.clauses

theorem listClauses_order {owner : Id} {q : ListQuery} (h : listClauses U owner options = .ok q) :
    options.sort = some q.order := by
  obtain ⟨order, horder, h⟩ := bind_eq_ok.mp h
  obtain rfl := Except.ok.inj h
  exact demand_eq_ok.mp horder

structure Suggesting.Same (s t : Suggesting) : Prop extends s.toBuilding.Same t.toBuilding where
  exacts : s.exacts = t.exacts
  scores : s.scores = t.scores
  eligible : s.eligible = t.eligible

theorem Suggesting.Same.addTerm (h : s.Same t) {term term' : Text}
    (hshape : shape U term = shape U term') : (s.addTerm U term).Same (t.addTerm U term') := by
  have hcolumn : (searchPattern term).1 = (searchPattern term').1 := congrArg Shape.column hshape
  have hspellings : (variants term).length = (variants term').length :=
    congrArg Shape.spellings hshape
  have hfuzzy : fuzzyTerm U term = fuzzyTerm U term' := congrArg Shape.fuzzy hshape
  cases hterm : fuzzyTerm U term with
  | false =>
    have hterm' : fuzzyTerm U term' = false := hfuzzy ▸ hterm
    refine ⟨⟨?_, ?_⟩, ?_, ?_, ?_⟩ <;>
      simp [Suggesting.addTerm, hterm, hterm', h.length, h.clauses, h.exacts, h.scores, h.eligible,
        hcolumn]
  | true =>
    have hterm' : fuzzyTerm U term' = true := hfuzzy ▸ hterm
    rw [s.addTerm_fuzzy hterm, t.addTerm_fuzzy hterm', hcolumn, hspellings, h.length]
    refine ⟨⟨?_, ?_⟩, ?_, ?_, ?_⟩ <;>
      simp [h.length, h.clauses, h.exacts, h.scores, fuzzyArgs, hspellings]

theorem SuggestionQuery.sql_congr {q q' : SuggestionQuery} (hclauses : q.clauses = q'.clauses)
    (hscores : q.scores = q'.scores) (hlimit : q.limit = q'.limit) : q.sql = q'.sql := by
  rw [SuggestionQuery.sql, SuggestionQuery.sql, hclauses, hscores, hlimit]

theorem Suggesting.Same.finish (h : s.Same t)
    (hfavorite : options.favorite.isSome = options'.favorite.isSome)
    (hstatuses : options.statuses.isSome = options'.statuses.isSome) :
    (s.finish options).sql = (t.finish options').sql := by
  have hmissed : Building.Same ⟨s.args, s.clauses ++ [.notAll s.exacts]⟩
      ⟨t.args, t.clauses ++ [.notAll t.exacts]⟩ :=
    ⟨h.length, by rw [h.clauses, h.exacts]⟩
  have hfilters := (hmissed.addFavorite hfavorite).addStatuses hstatuses
  exact SuggestionQuery.sql_congr hfilters.clauses h.scores (congrArg (· + 1) hfilters.length)

theorem suggestionQuery_same {owner owner' : Id} {r r' : Option SuggestionQuery}
    (h : suggestionQuery U owner options = .ok r) (h' : suggestionQuery U owner' options' = .ok r')
    (hshape : SameShape U options options') :
    r.map SuggestionQuery.sql = r'.map SuggestionQuery.sql := by
  have hstart : (Suggesting.start owner).Same (Suggesting.start owner') :=
    ⟨⟨rfl, rfl⟩, rfl, rfl, rfl⟩
  have hterms := foldl_shapes (fun s t x x' hsame hx => hsame.addTerm hx) hstart hshape.terms
  have htext := hterms.finish hshape.favorite hshape.statuses
  rw [suggestionQuery_eq h, suggestionQuery_eq h', hterms.eligible]
  split
  · rfl
  · exact congrArg some htext

end Shapes

section Rows

variable (similar : Text → Text → Bool) (row : PieceRow)

def Exact.test (e : Exact (Option Arg)) : Option Bool :=
  match e.pattern with
  | some (.text pattern) => Like.like '\\' (e.column.read row.searchText) pattern
  | _ => none

def Exact.holds (e : Exact (Option Arg)) : Bool := e.test row == some true

def similarTo (spelling : Option Arg) : Bool :=
  match spelling with
  | some (.text t) => similar t row.searchText
  | _ => false

def Clause.holds : Clause (Option Arg) → Bool
  | .owner (some (.owner id)) => row.userId == id
  | .exact e => e.holds row
  | .choice e variants => e.holds row || variants.any (similarTo similar row)
  | .notAll exacts => !exacts.all (Exact.holds row)
  | .favorite (some (.favorite f)) => row.favorite == f
  | .statuses (some (.statuses l)) => l.contains row.status
  | _ => false

def Building.selects (b : Building) : Bool :=
  (b.clauses.map (Clause.map (argAt b.args))).all (Clause.holds similar row)

/-- What the suggestions are for: a piece of the owner's that passes the filters and misses a
term, but is similar to it. -/
structure Suggested (U : UnicodeTables) (owner : Id) (options : ListOptions) : Prop where
  owner : row.userId = owner
  favorite : ∀ favorite ∈ options.favorite, row.favorite = favorite
  statuses : ∀ statuses ∈ options.statuses, row.status ∈ statuses
  exact : ∀ term ∈ searchTerms U options.query, fuzzyTerm U term = false →
    likeClause row.searchText term = some true
  fuzzy : ∀ term ∈ searchTerms U options.query, fuzzyTerm U term = true →
    likeClause row.searchText term = some true ∨
      ∃ v ∈ variants term, similar v row.searchText = true
  missed : ∃ term ∈ searchTerms U options.query, likeClause row.searchText term = some false

variable {similar row} {U : UnicodeTables} {owner : Id} {options : ListOptions}

theorem exactValue_test (term : Text) : (exactValue term).test row = likeClause row.searchText term :=
  rfl

theorem likeClause_decided (text term : Text) : ∃ b, likeClause text term = some b := by
  cases h : isKeyTerm term with
  | true => exact ⟨_, likeClause_key text h⟩
  | false => exact ⟨_, likeClause_other text h⟩

theorem exactValue_holds (term : Text) :
    (exactValue term).holds row = true ↔ likeClause row.searchText term = some true := by
  rw [Exact.holds, exactValue_test, beq_iff_eq]

theorem not_exactValue_holds (term : Text) :
    (exactValue term).holds row = false ↔ likeClause row.searchText term = some false := by
  obtain ⟨b, hb⟩ := likeClause_decided row.searchText term
  rw [Exact.holds, exactValue_test, hb]
  cases b <;> decide

theorem termValue_holds (term : Text) :
    (termValue U term).holds similar row = true ↔
      (fuzzyTerm U term = false → likeClause row.searchText term = some true) ∧
      (fuzzyTerm U term = true → likeClause row.searchText term = some true ∨
        ∃ v ∈ variants term, similar v row.searchText = true) := by
  cases hfuzzy : fuzzyTerm U term with
  | false => simp [termValue, hfuzzy, Clause.holds, exactValue_holds]
  | true =>
    simp [termValue, hfuzzy, Clause.holds, exactValue_holds, variantValues, similarTo]

theorem filterValues_hold :
    (filterValues options).all (Clause.holds similar row) =
      (options.favorite.all (row.favorite == ·) && options.statuses.all (·.contains row.status)) := by
  rw [filterValues, List.all_append]
  cases options.favorite <;> cases options.statuses <;> simp [Clause.holds]

theorem listValues_hold :
    ((.owner (some (.owner owner)) :: (searchTerms U options.query).map
      (fun t => Clause.exact (exactValue t)) ++ filterValues options).all
        (Clause.holds similar row)) = true ↔
      row.userId = owner ∧
      (∀ term ∈ searchTerms U options.query, likeClause row.searchText term = some true) ∧
      options.favorite.all (row.favorite == ·) = true ∧
      options.statuses.all (·.contains row.status) = true := by
  rw [List.all_append, List.all_cons, filterValues_hold]
  simp [Clause.holds, exactValue_holds, and_assoc]

/-- A list selects what its conditions say. -/
theorem ListQuery.selects_eq (s : Service) {q : ListQuery}
    (h : listClauses s.unicode owner options = .ok q) :
    q.selects similar row = listWhere s owner options row := by
  rw [Bool.eq_iff_iff, Building.selects, (listClauses_builds s.unicode h).resolves, listValues_hold,
    listWhere]
  simp [and_assoc]

theorem filters_hold :
    (filterValues options).all (Clause.holds similar row) = true ↔
      (∀ favorite ∈ options.favorite, row.favorite = favorite) ∧
      ∀ statuses ∈ options.statuses, row.status ∈ statuses := by
  rw [filterValues_hold, Bool.and_eq_true, Option.all_eq_true, Option.all_eq_true]
  simp only [beq_iff_eq, List.contains_iff_mem]
  rfl

theorem SuggestionQuery.selects_iff {q : SuggestionQuery} (h : q.Stands U owner options) :
    q.selects similar row = true ↔ Suggested similar row U owner options := by
  have hterms : ((searchTerms U options.query).map (termValue U)).all
      (Clause.holds similar row) = true ↔ ∀ term ∈ searchTerms U options.query,
        (fuzzyTerm U term = false → likeClause row.searchText term = some true) ∧
        (fuzzyTerm U term = true → likeClause row.searchText term = some true ∨
          ∃ v ∈ variants term, similar v row.searchText = true) := by
    simp [termValue_holds]
  have hmissed : [Clause.notAll ((searchTerms U options.query).map exactValue)].all
      (Clause.holds similar row) = true ↔
        ∃ term ∈ searchTerms U options.query, likeClause row.searchText term = some false := by
    simp [Clause.holds, not_exactValue_holds]
  have howner : (Clause.owner (some (.owner owner))).holds similar row = true ↔
      row.userId = owner := by
    simp [Clause.holds]
  rw [Building.selects, h.clauses, List.cons_append, List.cons_append, List.all_cons,
    List.all_append, List.all_append, Bool.and_eq_true, Bool.and_eq_true, Bool.and_eq_true,
    howner, hterms, hmissed, filters_hold]
  constructor
  · rintro ⟨hid, ⟨htests, hone⟩, hfavorite, hstatuses⟩
    exact ⟨hid, hfavorite, hstatuses, fun t ht => (htests t ht).1, fun t ht => (htests t ht).2, hone⟩
  · rintro ⟨hid, hfavorite, hstatuses, hexact, hfuzzy, hone⟩
    exact ⟨hid, ⟨fun t ht => ⟨hexact t ht, hfuzzy t ht⟩, hone⟩, hfavorite, hstatuses⟩

theorem Suggested.not_listed {s : Service} (h : Suggested similar row s.unicode owner options)
    (owner' : Id) : listWhere s owner' options row = false := by
  obtain ⟨term, hterm, hmissed⟩ := h.missed
  rw [Bool.eq_false_iff, listWhere]
  simp only [ne_eq, Bool.and_eq_true, List.all_eq_true, beq_iff_eq]
  rintro ⟨⟨⟨-, hall⟩, -⟩, -⟩
  exact absurd (hmissed.symm.trans (hall term hterm)) (by decide)

end Rows

section Queries

variable (s : Service) (owner : Id) (options : ListOptions)

/-- What is kept by a list's query: its arguments, its text and its rows. -/
structure ListQuery.Keeps (q : ListQuery) : Prop where
  placeholders : Builds q.toBuilding (.owner (some (.owner owner)) ::
    (searchTerms s.unicode options.query).map (fun t => .exact (exactValue t)) ++
      filterValues options)
  text : ∀ owner' options' q', listClauses s.unicode owner' options' = .ok q' →
    SameShape s.unicode options options' →
      q.whereSql = q'.whereSql ∧ (options.sort = options'.sort → q.orderSql = q'.orderSql)
  selects : ∀ similar row, q.selects similar row = listWhere s owner options row

structure SuggestionQuery.Keeps (q : SuggestionQuery) : Prop where
  placeholders : q.Stands s.unicode owner options
  text : ∀ owner' options' q', suggestionQuery s.unicode owner' options' = .ok q' →
    SameShape s.unicode options options' → some q.sql = q'.map SuggestionQuery.sql
  selects : ∀ similar row,
    q.selects similar row = true ↔ Suggested similar row s.unicode owner options
  apart : ∀ l, listClauses s.unicode owner options = .ok l → ∀ similar row,
    q.selects similar row = true → l.selects similar row = false

variable {s owner options}

theorem listClauses_keeps {q : ListQuery} (h : listClauses s.unicode owner options = .ok q) :
    q.Keeps s owner options where
  placeholders := listClauses_builds s.unicode h
  text owner' options' q' h' hshape := by
    refine ⟨listClauses_same h h' hshape, fun hsort => congrArg pieceOrdersSql ?_⟩
    rw [listClauses_order h, listClauses_order h'] at hsort
    exact Option.some.inj hsort
  selects similar row := q.selects_eq s h

theorem suggestionQuery_keeps {q : SuggestionQuery}
    (h : suggestionQuery s.unicode owner options = .ok (some q)) : q.Keeps s owner options where
  placeholders := suggestionQuery_stands h
  text owner' options' q' h' hshape := suggestionQuery_same h h' hshape
  selects similar row := SuggestionQuery.selects_iff (suggestionQuery_stands h)
  apart l hl similar row hrow := by
    rw [l.selects_eq s hl]
    exact ((SuggestionQuery.selects_iff (suggestionQuery_stands h)).mp hrow).not_listed owner

variable (s owner options)

/-- No text of a query, and no row that it should not select, gets through either builder. -/
theorem builders_keep :
    (∀ q, listClauses s.unicode owner options = .ok q → q.Keeps s owner options) ∧
      ∀ q, suggestionQuery s.unicode owner options = .ok (some q) → q.Keeps s owner options :=
  ⟨fun _ h => listClauses_keeps h, fun _ h => suggestionQuery_keeps h⟩

theorem builders_keep_tchaikovsky :
    ∃ options : ListOptions, options.query = "Tchaikovsky op. 71a".toList ∧
      (∃ q, listClauses plainService.unicode 1 options = .ok q ∧ q.Keeps plainService 1 options) ∧
      ∃ q, suggestionQuery plainService.unicode 1 options = .ok (some q) ∧
        q.Keeps plainService 1 options := by
  refine ⟨⟨"Tchaikovsky op. 71a".toList, some true, some ["learning".toList], some .title⟩, rfl,
    ?_, ?_⟩
  · exact ⟨_, rfl, (builders_keep plainService 1 _).1 _ rfl⟩
  · exact ⟨_, rfl, (builders_keep plainService 1 _).2 _ rfl⟩

end Queries

end Noted.Search
