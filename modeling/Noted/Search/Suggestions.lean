import Noted.Pieces
import Noted.Search.Match

/-!
# The queries of the library (internal/app/service.go, internal/app/suggestions.go)

`listClauses` and `suggestionQuery` append conditions and arguments side by side. A
condition holds the numbers of its placeholders, and `sql` writes it; number n stands for
the n-th argument. `pg_trgm` is a relation of a word and a text.
-/

namespace Noted.Search

open Library
open Library (Like.like)

inductive Arg
  | owner (id : Id)
  | text (t : Text)
  | favorite (b : Bool)
  | statuses (l : List Text)
  | limit (n : Nat)
  deriving DecidableEq

section Conditions

variable {π : Type*} {ρ : Type*}

structure Exact (π : Type*) where
  column : SearchColumn
  pattern : π
  deriving DecidableEq

structure Score (π : Type*) where
  exact : Exact π
  variants : List π
  deriving DecidableEq

inductive Clause (π : Type*)
  | owner (n : π)
  | exact (e : Exact π)
  | choice (e : Exact π) (variants : List π)
  | notAll (exacts : List (Exact π))
  | favorite (n : π)
  | statuses (n : π)
  deriving DecidableEq

def Exact.map (f : π → ρ) (e : Exact π) : Exact ρ := ⟨e.column, f e.pattern⟩

def Score.map (f : π → ρ) (s : Score π) : Score ρ := ⟨s.exact.map f, s.variants.map f⟩

def Clause.map (f : π → ρ) : Clause π → Clause ρ
  | .owner n => .owner (f n)
  | .exact e => .exact (e.map f)
  | .choice e variants => .choice (e.map f) (variants.map f)
  | .notAll exacts => .notAll (exacts.map (Exact.map f))
  | .favorite n => .favorite (f n)
  | .statuses n => .statuses (f n)

def Clause.placeholders : Clause π → List π
  | .owner n => [n]
  | .exact e => [e.pattern]
  | .choice e variants => e.pattern :: variants
  | .notAll exacts => exacts.map Exact.pattern
  | .favorite n => [n]
  | .statuses n => [n]

def Score.placeholders (s : Score π) : List π := s.exact.pattern :: s.variants

end Conditions

section Text

def joined (separator : String) (parts : List Text) : Text := separator.toList.intercalate parts

def placeholder (n : Nat) : Text := '$' :: (Nat.repr n).toList

def SearchColumn.sql : SearchColumn → Text
  | .searchText => "p.search_text".toList
  | .padded => "(' ' || p.search_text || ' ')".toList

def Exact.sql (e : Exact Nat) : Text :=
  e.column.sql ++ " LIKE ".toList ++ placeholder e.pattern ++ " ESCAPE '\\'".toList

def Clause.listSql : Clause Nat → Text
  | .owner n => "p.user_id=".toList ++ placeholder n
  | .exact e => e.sql
  | .choice e variants =>
    "(".toList ++ joined " OR " (e.sql :: variants.map fun n =>
      placeholder n ++ " <% p.search_text".toList) ++ ")".toList
  | .notAll exacts => "NOT (".toList ++ joined " AND " (exacts.map Exact.sql) ++ ")".toList
  | .favorite n => "p.favorite = ".toList ++ placeholder n
  | .statuses n => "p.status = ANY(".toList ++ placeholder n ++ ")".toList

/-- The conditions of the suggestions, whose filters are written in other words. -/
def Clause.suggestionSql : Clause Nat → Text
  | .favorite n => "p.favorite=".toList ++ placeholder n
  | .statuses n => "p.status=ANY(".toList ++ placeholder n ++ "::text[])".toList
  | c => c.listSql

def Score.sql (s : Score Nat) : Text :=
  "CASE WHEN ".toList ++ s.exact.sql ++ " THEN 1 ELSE GREATEST(".toList ++
    joined "," (s.variants.map fun n =>
      "word_similarity(".toList ++ placeholder n ++ ",p.search_text)".toList) ++ ") END".toList

def pieceTables : Text :=
  ("\n\tpieces p\n\tLEFT JOIN piece_pdfs f ON f.piece_id=p.id\n\t" ++
    "LEFT JOIN reader_states r ON r.piece_id=p.id").toList

def titleOrderSql : Text := "lower(p.title), lower(p.composer), p.id".toList

def pieceOrdersSql : PieceOrder → Text
  | .title => titleOrderSql
  | .composer => titleOrderSql
  | .recent => "r.updated_at DESC NULLS LAST, ".toList ++ titleOrderSql
  | .added => "p.created_at DESC, ".toList ++ titleOrderSql
  | .fresh => "f.piece_id IS NULL, r.updated_at ASC NULLS FIRST, ".toList ++ titleOrderSql

end Text

section Builders

structure Building where
  args : List Arg
  clauses : List (Clause Nat)

def Building.push (b : Building) (arg : Arg) (clause : Nat → Clause Nat) : Building where
  args := b.args ++ [arg]
  clauses := b.clauses ++ [clause (b.args.length + 1)]

def Building.start (owner : Id) : Building := ⟨[.owner owner], [.owner 1]⟩

def Building.addFavorite (b : Building) (favorite : Option Bool) : Building :=
  match favorite with
  | some favorite => b.push (.favorite favorite) .favorite
  | none => b

def Building.addStatuses (b : Building) (statuses : Option (List Text)) : Building :=
  match statuses with
  | some statuses => b.push (.statuses statuses) .statuses
  | none => b

def Building.addToken (b : Building) (token : Text) : Building :=
  b.push (.text (searchPattern token).2) fun n => .exact ⟨(searchPattern token).1, n⟩

variable (U : UnicodeTables)

structure ListQuery extends Building where
  order : PieceOrder

def ListQuery.whereSql (q : ListQuery) : Text := joined " AND " (q.clauses.map Clause.listSql)

def ListQuery.orderSql (q : ListQuery) : Text := pieceOrdersSql q.order

def listClauses (owner : Id) (options : ListOptions) : Except Error ListQuery := do
  let order ← demand options.sort (.invalid "sort must be title, composer, recent, added or fresh")
  let b := (searchTerms U options.query).foldl Building.addToken (Building.start owner)
  let b := b.addFavorite options.favorite
  let b := b.addStatuses options.statuses
  pure ⟨b, order⟩

def suggestionLimit : Nat := 8

def suggestionMaxQueryBytes : Nat := 200

def suggestionMaxTerms : Nat := 8

def fuzzyTerm (term : Text) : Bool :=
  if isKeyTerm term ∨ term.length < 4 then false else term.all U.isLetter

def suggestionTerms (query : Text) : Except Error (List Text) := do
  refuse (suggestionMaxQueryBytes < byteLen query)
    (.invalid "search must contain at most 200 bytes of valid text")
  let terms := searchTerms U query
  refuse (suggestionMaxTerms < terms.length)
    (.invalid "similar matches support at most 8 search terms")
  pure terms

/-- A term and the other spelling of the one transliteration pair. -/
def variants (term : Text) : List Text :=
  if term = "tchaikovsky".toList then [term, "tschaikowsky".toList]
  else if term = "tschaikowsky".toList then [term, "tchaikovsky".toList]
  else [term]

def addVariants : List Arg → List Text → List Arg × List Nat
  | args, [] => (args, [])
  | args, variant :: more =>
    let args := args ++ [.text variant]
    let rest := addVariants args more
    (rest.1, args.length :: rest.2)

structure Suggesting extends Building where
  exacts : List (Exact Nat)
  scores : List (Score Nat)
  eligible : Bool

def Suggesting.start (owner : Id) : Suggesting := ⟨Building.start owner, [], [], false⟩

def Suggesting.addTerm (s : Suggesting) (term : Text) : Suggesting :=
  let args := s.args ++ [.text (searchPattern term).2]
  let exact : Exact Nat := ⟨(searchPattern term).1, args.length⟩
  if fuzzyTerm U term = false then
    { s with
      args
      clauses := s.clauses ++ [.exact exact]
      exacts := s.exacts ++ [exact] }
  else
    let added := addVariants args (variants term)
    { args := added.1
      clauses := s.clauses ++ [.choice exact added.2]
      exacts := s.exacts ++ [exact]
      scores := s.scores ++ [⟨exact, added.2⟩]
      eligible := true }

/-- The conditions of the suggestions, the scores of the order and the limit. -/
structure SuggestionQuery extends Building where
  scores : List (Score Nat)
  limit : Nat

def suggestionColumns : Text :=
  ("SELECT p.id,p.title,p.composer,p.aliases,p.favorite,p.status,p.listening_url,\n " ++
    "f.page_count,r.updated_at,p.created_at,p.search_text FROM ").toList

def SuggestionQuery.sql (q : SuggestionQuery) : Text :=
  suggestionColumns ++ pieceTables ++ " WHERE ".toList ++
  joined " AND " (q.clauses.map Clause.suggestionSql) ++
  "\n ORDER BY (".toList ++ joined " + " (q.scores.map Score.sql) ++ ") DESC, ".toList ++
  titleOrderSql ++ " LIMIT ".toList ++ placeholder q.limit

/-- No query, for the empty text, when no term is fuzzy. -/
def suggestionQuery (owner : Id) (options : ListOptions) :
    Except Error (Option SuggestionQuery) := do
  let terms ← suggestionTerms U options.query
  let s := terms.foldl (Suggesting.addTerm U) (Suggesting.start owner)
  if s.eligible = false then pure none
  else
    let b : Building := ⟨s.args, s.clauses ++ [.notAll s.exacts]⟩
    let b := b.addFavorite options.favorite
    refuse (options.statuses.any fun l => l.any (!validStatus ·)) (.invalid "invalid status")
    let b := b.addStatuses options.statuses
    pure (some ⟨⟨b.args ++ [.limit suggestionLimit], b.clauses⟩, s.scores, b.args.length + 1⟩)

end Builders

section Numbers

variable {args more : List Arg} {b : Building} {values : List (Clause (Option Arg))}
  {c : Clause Nat} {n : Nat}

def argAt (args : List Arg) (n : Nat) : Option Arg := if n = 0 then none else args[n - 1]?

def Numbers (args : List Arg) (n : Nat) : Prop := 1 ≤ n ∧ n ≤ args.length

theorem argAt_append (h : Numbers args n) : argAt (args ++ more) n = argAt args n := by
  obtain ⟨hpos, hle⟩ := h
  rw [argAt, argAt, List.getElem?_append_left (by omega)]

theorem argAt_next (args more : List Arg) (a : Arg) :
    argAt (args ++ a :: more) (args.length + 1) = some a := by
  simp [argAt]

theorem Numbers.append (h : Numbers args n) (more : List Arg) : Numbers (args ++ more) n :=
  ⟨h.1, by rw [List.length_append]; exact h.2.trans (Nat.le_add_right _ _)⟩

variable {π : Type*} {ρ : Type*}

theorem Exact.map_congr {f g : π → ρ} {e : Exact π} (h : f e.pattern = g e.pattern) :
    e.map f = e.map g := by
  rw [Exact.map, Exact.map, h]

theorem Score.map_congr {f g : π → ρ} {s : Score π} (h : ∀ n ∈ s.placeholders, f n = g n) :
    s.map f = s.map g := by
  rw [Score.map, Score.map, Exact.map_congr (h _ (List.mem_cons_self ..)),
    List.map_congr_left fun n hn => h n (List.mem_cons_of_mem _ hn)]

theorem Clause.map_congr {f g : π → ρ} {c : Clause π} (h : ∀ n ∈ c.placeholders, f n = g n) :
    c.map f = c.map g := by
  cases c with
  | owner n => exact congrArg Clause.owner (h n (List.mem_singleton_self n))
  | exact e => exact congrArg Clause.exact (Exact.map_congr (h _ (List.mem_singleton_self _)))
  | choice e variants =>
    rw [Clause.map, Clause.map, Exact.map_congr (h _ (List.mem_cons_self ..)),
      List.map_congr_left fun n hn => h n (List.mem_cons_of_mem _ hn)]
  | notAll exacts =>
    refine congrArg Clause.notAll (List.map_congr_left fun e he => Exact.map_congr (h _ ?_))
    exact List.mem_map_of_mem he
  | favorite n => exact congrArg Clause.favorite (h n (List.mem_singleton_self n))
  | statuses n => exact congrArg Clause.statuses (h n (List.mem_singleton_self n))

/-- The placeholders of the conditions stand for the values that were meant, and every
argument is used. -/
structure Builds (b : Building) (values : List (Clause (Option Arg))) : Prop where
  resolves : b.clauses.map (Clause.map (argAt b.args)) = values
  numbers : ∀ c ∈ b.clauses, ∀ n ∈ c.placeholders, Numbers b.args n
  used : ∀ n, Numbers b.args n → ∃ c ∈ b.clauses, n ∈ c.placeholders

theorem Builds.resolves_append (h : Builds b values) (more : List Arg) :
    b.clauses.map (Clause.map (argAt (b.args ++ more))) = values := by
  rw [← h.resolves]
  refine List.map_congr_left fun c hc => Clause.map_congr fun n hn => ?_
  exact argAt_append (h.numbers c hc n hn)

theorem Builds.extend (h : Builds b values) (more : List Arg) (c : Clause Nat)
    (hnumbers : ∀ n ∈ c.placeholders, Numbers (b.args ++ more) n)
    (hused : ∀ n, Numbers (b.args ++ more) n → b.args.length < n → n ∈ c.placeholders) :
    Builds ⟨b.args ++ more, b.clauses ++ [c]⟩ (values ++ [c.map (argAt (b.args ++ more))]) where
  resolves := by rw [List.map_append, List.map_singleton, h.resolves_append]
  numbers := by
    intro d hd n hn
    rcases List.mem_append.mp hd with hold | hnew
    · exact (h.numbers d hold n hn).append more
    · rw [List.mem_singleton.mp hnew] at hn
      exact hnumbers n hn
  used := by
    intro n hn
    by_cases hold : n ≤ b.args.length
    · obtain ⟨d, hd, hmem⟩ := h.used n ⟨hn.1, hold⟩
      exact ⟨d, List.mem_append_left _ hd, hmem⟩
    · exact ⟨c, List.mem_append_right _ (List.mem_singleton_self c), hused n hn (by omega)⟩

theorem builds_start (owner : Id) :
    Builds (Building.start owner) [.owner (some (.owner owner))] where
  resolves := rfl
  numbers := by
    intro c hc n hn
    obtain rfl := List.mem_singleton.mp hc
    obtain rfl := List.mem_singleton.mp hn
    exact ⟨le_rfl, le_rfl⟩
  used := by
    intro n hn
    refine ⟨.owner 1, List.mem_singleton_self _, List.mem_singleton.mpr ?_⟩
    exact le_antisymm hn.2 hn.1

theorem Builds.push (h : Builds b values) (a : Arg) (clause : Nat → Clause Nat)
    (hone : ∀ n, (clause n).placeholders = [n]) :
    Builds (b.push a clause) (values ++ [(clause (b.args.length + 1)).map (argAt (b.args ++ [a]))]) := by
  refine h.extend _ _ ?_ ?_
  · intro n hn
    rw [hone, List.mem_singleton] at hn
    rw [hn]
    exact ⟨by omega, by simp⟩
  · intro n hn hnew
    rw [hone, List.mem_singleton]
    have hle := hn.2
    rw [List.length_append, List.length_singleton] at hle
    omega

theorem argAt_range (args : List Arg) (f : Text → Arg) (texts : List Text) :
    (List.range' (args.length + 1) texts.length).map (argAt (args ++ texts.map f)) =
      texts.map fun t => some (f t) := by
  induction texts generalizing args with
  | nil => rfl
  | cons t ts ih =>
    have hmore := ih (args ++ [f t])
    rw [List.length_append, List.length_singleton, List.append_assoc] at hmore
    rw [List.length_cons, List.range'_succ, List.map_cons, List.map_cons, argAt_next,
      List.map_cons]
    exact congrArg (some (f t) :: ·) hmore

theorem addVariants_eq (args : List Arg) (texts : List Text) :
    addVariants args texts =
      (args ++ texts.map Arg.text, List.range' (args.length + 1) texts.length) := by
  induction texts generalizing args with
  | nil => simp [addVariants]
  | cons t ts ih =>
    rw [addVariants, ih]
    simp [List.range'_succ]

end Numbers

section Values

variable (U : UnicodeTables)

def exactValue (term : Text) : Exact (Option Arg) :=
  ⟨(searchPattern term).1, some (.text (searchPattern term).2)⟩

def variantValues (term : Text) : List (Option Arg) :=
  (variants term).map fun v => some (.text v)

def termValue (term : Text) : Clause (Option Arg) :=
  if fuzzyTerm U term = false then .exact (exactValue term)
  else .choice (exactValue term) (variantValues term)

def filterValues (options : ListOptions) : List (Clause (Option Arg)) :=
  (options.favorite.toList.map fun favorite => .favorite (some (.favorite favorite))) ++
    options.statuses.toList.map fun statuses => .statuses (some (.statuses statuses))

variable {b : Building} {values : List (Clause (Option Arg))} {owner : Id} {options : ListOptions}

theorem Builds.addFavorite (h : Builds b values) (favorite : Option Bool) :
    Builds (b.addFavorite favorite)
      (values ++ favorite.toList.map fun f => .favorite (some (.favorite f))) := by
  cases favorite with
  | none => simpa [Building.addFavorite] using h
  | some f =>
    have hpush := h.push (.favorite f) .favorite fun n => rfl
    rwa [Clause.map, argAt_next] at hpush

theorem Builds.addStatuses (h : Builds b values) (statuses : Option (List Text)) :
    Builds (b.addStatuses statuses)
      (values ++ statuses.toList.map fun l => .statuses (some (.statuses l))) := by
  cases statuses with
  | none => simpa [Building.addStatuses] using h
  | some l =>
    have hpush := h.push (.statuses l) .statuses fun n => rfl
    rwa [Clause.map, argAt_next] at hpush

theorem Builds.addToken (h : Builds b values) (token : Text) :
    Builds (b.addToken token) (values ++ [.exact (exactValue token)]) := by
  have hpush := h.push (.text (searchPattern token).2)
    (fun n => .exact ⟨(searchPattern token).1, n⟩) fun n => rfl
  rwa [Clause.map, Exact.map, argAt_next] at hpush

theorem Builds.addTokens (h : Builds b values) (tokens : List Text) :
    Builds (tokens.foldl Building.addToken b)
      (values ++ tokens.map fun t => .exact (exactValue t)) := by
  induction tokens generalizing b values with
  | nil => simpa using h
  | cons t ts ih => simpa using ih (h.addToken t)

/-- The conditions of a list stand for its options. -/
theorem listClauses_builds {q : ListQuery} (h : listClauses U owner options = .ok q) :
    Builds q.toBuilding (.owner (some (.owner owner)) ::
      (searchTerms U options.query).map (fun t => .exact (exactValue t)) ++
        filterValues options) := by
  obtain ⟨order, -, h⟩ := bind_eq_ok.mp h
  obtain rfl := Except.ok.inj h
  have hfilters := (((builds_start owner).addTokens (searchTerms U options.query)).addFavorite
    options.favorite).addStatuses options.statuses
  simpa [filterValues] using hfilters

def scoreValue (term : Text) : Score (Option Arg) := ⟨exactValue term, variantValues term⟩

structure Suggests (s : Suggesting) (owner : Id) (terms : List Text) : Prop where
  builds : Builds s.toBuilding (.owner (some (.owner owner)) :: terms.map (termValue U))
  exacts : s.exacts.map (Exact.map (argAt s.args)) = terms.map exactValue
  exactNumbers : ∀ e ∈ s.exacts, Numbers s.args e.pattern
  scores : s.scores.map (Score.map (argAt s.args)) = (terms.filter (fuzzyTerm U)).map scoreValue
  scoreNumbers : ∀ sc ∈ s.scores, ∀ n ∈ sc.placeholders, Numbers s.args n
  eligible : s.eligible = terms.any (fuzzyTerm U)

variable {U} {s : Suggesting} {terms : List Text} {term : Text} {more : List Arg}

theorem suggests_start (owner : Id) : Suggests U (Suggesting.start owner) owner [] where
  builds := builds_start owner
  exacts := rfl
  exactNumbers := by simp [Suggesting.start]
  scores := rfl
  scoreNumbers := by simp [Suggesting.start]
  eligible := rfl

theorem Suggests.exacts_append (h : Suggests U s owner terms) (more : List Arg) :
    s.exacts.map (Exact.map (argAt (s.args ++ more))) = terms.map exactValue := by
  rw [← h.exacts]
  exact List.map_congr_left fun e he => Exact.map_congr (argAt_append (h.exactNumbers e he))

theorem Suggests.scores_append (h : Suggests U s owner terms) (more : List Arg) :
    s.scores.map (Score.map (argAt (s.args ++ more))) =
      (terms.filter (fuzzyTerm U)).map scoreValue := by
  rw [← h.scores]
  exact List.map_congr_left fun sc hsc =>
    Score.map_congr fun n hn => argAt_append (h.scoreNumbers sc hsc n hn)

theorem Suggests.addExact (h : Suggests U s owner terms) (hfuzzy : fuzzyTerm U term = false) :
    Suggests U (s.addTerm U term) owner (terms ++ [term]) := by
  have hadd : s.addTerm U term =
      ⟨s.toBuilding.addToken term, s.exacts ++ [⟨(searchPattern term).1, s.args.length + 1⟩],
        s.scores, s.eligible⟩ := by
    simp [Suggesting.addTerm, hfuzzy, Building.addToken, Building.push]
  have hargs : (s.toBuilding.addToken term).args = s.args ++ [.text (searchPattern term).2] := rfl
  rw [hadd]
  refine ⟨?_, ?_, ?_, ?_, ?_, ?_⟩
  · have hbuilds := h.builds.addToken term
    rw [List.map_append, ← List.cons_append]
    simpa [termValue, hfuzzy] using hbuilds
  · dsimp only
    rw [hargs, List.map_append, h.exacts_append, List.map_append]
    simp only [List.map_cons, List.map_nil, Exact.map, argAt_next, exactValue]
  · intro e he
    rcases List.mem_append.mp he with hold | hnew
    · exact (h.exactNumbers e hold).append _
    · rw [List.mem_singleton.mp hnew]
      exact ⟨by simp, by simp [hargs]⟩
  · dsimp only
    rw [hargs, h.scores_append, List.filter_append]
    simp [hfuzzy]
  · exact fun sc hsc n hn => (h.scoreNumbers sc hsc n hn).append _
  · simp [h.eligible, hfuzzy]

def fuzzyArgs (term : Text) : List Arg :=
  .text (searchPattern term).2 :: (variants term).map Arg.text

theorem Suggesting.addTerm_fuzzy (s : Suggesting) (hfuzzy : fuzzyTerm U term = true) :
    s.addTerm U term =
      ⟨⟨s.args ++ fuzzyArgs term,
        s.clauses ++ [.choice ⟨(searchPattern term).1, s.args.length + 1⟩
          (List.range' (s.args.length + 2) (variants term).length)]⟩,
        s.exacts ++ [⟨(searchPattern term).1, s.args.length + 1⟩],
        s.scores ++ [⟨⟨(searchPattern term).1, s.args.length + 1⟩,
          List.range' (s.args.length + 2) (variants term).length⟩], true⟩ := by
  simp [Suggesting.addTerm, hfuzzy, addVariants_eq, fuzzyArgs]

theorem scoreValue_at (args : List Arg) (term : Text) :
    (⟨⟨(searchPattern term).1, args.length + 1⟩,
        List.range' (args.length + 2) (variants term).length⟩ : Score Nat).map
      (argAt (args ++ fuzzyArgs term)) = scoreValue term := by
  have hrange := argAt_range (args ++ [.text (searchPattern term).2]) Arg.text (variants term)
  rw [List.length_append, List.length_singleton, List.append_assoc, List.singleton_append]
    at hrange
  rw [Score.map, Exact.map, fuzzyArgs, argAt_next, hrange]
  rfl

theorem mem_fuzzyNumbers {k m n : Nat} :
    n ∈ (k + 1) :: List.range' (k + 2) m ↔ k + 1 ≤ n ∧ n ≤ k + 1 + m := by
  rw [List.mem_cons, List.mem_range'_1]
  omega

theorem Suggests.addFuzzy (h : Suggests U s owner terms) (hfuzzy : fuzzyTerm U term = true) :
    Suggests U (s.addTerm U term) owner (terms ++ [term]) := by
  have hlength : (s.args ++ fuzzyArgs term).length =
      s.args.length + 1 + (variants term).length := by
    simp [fuzzyArgs]
    omega
  have hvalue := scoreValue_at s.args term
  have hexact : (⟨(searchPattern term).1, s.args.length + 1⟩ : Exact Nat).map
      (argAt (s.args ++ fuzzyArgs term)) = exactValue term := congrArg Score.exact hvalue
  have hvariants : (List.range' (s.args.length + 2) (variants term).length).map
      (argAt (s.args ++ fuzzyArgs term)) = variantValues term := congrArg Score.variants hvalue
  have hnumbers : ∀ n ∈ (s.args.length + 1) ::
      List.range' (s.args.length + 2) (variants term).length,
      Numbers (s.args ++ fuzzyArgs term) n := by
    intro n hn
    obtain ⟨hlow, hhigh⟩ := mem_fuzzyNumbers.mp hn
    exact ⟨(Nat.le_add_left 1 _).trans hlow, hlength ▸ hhigh⟩
  rw [s.addTerm_fuzzy hfuzzy]
  refine ⟨?_, ?_, ?_, ?_, ?_, ?_⟩
  · have hvalues : (terms ++ [term]).map (termValue U) = terms.map (termValue U) ++
        [.choice (exactValue term) (variantValues term)] := by
      simp [termValue, hfuzzy]
    rw [hvalues, ← List.cons_append, ← hexact, ← hvariants]
    refine h.builds.extend _ _ hnumbers fun n hn hnew => mem_fuzzyNumbers.mpr ⟨hnew, ?_⟩
    exact hlength ▸ hn.2
  · dsimp only
    rw [List.map_append, h.exacts_append, List.map_append, List.map_singleton, List.map_singleton,
      hexact]
  · intro e he
    rcases List.mem_append.mp he with hold | hnew
    · exact (h.exactNumbers e hold).append _
    · rw [List.mem_singleton.mp hnew]
      exact hnumbers _ (List.mem_cons_self ..)
  · dsimp only
    rw [List.map_append, h.scores_append, List.map_singleton, hvalue, List.filter_append]
    simp [hfuzzy]
  · intro sc hsc n hn
    rcases List.mem_append.mp hsc with hold | hnew
    · exact (h.scoreNumbers sc hold n hn).append _
    · rw [List.mem_singleton.mp hnew] at hn
      exact hnumbers n hn
  · simp [hfuzzy]

theorem Suggests.addTerm (h : Suggests U s owner terms) (term : Text) :
    Suggests U (s.addTerm U term) owner (terms ++ [term]) := by
  cases hfuzzy : fuzzyTerm U term with
  | false => exact h.addExact hfuzzy
  | true => exact h.addFuzzy hfuzzy

theorem Suggests.addTerms (h : Suggests U s owner terms) (added : List Text) :
    Suggests U (added.foldl (Suggesting.addTerm U) s) owner (terms ++ added) := by
  induction added generalizing s terms with
  | nil => simpa using h
  | cons t ts ih => simpa using ih (h.addTerm t)

theorem Suggests.placeholders (h : Suggests U s owner terms) :
    Builds ⟨s.args, s.clauses ++ [.notAll s.exacts]⟩
      (.owner (some (.owner owner)) :: terms.map (termValue U) ++ [.notAll (terms.map exactValue)]) := by
  have hbuilds := h.builds.extend [] (.notAll s.exacts) ?_ ?_
  · rwa [List.append_nil, Clause.map, h.exacts] at hbuilds
  · intro n hn
    obtain ⟨e, he, rfl⟩ := List.mem_map.mp hn
    rw [List.append_nil]
    exact h.exactNumbers e he
  · intro n hn hnew
    rw [List.append_nil] at hn
    exact absurd hn.2 (by omega)

/-- The conditions, the scores and the limit stand for the terms and the filters, and every
argument is used. -/
structure SuggestionQuery.Stands (q : SuggestionQuery) (U : UnicodeTables) (owner : Id)
    (options : ListOptions) : Prop where
  clauses : q.clauses.map (Clause.map (argAt q.args)) =
    .owner (some (.owner owner)) :: (searchTerms U options.query).map (termValue U) ++
      [.notAll ((searchTerms U options.query).map exactValue)] ++ filterValues options
  scores : q.scores.map (Score.map (argAt q.args)) =
    ((searchTerms U options.query).filter (fuzzyTerm U)).map scoreValue
  limit : argAt q.args q.limit = some (.limit suggestionLimit)
  numbers : ∀ c ∈ q.clauses, ∀ n ∈ c.placeholders, Numbers q.args n
  used : ∀ n, Numbers q.args n → (∃ c ∈ q.clauses, n ∈ c.placeholders) ∨ n = q.limit

theorem Building.addFavorite_args (b : Building) (favorite : Option Bool) :
    (b.addFavorite favorite).args = b.args ++ favorite.toList.map Arg.favorite := by
  cases favorite with
  | none => exact (List.append_nil _).symm
  | some f => rfl

theorem Building.addStatuses_args (b : Building) (statuses : Option (List Text)) :
    (b.addStatuses statuses).args = b.args ++ statuses.toList.map Arg.statuses := by
  cases statuses with
  | none => exact (List.append_nil _).symm
  | some l => rfl

theorem suggestionTerms_eq {query : Text} (h : suggestionTerms U query = .ok terms) :
    terms = searchTerms U query := by
  obtain ⟨-, -, h⟩ := bind_eq_ok.mp h
  obtain ⟨-, -, h⟩ := bind_eq_ok.mp h
  exact (Except.ok.inj h).symm

def Suggesting.finish (s : Suggesting) (options : ListOptions) : SuggestionQuery :=
  let b : Building := ⟨s.args, s.clauses ++ [.notAll s.exacts]⟩
  let b := (b.addFavorite options.favorite).addStatuses options.statuses
  ⟨⟨b.args ++ [.limit suggestionLimit], b.clauses⟩, s.scores, b.args.length + 1⟩

theorem suggestionQuery_eq {r : Option SuggestionQuery}
    (h : suggestionQuery U owner options = .ok r) :
    r = if ((searchTerms U options.query).foldl (Suggesting.addTerm U)
        (Suggesting.start owner)).eligible = false then none
      else some (((searchTerms U options.query).foldl (Suggesting.addTerm U)
        (Suggesting.start owner)).finish options) := by
  obtain ⟨terms, hterms, h⟩ := bind_eq_ok.mp h
  rw [suggestionTerms_eq hterms] at h
  dsimp only at h
  split at h
  · next hnone => rw [if_pos hnone, ← Except.ok.inj h]
  · next hsome =>
    obtain ⟨-, -, h⟩ := bind_eq_ok.mp h
    rw [if_neg hsome, ← Except.ok.inj h]
    rfl

theorem suggestionQuery_some {q : SuggestionQuery}
    (h : suggestionQuery U owner options = .ok (some q)) :
    q = ((searchTerms U options.query).foldl (Suggesting.addTerm U)
      (Suggesting.start owner)).finish options := by
  have hq := suggestionQuery_eq h
  split at hq
  · exact absurd hq (by simp)
  · exact Option.some.inj hq

theorem Suggests.finish (h : Suggests U s owner (searchTerms U options.query)) :
    (s.finish options).Stands U owner options := by
  have hbuilds := (h.placeholders.addFavorite options.favorite).addStatuses options.statuses
  rw [List.append_assoc, ← filterValues] at hbuilds
  refine ⟨hbuilds.resolves_append _, ?_, argAt_next _ _ _, ?_, ?_⟩
  · dsimp only [Suggesting.finish]
    rw [Building.addStatuses_args, Building.addFavorite_args, List.append_assoc, List.append_assoc]
    exact h.scores_append _
  · exact fun c hc n hn => (hbuilds.numbers c hc n hn).append _
  · intro n hn
    rcases lt_or_ge ((s.finish options).limit - 1) n with hlast | hold
    · refine Or.inr (le_antisymm ?_ (Nat.le_of_pred_lt hlast))
      simpa [Suggesting.finish] using hn.2
    · exact Or.inl (hbuilds.used n ⟨hn.1, hold⟩)

/-- The query of the suggestions stands for its options. -/
theorem suggestionQuery_stands {q : SuggestionQuery}
    (h : suggestionQuery U owner options = .ok (some q)) : q.Stands U owner options := by
  rw [suggestionQuery_some h]
  exact ((suggests_start owner).addTerms (searchTerms U options.query)).finish

end Values

end Noted.Search
