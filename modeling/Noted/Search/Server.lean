import Noted.Unicode
import Noted.Library.Like

/-!
# The API's search (internal/app/search.go)

`foldSearch` is the search form of a text, `catalogueTerms` its words with
catalogue numbers and keys written one way, `searchIndex` the text stored for a
piece and `searchPattern` the LIKE pattern of one search term. A word list is
scanned left to right; `i += k` in the source is a count of words to skip here.
-/

namespace Noted.Search

open Library.Words
open Library (Like.like)

variable (U : UnicodeTables)

/-- Letters that keep no combining mark to strip, and the accidentals. -/
def foldLeftovers : List (Text × Text) :=
  [("ø".toList, "o".toList), ("ł".toList, "l".toList), ("ß".toList, "ss".toList),
    ("æ".toList, "ae".toList), ("œ".toList, "oe".toList), ("đ".toList, "d".toList),
    ("ð".toList, "d".toList), ("þ".toList, "th".toList), ("ı".toList, "i".toList),
    ("ς".toList, "σ".toList), ("♯".toList, " sharp ".toList), ("#".toList, " sharp ".toList),
    ("♭".toList, " flat ".toList)]

def numberSigns : List (Text × Text) :=
  [("N°".toList, "no ".toList), ("n°".toList, "no ".toList), ("Nº".toList, "no ".toList),
    ("nº".toList, "no ".toList)]

def normalizedSearch (text : Text) : Text :=
  newReplacer foldLeftovers ((U.nfkd (newReplacer numberSigns text)).map U.lower)

/-- The loop of `foldSearch`: `gap` is set after any other character, `written`
once the builder is not empty. -/
def foldRunes (gap written : Bool) : Text → Text
  | [] => []
  | r :: rs =>
    if U.isMark r then foldRunes gap written rs
    else if U.isLetter r || U.isNumber r then
      (if gap && written then [' '] else []) ++ r :: foldRunes false true rs
    else foldRunes true written rs

def foldSearch (text : Text) : Text := foldRunes U false false (normalizedSearch U text)

def catalogues : List (Text × Text) :=
  [("op".toList, "op".toList), ("opus".toList, "op".toList), ("no".toList, "no".toList),
    ("nr".toList, "no".toList), ("bwv".toList, "bwv".toList), ("k".toList, "k".toList),
    ("kv".toList, "k".toList), ("hob".toList, "hob".toList), ("d".toList, "d".toList),
    ("l".toList, "l".toList), ("s".toList, "s".toList), ("hwv".toList, "hwv".toList),
    ("rv".toList, "rv".toList), ("bb".toList, "bb".toList), ("woo".toList, "woo".toList),
    ("sz".toList, "sz".toList)]

def germanKeys : List (Text × Text) :=
  [("c".toList, "c".toList), ("d".toList, "d".toList), ("e".toList, "e".toList),
    ("f".toList, "f".toList), ("g".toList, "g".toList), ("a".toList, "a".toList),
    ("h".toList, "b".toList), ("b".toList, "b flat".toList), ("cis".toList, "c sharp".toList),
    ("dis".toList, "d sharp".toList), ("eis".toList, "e sharp".toList),
    ("fis".toList, "f sharp".toList), ("gis".toList, "g sharp".toList),
    ("ais".toList, "a sharp".toList), ("his".toList, "b sharp".toList),
    ("ces".toList, "c flat".toList), ("des".toList, "d flat".toList),
    ("es".toList, "e flat".toList), ("fes".toList, "f flat".toList),
    ("ges".toList, "g flat".toList), ("as".toList, "a flat".toList)]

def germanModes : List (Text × Text) :=
  [("dur".toList, "major".toList), ("moll".toList, "minor".toList)]

def mapGet (m : List (Text × Text)) (key : Text) : Text := (m.lookup key).getD []

/-- `^[0-9]+[a-z]?$` -/
def catalogueNumber (w : Text) : Bool :=
  let rest := w.dropWhile Char.isDigit
  !(w.takeWhile Char.isDigit).isEmpty && (rest.isEmpty || (rest.length == 1 && rest.all Char.isLower))

/-- `^([a-z]+)([0-9]+[a-z]?)$` with its two groups. -/
def gluedCatalogue (w : Text) : Option (Text × Text) :=
  let head := w.takeWhile Char.isLower
  let number := w.dropWhile Char.isLower
  if !head.isEmpty && catalogueNumber number then some (head, number) else none

def opusPart (w : Text) : Bool := 1 ≤ w.length && w.length ≤ 3 && w.all Char.isDigit

def romanNumeral (w : Text) : Bool :=
  !w.isEmpty && w.all fun c => c == 'i' || c == 'v' || c == 'x' || c == 'l'

/-- `strings.Contains("abcdefg", word)` for a word of one byte. -/
def isNote (c : Char) : Bool := contains "abcdefg".toList [c]

def englishFlat (w : Text) : Bool :=
  match w with
  | [c, 'b'] => isNote c
  | _ => false

def shortCatalogue (w : Text) : Bool := w == "s".toList || w == "d".toList || w == "l".toList

structure Word where
  text : Text
  shortAllowed : Bool
  deriving DecidableEq

def splitWord (word : Text) (allowed : Bool) : List Word :=
  match gluedCatalogue word with
  | some (head, number) =>
    if mapGet catalogues head ≠ [] ∧ (shortCatalogue head = false ∨ allowed = true) then
      [⟨head, allowed⟩, ⟨number, false⟩]
    else [⟨word, allowed⟩]
  | none => [⟨word, allowed⟩]

/-- A possessive's s is not the catalogue S: a short head needs the start of the
text before it or a dot after it. -/
def spanAllowed (s : Span Char) : Bool :=
  (trimSpace s.before).isEmpty || ".".toList.isPrefixOf s.after

def catalogueWords (text : Text) : List Word :=
  (spans U.inWord (normalizedSearch U text)).flatMap fun s =>
    splitWord (foldSearch U s.word) (spanAllowed s)

def wordAt (rest : List Word) (k : Nat) : Text := (rest[k]?.map Word.text).getD []

/-- One turn of the scan of `catalogueTerms`: the terms of the word and how many
of the following words they use up. -/
def readTerm (opusParts : Bool) (w : Word) (rest : List Word) : List Text × Nat :=
  let word := w.text
  let next := wordAt rest 0
  let catalogue :=
    if shortCatalogue word && !w.shortAllowed then [] else mapGet catalogues word
  if catalogue = "hob".toList ∧ romanNumeral next ∧ catalogueNumber (wordAt rest 1) then
    ([catalogue ++ next ++ wordAt rest 1], 2)
  else if catalogue ≠ [] ∧ catalogueNumber next then
    if opusParts ∧ catalogue = "op".toList ∧ opusPart (wordAt rest 1) then
      ([catalogue ++ next, "no".toList ++ wordAt rest 1], 2)
    else ([catalogue ++ next], 1)
  else if mapGet germanKeys word ≠ [] ∧ mapGet germanModes next ≠ [] then
    ([(mapGet germanKeys word).filter (· ≠ ' ') ++ mapGet germanModes next], 1)
  else if englishFlat word then
    if next = "major".toList ∨ next = "minor".toList then
      ([word.take 1 ++ "flat".toList ++ next], 1)
    else ([word.take 1 ++ "flat".toList], 0)
  else if byteLen word = 1 ∧ contains "abcdefg".toList word ∧
      (next = "sharp".toList ∨ next = "flat".toList) then
    let key := word ++ next
    let mode := wordAt rest 1
    if mode = "major".toList ∨ mode = "minor".toList then ([key ++ mode], 2)
    else if mode = "m".toList then ([key ++ "minor".toList], 2)
    else ([key], 1)
  else if byteLen word = 1 ∧ contains "abcdefg".toList word ∧
      (next = "major".toList ∨ next = "minor".toList) then
    ([word ++ next], 1)
  else ([word], 0)

/-- The loop over `words`; the counter skips the words a term used up. -/
def scanTerms (opusParts : Bool) : Nat → List Word → List Text
  | _, [] => []
  | skip + 1, _ :: ws => scanTerms opusParts skip ws
  | 0, w :: ws =>
    (readTerm opusParts w ws).1 ++ scanTerms opusParts (readTerm opusParts w ws).2 ws

def catalogueTerms (text : Text) (opusParts : Bool) : List Text :=
  scanTerms opusParts 0 (catalogueWords U text)

def searchTerms (text : Text) : List Text := catalogueTerms U text false

def joinWords (words : List Text) : Text := [' '].intercalate words

def addTerm (acc : Text × List Text) (term : Text) : Text × List Text :=
  if term ∈ acc.2 then acc
  else (acc.1 ++ (if acc.1 ≠ [] then [' '] else []) ++ term, term :: acc.2)

def searchIndex (texts : List Text) : Text :=
  let folds := (texts.map (foldSearch U)).filter (· ≠ [])
  let terms := texts.flatMap (catalogueTerms U · true)
  let index := joinWords folds
  (terms.foldl addTerm (index, fields index)).1

/-- `^[a-g](?:sharp|flat)?(?:major|minor)$|^[a-g](?:sharp|flat)$` -/
def isKeyTerm (term : Text) : Bool :=
  match term with
  | [] => false
  | c :: rest =>
    isNote c &&
      (rest == "major".toList || rest == "minor".toList || rest == "sharpmajor".toList ||
        rest == "sharpminor".toList || rest == "flatmajor".toList || rest == "flatminor".toList ||
        rest == "sharp".toList || rest == "flat".toList)

def hasMode (term : Text) : Bool :=
  "major".toList.isSuffixOf term || "minor".toList.isSuffixOf term

def matchesSearchTerm (index term : Text) : Bool :=
  if !isKeyTerm term then contains index term
  else (fields index).any fun word => word == term || (!hasMode term && term.isPrefixOf word)

/-- The column a clause reads: `p.search_text` or `(' ' || p.search_text || ' ')`. -/
inductive SearchColumn
  | searchText
  | padded
  deriving DecidableEq

def SearchColumn.read (searchText : Text) : SearchColumn → Text
  | .searchText => searchText
  | .padded => ' ' :: searchText ++ [' ']

def likeEscape (text : Text) : Text :=
  newReplacer [("\\".toList, "\\\\".toList), ("%".toList, "\\%".toList), ("_".toList, "\\_".toList)]
    text

def searchPattern (term : Text) : SearchColumn × Text :=
  if isKeyTerm term then
    let suffix := if hasMode term then " %".toList else "%".toList
    (.padded, "% ".toList ++ likeEscape term ++ suffix)
  else (.searchText, "%".toList ++ likeEscape term ++ "%".toList)

/-- The clause `listClauses` builds for one term: `column LIKE pattern ESCAPE '\'`. -/
def likeClause (searchText term : Text) : Option Bool :=
  let (column, pattern) := searchPattern term
  Like.like '\\' (column.read searchText) pattern

/-- Exact whole terms outrank catalogue prefixes. -/
def exactTermRank (index : Text) (terms : List Text) : Nat :=
  (terms.filter fun term => !(fields index).contains term).length

end Noted.Search
