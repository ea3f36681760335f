import Noted.Search.Server

/-!
# The web app's search (web/src/app/core/search.ts)

The same functions as the API's, as the browser computes them: regular
expression replacements over the whole text instead of a loop over its runes,
JavaScript's lower case with its final sigma, and JavaScript's white space.
-/

namespace Noted.Browser

open Library.Words
open Search (Word splitWord gluedCatalogue)

variable (U : UnicodeTables)

def replaceNumberSigns : Text → Text
  | [] => []
  | [c] => [c]
  | c :: d :: ds =>
    if (c = 'n' ∨ c = 'N') ∧ (d = '°' ∨ d = 'º') then "no ".toList ++ replaceNumberSigns ds
    else c :: replaceNumberSigns (d :: ds)

/-- `Final_Sigma`: a cased letter before and none after, case-ignorable
characters aside. `before` is what precedes the letter, nearest first. -/
def finalSigma (before after : Text) : Bool :=
  (before.dropWhile U.isCaseIgnorable).head?.any U.isCased &&
    !(after.dropWhile U.isCaseIgnorable).head?.any U.isCased

def toLowerFrom (before : Text) : Text → Text
  | [] => []
  | c :: cs =>
    (if c = 'Σ' then [if finalSigma U before cs then 'ς' else 'σ']
      else if c = dottedI then ['i', combiningDot]
      else [U.lower c]) ++ toLowerFrom (c :: before) cs

def toLowerCase (text : Text) : Text := toLowerFrom U [] text

def leftover (c : Char) : Text :=
  match c with
  | 'ø' => "o".toList
  | 'ł' => "l".toList
  | 'ß' => "ss".toList
  | 'æ' => "ae".toList
  | 'œ' => "oe".toList
  | 'đ' => "d".toList
  | 'ð' => "d".toList
  | 'þ' => "th".toList
  | 'ı' => "i".toList
  | 'ς' => "σ".toList
  | '♯' => " sharp ".toList
  | '#' => " sharp ".toList
  | '♭' => " flat ".toList
  | c => [c]

def normalized (text : Text) : Text :=
  (toLowerCase U (U.nfkd (replaceNumberSigns text))).flatMap leftover

/-- `.replace(/[^\p{L}\p{N}]+/gu, ' ')`: one space for every run of other characters. -/
def collapse (inRun : Bool) : Text → Text
  | [] => []
  | c :: cs =>
    if U.isWordRune c then c :: collapse false cs
    else if inRun then collapse true cs
    else ' ' :: collapse true cs

def foldLetters (text : Text) : Text :=
  collapse U false ((normalized U text).filter fun c => !U.isMark c)

def fold (text : Text) : Text := jsTrim (foldLetters U text)

def CATALOGUES : List (Text × Text) :=
  [("op".toList, "op".toList), ("opus".toList, "op".toList), ("no".toList, "no".toList),
    ("nr".toList, "no".toList), ("bwv".toList, "bwv".toList), ("k".toList, "k".toList),
    ("kv".toList, "k".toList), ("hob".toList, "hob".toList), ("d".toList, "d".toList),
    ("l".toList, "l".toList), ("s".toList, "s".toList), ("hwv".toList, "hwv".toList),
    ("rv".toList, "rv".toList), ("bb".toList, "bb".toList), ("woo".toList, "woo".toList),
    ("sz".toList, "sz".toList)]

def GERMAN_KEYS : List (Text × Text) :=
  [("c".toList, "c".toList), ("d".toList, "d".toList), ("e".toList, "e".toList),
    ("f".toList, "f".toList), ("g".toList, "g".toList), ("a".toList, "a".toList),
    ("h".toList, "b".toList), ("b".toList, "b flat".toList), ("cis".toList, "c sharp".toList),
    ("dis".toList, "d sharp".toList), ("eis".toList, "e sharp".toList),
    ("fis".toList, "f sharp".toList), ("gis".toList, "g sharp".toList),
    ("ais".toList, "a sharp".toList), ("his".toList, "b sharp".toList),
    ("ces".toList, "c flat".toList), ("des".toList, "d flat".toList),
    ("es".toList, "e flat".toList), ("fes".toList, "f flat".toList),
    ("ges".toList, "g flat".toList), ("as".toList, "a flat".toList)]

def GERMAN_MODES : List (Text × Text) :=
  [("dur".toList, "major".toList), ("moll".toList, "minor".toList)]

def singleNote (w : Text) : Bool :=
  match w with
  | [c] => 'a' ≤ c && c ≤ 'g'
  | _ => false

def shortCatalogue (w : Text) : Bool := ["s".toList, "d".toList, "l".toList].contains w

def pushWords (word : Text) (allowed : Bool) : List Word :=
  match gluedCatalogue word with
  | some (head, number) =>
    if (CATALOGUES.lookup head).isSome && (!shortCatalogue head || allowed) then
      [⟨head, allowed⟩, ⟨number, false⟩]
    else [⟨word, allowed⟩]
  | none => [⟨word, allowed⟩]

def spanAllowed (s : Span Char) : Bool :=
  (jsTrim s.before).isEmpty || ".".toList.isPrefixOf s.after

def catalogueWords (text : Text) : List Word :=
  (spans U.inWord (normalized U text)).flatMap fun s => pushWords (fold U s.word) (spanAllowed s)

def readTerm (opusParts : Bool) (w : Word) (rest : List Word) : List Text × Nat :=
  let word := w.text
  let next := Search.wordAt rest 0
  let third := Search.wordAt rest 1
  let catalogue :=
    if shortCatalogue word && !w.shortAllowed then none else CATALOGUES.lookup word
  if catalogue == some "hob".toList && Search.romanNumeral next && Search.catalogueNumber third then
    (["hob".toList ++ next ++ third], 2)
  else if catalogue.isSome && Search.catalogueNumber next then
    let term := catalogue.getD [] ++ next
    if opusParts && catalogue == some "op".toList && Search.opusPart third then
      ([term, "no".toList ++ third], 2)
    else ([term], 1)
  else if (GERMAN_KEYS.lookup word).isSome && (GERMAN_MODES.lookup next).isSome then
    ([((GERMAN_KEYS.lookup word).getD []).filter (· ≠ ' ') ++ (GERMAN_MODES.lookup next).getD []], 1)
  else if Search.englishFlat word then
    if next == "major".toList || next == "minor".toList then
      ([word.take 1 ++ "flat".toList ++ next], 1)
    else ([word.take 1 ++ "flat".toList], 0)
  else if singleNote word && (next == "sharp".toList || next == "flat".toList) then
    if ["major".toList, "minor".toList, "m".toList].contains third then
      ([word ++ next ++ (if third == "m".toList then "minor".toList else third)], 2)
    else ([word ++ next], 1)
  else if singleNote word && (next == "major".toList || next == "minor".toList) then
    ([word ++ next], 1)
  else ([word], 0)

def scanTerms (opusParts : Bool) : Nat → List Word → List Text
  | _, [] => []
  | skip + 1, _ :: ws => scanTerms opusParts skip ws
  | 0, w :: ws =>
    (readTerm opusParts w ws).1 ++ scanTerms opusParts (readTerm opusParts w ws).2 ws

def catalogueTerms (text : Text) (opusParts : Bool) : List Text :=
  scanTerms opusParts 0 (catalogueWords U text)

def searchTerms (text : Text) : List Text := catalogueTerms U text false

def addTerm (acc : Text × List Text) (term : Text) : Text × List Text :=
  if acc.2.contains term then acc
  else (acc.1 ++ ((if acc.1.isEmpty then [] else [' ']) ++ term), term :: acc.2)

def searchIndex (texts : List Text) : Text :=
  let index := [' '].intercalate ((texts.map (fold U)).filter fun f => !f.isEmpty)
  let seen := index.splitOn ' '
  (texts.foldl (fun acc field => (catalogueTerms U field true).foldl addTerm acc) (index, seen)).1

/-- `/^[a-g](?:sharp|flat)?(?:major|minor)$|^[a-g](?:sharp|flat)$/` -/
def isKeyTerm (term : Text) : Bool :=
  match term with
  | [] => false
  | c :: rest =>
    'a' ≤ c && c ≤ 'g' &&
      ["major".toList, "minor".toList, "sharpmajor".toList, "sharpminor".toList,
        "flatmajor".toList, "flatminor".toList, "sharp".toList, "flat".toList].contains rest

def matchesSearchTerm (index term : Text) : Bool :=
  if !isKeyTerm term then contains index term
  else (index.splitOn ' ').any fun word =>
    word == term ||
      (!("major".toList.isSuffixOf term || "minor".toList.isSuffixOf term) && term.isPrefixOf word)

end Noted.Browser
