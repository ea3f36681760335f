import Noted.Search.Server
import Noted.Validation

/-!
# Composer names (internal/app/composer_sort.go, validation.go)

The surname that files a piece, its filing key, and the search text of a piece.
The two regular expressions are read off as scanners: `composerAsides` drops what
stands in brackets, `composerJoins` ends the first of several names. RE2's `\s` is
ASCII white space. The Unicode collation is a parameter.
-/

namespace Noted

open Search

variable (U : UnicodeTables)

def regexSpace (c : Char) : Bool :=
  c == '\t' || c == '\n' || c == Char.ofNat 12 || c == '\r' || c == ' '

/-- The length of the aside that starts here, brackets included. -/
def asideLength : Text → Option Nat
  | '(' :: rest => if rest.contains ')' then some ((rest.takeWhile (· ≠ ')')).length + 2) else none
  | '[' :: rest => if rest.contains ']' then some ((rest.takeWhile (· ≠ ']')).length + 2) else none
  | _ => none

/-- `composerAsides.ReplaceAllString(name, " ")`; the counter skips the rest of an
aside. -/
def replaceAsides : Nat → Text → Text
  | _, [] => []
  | skip + 1, _ :: cs => replaceAsides skip cs
  | 0, c :: cs =>
    match asideLength (c :: cs) with
    | some n => ' ' :: replaceAsides (n - 1) cs
    | none => c :: replaceAsides 0 cs

def conjunction (t : Text) : Bool :=
  match t with
  | '&' :: c :: _ => regexSpace c
  | a :: n :: d :: c :: _ => [a, n, d].map Char.toLower == "and".toList && regexSpace c
  | _ => false

def joinsHere (t : Text) : Bool :=
  let rest := t.dropWhile regexSpace
  (rest.length < t.length && conjunction rest) ||
    rest.head?.any fun c => c == '/' || c == ';' || c == '+'

def firstComposer : Text → Text
  | [] => []
  | c :: cs => if joinsHere (c :: cs) then [] else c :: firstComposer cs

def composerSuffixes : List Text :=
  ["jr".toList, "sr".toList, "ii".toList, "iii".toList, "iv".toList]

def isComposerSuffix (word : Text) : Bool :=
  composerSuffixes.contains ((trimBy (fun c => c == ' ' || c == '.' || c == ',') word).map U.lower)

def dropSuffixes : List Text → List Text
  | [] => []
  | word :: words => word :: words.rdropWhile (isComposerSuffix U)

def cutComma (name : Text) : Option (Text × Text) :=
  if name.contains ',' then
    some (name.takeWhile (· ≠ ','), (name.dropWhile (· ≠ ',')).tail)
  else none

def surnameOf (name : Text) : Text :=
  match (dropSuffixes U (fields name)).getLast? with
  | none => []
  | some word => trimBy (fun c => c == '.' || c == ',') word

def composerSurname (composer : Text) : Text :=
  let name := firstComposer (trimSpace (replaceAsides 0 composer))
  match cutComma name with
  | none => surnameOf U name
  | some (head, tail) =>
    if isComposerSuffix U tail then surnameOf U head
    else if fields head = [] then surnameOf U name
    else joinWords (fields head)

def composerSortKey (composer : Text) : Text :=
  let name := trimSpace (firstComposer (replaceAsides 0 composer))
  let key := fun name =>
    match dropSuffixes U (fields name) with
    | [] => []
    | word :: words =>
      foldSearch U (composerSurname U name ++ ' ' :: joinWords (word :: words).dropLast)
  match cutComma name with
  | none => key name
  | some (head, tail) =>
    if isComposerSuffix U tail then key head else foldSearch U (head ++ ' ' :: tail)

def composerKeyVersion : Nat := 1

def composerOrder (collate : Text → Text → Ordering) (a b : Text) : Ordering :=
  let aSurname := composerSurname U a
  let bSurname := composerSurname U b
  if (aSurname == []) != (bSurname == []) then
    if aSurname = [] then .gt else .lt
  else (collate aSurname bSurname).then (collate (trimSpace a) (trimSpace b))

def sortByComposer {α : Type*} (collate : Text → Text → Ordering) (pieces : List α)
    (composerOf : α → Text) : List α :=
  pieces.mergeSort fun a b => composerOrder U collate (composerOf a) (composerOf b) != .gt

def searchText (input : PieceInput) : Text :=
  searchIndex U [input.title, input.composer, input.aliases, input.notes, input.opus,
    input.musicKey]

end Noted
