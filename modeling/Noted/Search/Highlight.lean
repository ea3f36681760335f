import Noted.Library.Parts
import Noted.Search.Queries

/-!
# What a row marks (library.utils.ts, core/search.ts)

`matchParts` cuts a row's text where it matches the search. It looks for each term in
the text folded one letter at a time, and for a term that is not there among the
catalogue numbers and keys that `searchTermSpans` reads. Places are counted in code
points: `foldWithOffsets` gives the characters of the fold, each with its place, and the
results on `matchParts` and `searchTermSpans` are about it. `Utf16.foldWithOffsets` has the
three fields of the source in UTF-16 units, which the results on the offsets themselves are
about; `folded_foldFrom` says that both fold to the same text. A loop takes the number of
its turns and gives up when they are used up.
-/

namespace Noted.Browser

open Library Library.Words
open Search (Word catalogueNumber romanNumeral gluedCatalogue englishFlat)

variable (U : UnicodeTables)

/-- A folded character with where in the text it came from. -/
structure FoldedChar where
  char : Char
  start : Nat
  stop : Nat
  deriving DecidableEq

/-- One turn of the loop of `foldWithOffsets`, the newest character first: a combining
mark belongs to the letter before it. -/
def foldLetter (folds : List FoldedChar) (start : Nat) (letter : Text) : List FoldedChar :=
  let stop := start + letter.length
  match foldLetters U letter, folds with
  | [], last :: before => { last with stop := stop } :: before
  | folded, folds => (folded.map fun c => ⟨c, start, stop⟩).reverse ++ folds

def isNumberSign (c d : Char) : Bool := (c == 'n' || c == 'N') && (d == '°' || d == 'º')

def foldFrom (folds : List FoldedChar) (start : Nat) : Text → List FoldedChar
  | [] => folds.reverse
  | [c] => (foldLetter U folds start [c]).reverse
  | c :: d :: ds =>
    if isNumberSign c d then foldFrom (foldLetter U folds start [c, d]) (start + 2) ds
    else foldFrom (foldLetter U folds start [c]) (start + 1) (d :: ds)

def foldWithOffsets (text : Text) : List FoldedChar := foldFrom U [] 0 text

def folded (folds : List FoldedChar) : Text := folds.map FoldedChar.char

section Words

/-- A word of a folded text, mapped back to where it was written. -/
structure FoldedWord where
  word : Text
  start : Nat
  stop : Nat
  shortAllowed : Bool
  deriving DecidableEq

def wordOf (chars : List FoldedChar) (shortAllowed : Bool) : FoldedWord where
  word := folded chars
  start := (chars.head?.map FoldedChar.start).getD 0
  stop := (chars.getLast?.map FoldedChar.stop).getD 0
  shortAllowed := shortAllowed

def foldedWord (text : Text) (chars : List FoldedChar) : List FoldedWord :=
  let word := wordOf chars false
  let shortAllowed :=
    (jsTrim (text.take word.start)).isEmpty || text[word.stop]? == some '.'
  match gluedCatalogue word.word with
  | some (head, _) =>
    if (CATALOGUES.lookup head).isSome && (!shortCatalogue head || shortAllowed) then
      [wordOf (chars.take head.length) shortAllowed, wordOf (chars.drop head.length) false]
    else [wordOf chars shortAllowed]
  | none => [wordOf chars shortAllowed]

def foldedWords (text : Text) : List FoldedWord :=
  (spans (fun f => f.char != ' ') (foldWithOffsets U text)).flatMap fun s =>
    foldedWord text s.word

end Words

section Spans

/-- A catalogue number or key as written, and the search term it produces. -/
structure SearchSpan where
  term : Text
  start : Nat
  stop : Nat
  deriving DecidableEq

def FoldedWord.toWord (w : FoldedWord) : Word := ⟨w.word, w.shortAllowed⟩

def stopAt (rest : List FoldedWord) (k : Nat) : Nat := (rest[k]?.map FoldedWord.stop).getD 0

/-- One turn of the scan of `searchTermSpans`, and how many of the next words it uses up.
A word past the end is the empty text, which no test accepts. -/
def readSpans (w : FoldedWord) (rest : List FoldedWord) : List SearchSpan × Nat :=
  let word := w.word
  let next := Search.wordAt (rest.map FoldedWord.toWord) 0
  let third := Search.wordAt (rest.map FoldedWord.toWord) 1
  let catalogue :=
    if shortCatalogue word && !w.shortAllowed then none else CATALOGUES.lookup word
  if catalogue == some "hob".toList && romanNumeral next && catalogueNumber third then
    ([⟨"hob".toList ++ next ++ third, w.start, stopAt rest 1⟩], 2)
  else if catalogue.isSome && catalogueNumber next then
    ([⟨catalogue.getD [] ++ next, w.start, stopAt rest 0⟩], 1)
  else if (GERMAN_KEYS.lookup word).isSome && (GERMAN_MODES.lookup next).isSome then
    let key := ((GERMAN_KEYS.lookup word).getD []).filter (· ≠ ' ')
    ([⟨key, w.start, w.stop⟩,
      ⟨key ++ (GERMAN_MODES.lookup next).getD [], w.start, stopAt rest 0⟩], 1)
  else if englishFlat word then
    let head := word.take 1 ++ "flat".toList
    if next == "major".toList || next == "minor".toList then
      ([⟨head, w.start, w.stop⟩, ⟨head ++ next, w.start, stopAt rest 0⟩], 1)
    else ([⟨head, w.start, w.stop⟩], 0)
  else if singleNote word && (next == "sharp".toList || next == "flat".toList) then
    let head := word ++ next
    if ["major".toList, "minor".toList, "m".toList].contains third then
      ([⟨head, w.start, stopAt rest 0⟩,
        ⟨head ++ (if third == "m".toList then "minor".toList else third), w.start, stopAt rest 1⟩], 2)
    else ([⟨head, w.start, stopAt rest 0⟩], 1)
  else if singleNote word && (next == "major".toList || next == "minor".toList) then
    ([⟨word ++ next, w.start, stopAt rest 0⟩], 1)
  else ([], 0)

def scanSpans : Nat → List FoldedWord → List SearchSpan
  | _, [] => []
  | skip + 1, _ :: ws => scanSpans skip ws
  | 0, w :: ws => (readSpans w ws).1 ++ scanSpans (readSpans w ws).2 ws

def searchTermSpans (text : Text) : List SearchSpan := scanSpans 0 (foldedWords U text)

end Spans

end Noted.Browser

namespace Noted.Browser

open Library Library.Words

variable (U : UnicodeTables)

section Offsets

structure Offsets (length : Nat) (folds : List FoldedChar) : Prop where
  within : ∀ f ∈ folds, f.start < f.stop ∧ f.stop ≤ length
  sorted : folds.Pairwise fun f g => f.start ≤ g.start

structure OffsetsBack (length : Nat) (folds : List FoldedChar) : Prop where
  within : ∀ f ∈ folds, f.start < f.stop ∧ f.stop ≤ length
  sorted : folds.Pairwise fun f g => g.start ≤ f.start

theorem OffsetsBack.foldLetter {length : Nat} {folds : List FoldedChar} {letter : Text}
    (h : OffsetsBack length folds) (hletter : letter ≠ []) :
    OffsetsBack (length + letter.length) (foldLetter U folds length letter) := by
  have hpos : 0 < letter.length := List.length_pos_of_ne_nil hletter
  unfold Browser.foldLetter
  split
  · rename_i last before _
    constructor
    · intro f hf
      obtain rfl | hf := List.mem_cons.mp hf
      · have hlast := h.within last List.mem_cons_self
        constructor <;> dsimp only <;> omega
      · have hold := h.within f (List.mem_cons_of_mem _ hf)
        omega
    · obtain ⟨hlast, hbefore⟩ := List.pairwise_cons.mp h.sorted
      exact List.pairwise_cons.mpr ⟨hlast, hbefore⟩
  · constructor
    · intro f hf
      obtain hf | hf := List.mem_append.mp hf
      · obtain ⟨c, -, rfl⟩ := List.mem_map.mp (List.mem_reverse.mp hf)
        constructor <;> dsimp only <;> omega
      · have hold := h.within f hf
        omega
    · refine List.pairwise_append.mpr ⟨?_, h.sorted, ?_⟩
      · rw [List.pairwise_reverse, List.pairwise_map]
        exact List.pairwise_of_forall fun _ _ => le_rfl
      · intro f hf g hg
        obtain ⟨c, -, rfl⟩ := List.mem_map.mp (List.mem_reverse.mp hf)
        have hold := h.within g hg
        dsimp only
        omega

theorem OffsetsBack.reverse {length : Nat} {folds : List FoldedChar}
    (h : OffsetsBack length folds) : Offsets length folds.reverse where
  within f hf := h.within f (List.mem_reverse.mp hf)
  sorted := List.pairwise_reverse.mpr h.sorted

theorem OffsetsBack.foldFrom {start : Nat} {folds : List FoldedChar} (text : Text)
    (h : OffsetsBack start folds) :
    Offsets (start + text.length) (foldFrom U folds start text) := by
  fun_induction Browser.foldFrom U folds start text with
  | case1 folds start => exact h.reverse
  | case2 folds start c => exact (h.foldLetter U (List.cons_ne_nil c [])).reverse
  | case3 folds start c d ds hpair ih =>
    have hlen : start + (c :: d :: ds).length = start + 2 + ds.length := by
      simp only [List.length_cons]
      omega
    rw [hlen]
    exact ih (h.foldLetter U (List.cons_ne_nil c [d]))
  | case4 folds start c d ds hpair ih =>
    have hlen : start + (c :: d :: ds).length = start + 1 + (d :: ds).length := by
      simp only [List.length_cons]
      omega
    rw [hlen]
    exact ih (h.foldLetter U (List.cons_ne_nil c []))

theorem foldWithOffsets_offsets (text : Text) :
    Offsets text.length (foldWithOffsets U text) := by
  have hstart : OffsetsBack 0 [] := ⟨by simp, List.Pairwise.nil⟩
  simpa [foldWithOffsets] using hstart.foldFrom U text

variable {length : Nat} {folds : List FoldedChar}

theorem Offsets.filter (h : Offsets length folds) (p : FoldedChar → Bool) :
    Offsets length (folds.filter p) where
  within f hf := h.within f (List.mem_filter.mp hf).1
  sorted := h.sorted.filter p

theorem Offsets.sublist {part : List FoldedChar} (h : Offsets length folds)
    (hpart : part.Sublist folds) : Offsets length part where
  within f hf := h.within f (hpart.subset hf)
  sorted := h.sorted.sublist hpart

def Pieces (chars : List FoldedChar) (words : List FoldedWord) : Prop :=
  ∃ pieces : List (List FoldedChar × Bool), words = pieces.map (fun p => wordOf p.1 p.2) ∧
    pieces.flatMap Prod.fst = chars ∧ ∀ p ∈ pieces, p.1 ≠ []

theorem pieces_foldedWord (text : Text) {chars : List FoldedChar} (hne : chars ≠ []) :
    Pieces chars (foldedWord text chars) := by
  unfold foldedWord
  dsimp only
  generalize ((jsTrim (text.take (wordOf chars false).start)).isEmpty ||
    text[(wordOf chars false).stop]? == some '.') = allowed
  have hone : Pieces chars [wordOf chars allowed] := ⟨[(chars, allowed)], rfl, by simp, by simpa⟩
  split
  · rename_i head number hg
    split
    · obtain ⟨hword, hnumber⟩ := Search.gluedCatalogue_eq hg
      obtain ⟨c, cs, hhead, -⟩ := Search.gluedCatalogue_head hg
      obtain ⟨d, ds, hnum, -⟩ := Search.catalogueNumber_head hnumber
      have hlen : chars.length = head.length + number.length := by
        have hlength := congrArg List.length hword
        simpa [wordOf, folded] using hlength
      refine ⟨[(chars.take head.length, allowed), (chars.drop head.length, false)], rfl,
        by simp, ?_⟩
      intro p hp
      simp only [List.mem_cons, List.not_mem_nil, or_false] at hp
      obtain rfl | rfl := hp
      · simp [hhead, hne]
      · have hlt : head.length < chars.length := by
          rw [hlen, hnum, List.length_cons]
          omega
        simp [hlt]
    · exact hone
  · exact hone

theorem Pieces.append {chars chars' : List FoldedChar} {words words' : List FoldedWord}
    (h : Pieces chars words) (h' : Pieces chars' words') :
    Pieces (chars ++ chars') (words ++ words') := by
  obtain ⟨pieces, rfl, rfl, hne⟩ := h
  obtain ⟨pieces', rfl, rfl, hne'⟩ := h'
  refine ⟨pieces ++ pieces', by simp, by simp, ?_⟩
  intro p hp
  obtain hp | hp := List.mem_append.mp hp
  · exact hne p hp
  · exact hne' p hp

theorem pieces_foldedWords (text : Text) :
    Pieces ((foldWithOffsets U text).filter fun f => f.char != ' ') (foldedWords U text) := by
  rw [← spans_flatMap_word, foldedWords]
  have hall : ∀ s ∈ spans (fun f => f.char != ' ') (foldWithOffsets U text), s.word ≠ [] :=
    fun s hs => (spans_sound hs).2.1
  generalize spans (fun f => f.char != ' ') (foldWithOffsets U text) = runs at hall ⊢
  induction runs with
  | nil => exact ⟨[], rfl, rfl, by simp⟩
  | cons s ss ih =>
    rw [List.flatMap_cons, List.flatMap_cons]
    have hs := pieces_foldedWord text (hall s List.mem_cons_self)
    exact hs.append (ih fun s hs => hall s (List.mem_cons_of_mem _ hs))

structure WordOffsets (length : Nat) (words : List FoldedWord) : Prop where
  within : ∀ w ∈ words, w.start < w.stop ∧ w.stop ≤ length
  sorted : words.Pairwise fun v w => v.start ≤ w.start

theorem wordOf_within {chars : List FoldedChar} (h : Offsets length chars) (hne : chars ≠ [])
    (allowed : Bool) :
    (wordOf chars allowed).start < (wordOf chars allowed).stop ∧
      (wordOf chars allowed).stop ≤ length := by
  have hhead : (wordOf chars allowed).start = (chars.head hne).start := by
    simp [wordOf, List.head?_eq_some_head hne]
  have hlast : (wordOf chars allowed).stop = (chars.getLast hne).stop := by
    simp [wordOf, List.getLast?_eq_some_getLast hne]
  have hmem := h.within _ (List.getLast_mem hne)
  have hle : (chars.head hne).start ≤ (chars.getLast hne).start := by
    cases chars with
    | nil => exact absurd rfl hne
    | cons f fs =>
      cases fs with
      | nil => simp
      | cons g gs =>
        have hfirst := (List.pairwise_cons.mp h.sorted).1
        rw [List.getLast_cons (List.cons_ne_nil g gs)]
        exact hfirst _ (List.getLast_mem _)
  omega

theorem foldedWords_offsets (text : Text) : WordOffsets text.length (foldedWords U text) := by
  obtain ⟨pieces, hwords, hchars, hne⟩ := pieces_foldedWords U text
  have h := (foldWithOffsets_offsets U text).filter fun f => f.char != ' '
  rw [← hchars, List.flatMap] at h
  have hpiece : ∀ p ∈ pieces, Offsets text.length p.1 := by
    intro p hp
    exact h.sublist (List.sublist_flatten_of_mem (List.mem_map.mpr ⟨p, hp, rfl⟩))
  rw [hwords]
  constructor
  · intro w hw
    obtain ⟨p, hp, rfl⟩ := List.mem_map.mp hw
    exact wordOf_within (hpiece p hp) (hne p hp) p.2
  · have hpairs := (List.pairwise_flatten.mp h.sorted).2
    rw [List.pairwise_map] at hpairs ⊢
    refine hpairs.imp_of_mem ?_
    intro p q hp hq hpq
    have hphead := List.head_mem (hne p hp)
    have hqhead := List.head_mem (hne q hq)
    have hle := hpq _ hphead _ hqhead
    simpa [wordOf, List.head?_eq_some_head (hne p hp), List.head?_eq_some_head (hne q hq)] using hle

end Offsets

section SpanOffsets

variable {length : Nat}

theorem WordOffsets.tail {w : FoldedWord} {ws : List FoldedWord}
    (h : WordOffsets length (w :: ws)) : WordOffsets length ws where
  within v hv := h.within v (List.mem_cons_of_mem _ hv)
  sorted := (List.pairwise_cons.mp h.sorted).2

theorem WordOffsets.stopAt {w : FoldedWord} {ws : List FoldedWord}
    (h : WordOffsets length (w :: ws)) {k : Nat}
    (hk : Search.wordAt (ws.map FoldedWord.toWord) k ≠ []) :
    w.start < stopAt ws k ∧ stopAt ws k ≤ length := by
  obtain ⟨v, hv, -⟩ := Search.exists_of_wordAt hk
  rw [List.getElem?_map, Option.map_eq_some_iff] at hv
  obtain ⟨u, hu, -⟩ := hv
  have hmem : u ∈ ws := List.mem_of_getElem? hu
  have hwithin := h.within u (List.mem_cons_of_mem _ hmem)
  have hle := (List.pairwise_cons.mp h.sorted).1 u hmem
  simp only [Browser.stopAt, hu, Option.map_some, Option.getD_some]
  omega

theorem readSpans_within {w : FoldedWord} {ws : List FoldedWord}
    (h : WordOffsets length (w :: ws)) :
    ∀ s ∈ (readSpans w ws).1, s.start < s.stop ∧ s.stop ≤ length := by
  have hw := h.within w List.mem_cons_self
  have hat : ∀ k, Search.wordAt (ws.map FoldedWord.toWord) k ≠ [] →
      w.start < Browser.stopAt ws k ∧ Browser.stopAt ws k ≤ length := fun k hk => h.stopAt hk
  have hnumber : ∀ {t}, Search.catalogueNumber t = true → t ≠ [] := by
    intro t ht hnil
    subst hnil
    cases ht
  have hmode : ∀ {t}, (GERMAN_MODES.lookup t).isSome = true → t ≠ [] := by
    intro t ht hnil
    subst hnil
    cases ht
  have hword : ∀ {t v : Text}, v ≠ [] → (t == v) = true → t ≠ [] := by
    intro t v hv ht
    rw [beq_iff_eq.mp ht]
    exact hv
  unfold readSpans
  dsimp only
  generalize (if shortCatalogue w.word && !w.shortAllowed then none
    else CATALOGUES.lookup w.word) = catalogue
  split_ifs with hhob hcat hgerman hflat hflatmode hsharp hsharpmode hm hnatural
  · simp only [Bool.and_eq_true] at hhob
    simpa using hat 1 (hnumber hhob.2)
  · rw [Bool.and_eq_true] at hcat
    simpa using hat 0 (hnumber hcat.2)
  · rw [Bool.and_eq_true] at hgerman
    simpa using ⟨hw, hat 0 (hmode hgerman.2)⟩
  · rw [Bool.or_eq_true] at hflatmode
    have hne := hflatmode.elim (hword (by decide)) (hword (by decide))
    simpa using ⟨hw, hat 0 hne⟩
  · simpa using hw
  · simp only [Bool.and_eq_true, Bool.or_eq_true] at hsharp
    have hne := hsharp.2.elim (hword (by decide)) (hword (by decide))
    simpa using ⟨hat 0 hne, hat 1 (hword (by decide) hm)⟩
  · simp only [Bool.and_eq_true, Bool.or_eq_true] at hsharp
    have hne := hsharp.2.elim (hword (by decide)) (hword (by decide))
    have hthird : Search.wordAt (ws.map FoldedWord.toWord) 1 ≠ [] := by
      intro hnil
      rw [hnil] at hsharpmode
      cases hsharpmode
    simpa using ⟨hat 0 hne, hat 1 hthird⟩
  · simp only [Bool.and_eq_true, Bool.or_eq_true] at hsharp
    have hne := hsharp.2.elim (hword (by decide)) (hword (by decide))
    simpa using hat 0 hne
  · simp only [Bool.and_eq_true, Bool.or_eq_true] at hnatural
    have hne := hnatural.2.elim (hword (by decide)) (hword (by decide))
    simpa using hat 0 hne
  · simp

theorem scanSpans_within (skip : Nat) {ws : List FoldedWord} (h : WordOffsets length ws) :
    ∀ s ∈ scanSpans skip ws, s.start < s.stop ∧ s.stop ≤ length := by
  induction ws generalizing skip with
  | nil => cases skip <;> simp [scanSpans]
  | cons w ws ih =>
    cases skip with
    | succ skip => exact ih skip h.tail
    | zero =>
      intro s hs
      obtain hs | hs := List.mem_append.mp hs
      · exact readSpans_within h s hs
      · exact ih _ h.tail s hs

theorem searchTermSpans_within (text : Text) :
    ∀ s ∈ searchTermSpans U text, s.start < s.stop ∧ s.stop ≤ text.length :=
  scanSpans_within 0 (foldedWords_offsets U text)

end SpanOffsets

end Noted.Browser

namespace Noted.LibraryPage

open Library
open Browser (FoldedChar foldWithOffsets folded searchTermSpans SearchSpan)

variable (U : UnicodeTables)

/-- `String.prototype.indexOf`; the empty text is found at every place. -/
def indexOf (text word : Text) (start : Nat) : Option Nat :=
  (List.range (text.length + 1)).find? fun i =>
    min start text.length ≤ i && word.isPrefixOf (text.drop i)

/-- The places where a word is found, each looked for one place after the last. -/
def places (text word : Text) : Nat → Nat → Option (List Nat)
  | 0, _ => none
  | turns + 1, start =>
    match indexOf text word start with
    | none => some []
    | some i => (places text word turns (i + 1)).map (i :: ·)

def spaceBefore (text : Text) (i : Nat) : Bool := i == 0 || (text[i - 1]?).all (· == ' ')

def spaceAfter (text : Text) (i : Nat) : Bool := (text[i + 1]?).all (· == ' ')

def utf16Length (t : Text) : Nat := (t.map fun c => if c.toNat < 0x10000 then 1 else 2).sum

/-- A letter alone is marked only as a word of its own. -/
def isLetter (word : Text) : Bool := utf16Length word == 1

/-- Where a term starts a word of the fold, or else where it first appears. -/
def findWord (turns : Nat) (text word : Text) : Option (List Nat) :=
  (places text word turns 0).map fun found =>
    let found := found.filter fun i => spaceBefore text i && (!isLetter word || spaceAfter text i)
    if found.isEmpty && !isLetter word then (indexOf text word 0).toList else found

def rangeAt (folds : List FoldedChar) (i length : Nat) : Range :=
  ⟨(folds[i]?.map FoldedChar.start).getD 0, (folds[i + length - 1]?.map FoldedChar.stop).getD 0⟩

def foundRanges (turns : Nat) (folds : List FoldedChar) (word : Text) : Option (List Range) :=
  (findWord turns (folded folds) word).map fun found => found.map (rangeAt folds · word.length)

def spanRange (s : SearchSpan) : Range := ⟨s.start, s.stop⟩

/-- The ranges of the terms that were found, and of the spans of those that were not. -/
def matchRanges (turns : Nat) (text : Text) (words : List Text) : Option (List Range) := do
  let found ← words.mapM fun word =>
    (foundRanges turns (foldWithOffsets U text) word).map fun ranges => (word, ranges)
  let unmatched := (found.filter fun f => f.2.isEmpty).map Prod.fst
  let written := (searchTermSpans U text).filter fun s => unmatched.contains s.term
  pure (found.flatMap Prod.snd ++ written.map spanRange)

def matchParts (turns : Nat) (text query : Text) : Option (List (MarkedPart Char)) :=
  let words := Browser.searchTerms U query
  if words.isEmpty || text.isEmpty then some [⟨text, false⟩]
  else (matchRanges U turns text words).map fun ranges =>
    cutAt text (ranges.insertionSort fun a b => a.start ≤ b.start)

example :
    matchParts basicTables 40 "Sonata, K. 545".toList "k545 so".toList =
      some [⟨"So".toList, true⟩, ⟨"nata, ".toList, false⟩, ⟨"K. 545".toList, true⟩] := by
  decide +kernel

section Places

variable {text word : Text} {turns start i : Nat}

theorem indexOf_spec (h : indexOf text word start = some i) :
    i ≤ text.length ∧ min start text.length ≤ i ∧ word <+: text.drop i := by
  have hmem := List.mem_of_find?_eq_some h
  have hfound := List.find?_some h
  rw [List.mem_range] at hmem
  simp only [Bool.and_eq_true, decide_eq_true_iff, List.isPrefixOf_iff_prefix] at hfound
  exact ⟨by omega, hfound⟩

theorem exists_indexOf (hi : i ≤ text.length) (hstart : start ≤ i) (hword : word <+: text.drop i) :
    ∃ j, indexOf text word start = some j := by
  cases h : indexOf text word start with
  | some j => exact ⟨j, rfl⟩
  | none =>
    have hnone := List.find?_eq_none.mp h i (List.mem_range.mpr (by omega))
    refine absurd ?_ hnone
    simp only [Bool.and_eq_true, decide_eq_true_iff, List.isPrefixOf_iff_prefix]
    exact ⟨by omega, hword⟩

theorem length_of_indexOf (h : indexOf text word start = some i) (hne : word ≠ []) :
    start ≤ i ∧ i + word.length ≤ text.length := by
  obtain ⟨hi, hstart, hprefix⟩ := indexOf_spec h
  have hlen := hprefix.length_le
  have hpos := List.length_pos_of_ne_nil hne
  rw [List.length_drop] at hlen
  omega

theorem indexOf_isSome_iff : (∃ i, indexOf text word 0 = some i) ↔ word <:+: text := by
  constructor
  · intro h
    obtain ⟨i, hi⟩ := h
    exact (indexOf_spec hi).2.2.isInfix.trans (List.drop_suffix i text).isInfix
  · intro h
    obtain ⟨before, after, rfl⟩ := h
    refine exists_indexOf (i := before.length) (by simp) (Nat.zero_le _) ?_
    rw [List.append_assoc, List.drop_left]
    exact List.prefix_append _ _

/-- The search for a word that is not empty ends, with places in the text. -/
theorem places_of_ne_nil (hne : word ≠ []) (hturns : text.length - start < turns) :
    ∃ found, places text word turns start = some found ∧
      ∀ i ∈ found, i + word.length ≤ text.length := by
  induction turns generalizing start with
  | zero => omega
  | succ turns ih =>
    cases h : indexOf text word start with
    | none => exact ⟨[], by simp [places, h], by simp⟩
    | some i =>
      obtain ⟨hstart, hend⟩ := length_of_indexOf h hne
      have hpos := List.length_pos_of_ne_nil hne
      obtain ⟨found, hfound, hall⟩ := @ih (i + 1) (by omega)
      refine ⟨i :: found, by simp [places, h, hfound], ?_⟩
      intro j hj
      obtain rfl | hj := List.mem_cons.mp hj
      · exact hend
      · exact hall j hj

/-- The empty text is found again and again. -/
theorem places_nil : places text [] turns start = none := by
  induction turns generalizing start with
  | zero => rfl
  | succ turns ih =>
    obtain ⟨i, hi⟩ : ∃ i, indexOf text [] (min start text.length) = some i :=
      exists_indexOf (i := text.length) le_rfl (by omega) List.nil_prefix
    have hsame : indexOf text [] start = some i := by
      unfold indexOf at hi ⊢
      rwa [min_eq_left (by omega : min start text.length ≤ text.length)] at hi
    simp [places, hsame, ih]

theorem findWord_of_ne_nil (hne : word ≠ []) (hturns : text.length < turns) :
    ∃ found, findWord turns text word = some found ∧
      ∀ i ∈ found, i + word.length ≤ text.length := by
  obtain ⟨all, hall, hin⟩ := @places_of_ne_nil text word turns 0 hne (by omega)
  rw [findWord, hall, Option.map_some]
  refine ⟨_, rfl, ?_⟩
  intro i hi
  dsimp only at hi
  split at hi
  · exact (length_of_indexOf (Option.mem_toList.mp hi) hne).2
  · exact hin i (List.mem_filter.mp hi).1

end Places

section Ranges

variable {text word : Text} {turns : Nat} {folds : List FoldedChar}

theorem rangeAt_within {length i n : Nat} (h : Browser.Offsets length folds) (hn : 0 < n)
    (hi : i + n ≤ folds.length) :
    (rangeAt folds i n).start < (rangeAt folds i n).stop ∧ (rangeAt folds i n).stop ≤ length := by
  have hi₀ : i < folds.length := by omega
  have hi₁ : i + n - 1 < folds.length := by omega
  have hfirst : folds[i]? = some folds[i] := List.getElem?_eq_getElem hi₀
  have hlast : folds[i + n - 1]? = some folds[i + n - 1] := List.getElem?_eq_getElem hi₁
  have hle : folds[i].start ≤ folds[i + n - 1].start := by
    obtain heq | hlt : i = i + n - 1 ∨ i < i + n - 1 := by omega
    · simp [← heq]
    · exact List.pairwise_iff_getElem.mp h.sorted i (i + n - 1) hi₀ hi₁ hlt
  have hwithin := h.within _ (List.getElem_mem hi₁)
  simp only [rangeAt, hfirst, hlast, Option.map_some, Option.getD_some]
  omega

theorem foundRanges_of_ne_nil (text : Text) (hne : word ≠ [])
    (hturns : (foldWithOffsets U text).length < turns) :
    ∃ ranges, foundRanges turns (foldWithOffsets U text) word = some ranges ∧
      ∀ r ∈ ranges, r.Within text := by
  have hlen : (folded (foldWithOffsets U text)).length = (foldWithOffsets U text).length := by
    simp [folded]
  obtain ⟨found, hfound, hin⟩ := @findWord_of_ne_nil (folded (foldWithOffsets U text)) word turns hne
    (hlen ▸ hturns)
  rw [foundRanges, hfound, Option.map_some]
  refine ⟨_, rfl, ?_⟩
  intro r hr
  obtain ⟨i, hi, rfl⟩ := List.mem_map.mp hr
  exact rangeAt_within (Browser.foldWithOffsets_offsets U text) (List.length_pos_of_ne_nil hne)
    (hlen ▸ hin i hi)

theorem foundRanges_nil : foundRanges turns folds [] = none := by
  simp [foundRanges, findWord, places_nil]

theorem mapM_foundRanges (text : Text) {words : List Text} (h : [] ∉ words)
    (hturns : (foldWithOffsets U text).length < turns) :
    ∃ found : List (Text × List Range),
      (words.mapM fun word =>
        (foundRanges turns (foldWithOffsets U text) word).map fun ranges => (word, ranges)) =
          some found ∧
      (∀ f ∈ found, foundRanges turns (foldWithOffsets U text) f.1 = some f.2 ∧
        ∀ r ∈ f.2, r.Within text) ∧
      ∀ word ∈ words, ∃ f ∈ found, f.1 = word := by
  induction words with
  | nil => exact ⟨[], rfl, by simp, by simp⟩
  | cons word words ih =>
    rw [List.mem_cons, not_or] at h
    obtain ⟨ranges, hranges, hwithin⟩ := foundRanges_of_ne_nil U text (Ne.symm h.1) hturns
    obtain ⟨found, hfound, hall, hkeys⟩ := ih h.2
    refine ⟨(word, ranges) :: found, ?_, ?_, ?_⟩
    · simp [List.mapM_cons, hranges, hfound]
    · intro f hf
      obtain rfl | hf := List.mem_cons.mp hf
      · exact ⟨hranges, hwithin⟩
      · exact hall f hf
    · intro v hv
      obtain rfl | hv := List.mem_cons.mp hv
      · exact ⟨_, List.mem_cons_self, rfl⟩
      · obtain ⟨f, hf, hkey⟩ := hkeys v hv
        exact ⟨f, List.mem_cons_of_mem _ hf, hkey⟩

theorem mapM_foundRanges_nil {words : List Text} (h : [] ∈ words) :
    (words.mapM fun word => (foundRanges turns folds word).map fun ranges => (word, ranges)) =
      none := by
  induction words with
  | nil => cases h
  | cons word words ih =>
    rw [List.mapM_cons]
    obtain rfl | h := List.mem_cons.mp h
    · simp [foundRanges_nil]
    · rw [ih h]
      cases foundRanges turns folds word <;> rfl

end Ranges

section Parts

variable {text query word : Text} {turns : Nat}

/-- A range that a term has in the fold, or else one of the spans that produce it. -/
def ComesFrom (turns : Nat) (text word : Text) (r : Range) : Prop :=
  ∃ found, foundRanges turns (foldWithOffsets U text) word = some found ∧
    (r ∈ found ∨ (found = [] ∧ ∃ s ∈ searchTermSpans U text, s.term = word ∧ spanRange s = r))

theorem matchRanges_spec (text : Text) {words : List Text} (h : [] ∉ words)
    (hturns : (foldWithOffsets U text).length < turns) :
    ∃ ranges, matchRanges U turns text words = some ranges ∧ (∀ r ∈ ranges, r.Within text) ∧
      ∀ word ∈ words, ∀ r, ComesFrom U turns text word r → r ∈ ranges := by
  obtain ⟨found, hfound, hall, hkeys⟩ := mapM_foundRanges U text h hturns
  refine ⟨_, by rw [matchRanges, hfound]; rfl, ?_, ?_⟩
  · intro r hr
    obtain hr | hr := List.mem_append.mp hr
    · obtain ⟨f, hf, hr⟩ := List.mem_flatMap.mp hr
      exact (hall f hf).2 r hr
    · obtain ⟨s, hs, rfl⟩ := List.mem_map.mp hr
      exact Browser.searchTermSpans_within U text s (List.mem_filter.mp hs).1
  · intro word hword r hr
    obtain ⟨f, hf, rfl⟩ := hkeys word hword
    obtain ⟨ranges, hranges, hr⟩ := hr
    obtain rfl : f.2 = ranges := Option.some.inj ((hall f hf).1.symm.trans hranges)
    rw [List.mem_append]
    obtain hr | ⟨hnil, s, hs, hterm, rfl⟩ := hr
    · exact Or.inl (List.mem_flatMap.mpr ⟨f, hf, hr⟩)
    · refine Or.inr (List.mem_map.mpr ⟨s, List.mem_filter.mpr ⟨hs, ?_⟩, rfl⟩)
      rw [List.contains_iff_mem, hterm]
      exact List.mem_map.mpr ⟨f, List.mem_filter.mpr ⟨hf, by simp [hnil]⟩, rfl⟩

theorem partitions_sorted {ranges : List Range} (h : ∀ r ∈ ranges, r.Within text) :
    Partitions text ranges
      (cutAt text (ranges.insertionSort fun a b => a.start ≤ b.start)) := by
  have hperm := List.perm_insertionSort (fun a b : Range => a.start ≤ b.start) ranges
  have hparts : Partitions text (ranges.insertionSort fun a b => a.start ≤ b.start)
      (cutAt text (ranges.insertionSort fun a b => a.start ≤ b.start)) := partitions_cutAt
    (fun r hr => h r (hperm.mem_iff.mp hr)) (List.pairwise_insertionSort _ ranges)
  refine ⟨hparts.joined, hparts.nonempty, hparts.alternate, ?_⟩
  rw [hparts.marked]
  apply List.map_congr_left
  intro i _
  exact hperm.any_eq

/-- The parts of a text for a query whose terms are not empty. -/
theorem matchParts_spec (htext : text ≠ []) (h : [] ∉ Browser.searchTerms U query)
    (hturns : (foldWithOffsets U text).length < turns) :
    ∃ parts ranges, matchParts U turns text query = some parts ∧ Partitions text ranges parts ∧
      ∀ word ∈ Browser.searchTerms U query, ∀ r, ComesFrom U turns text word r → r ∈ ranges := by
  have hempty : text.isEmpty = false := by simpa using htext
  unfold matchParts
  dsimp only
  rw [hempty, Bool.or_false]
  cases hwords : Browser.searchTerms U query with
  | nil =>
    refine ⟨_, [], rfl, ?_, by simp⟩
    refine ⟨by simp [MarkedPart.join], by simpa using htext, by simp, ?_⟩
    simp [MarkedPart.allMarks, MarkedPart.marks, List.map_const']
  | cons word words =>
    rw [hwords] at h
    obtain ⟨ranges, hranges, hwithin, hcomes⟩ := matchRanges_spec U text h hturns
    refine ⟨_, ranges, ?_, partitions_sorted hwithin, hcomes⟩
    rw [List.isEmpty_cons, if_neg Bool.false_ne_true, hranges]
    rfl

theorem matchParts_of_empty_term (htext : text ≠ []) (h : [] ∈ Browser.searchTerms U query) :
    matchParts U turns text query = none := by
  have hempty : text.isEmpty = false := by simpa using htext
  have hwords : (Browser.searchTerms U query).isEmpty = false := by
    simpa using List.ne_nil_of_mem h
  unfold matchParts
  dsimp only
  rw [hempty, hwords, matchRanges, mapM_foundRanges_nil h]
  rfl

/-- `matchParts` ends; its parts are the text, none is empty unless the text is, and
marked and other parts alternate. -/
def Highlights (text query : Text) : Prop :=
  ∃ turns parts, matchParts U turns text query = some parts ∧ MarkedPart.join parts = text ∧
    (text ≠ [] → ∀ p ∈ parts, p.text ≠ []) ∧ parts.IsChain fun p q => p.mark ≠ q.mark

theorem highlights_iff (text query : Text) :
    Highlights U text query ↔ text = [] ∨ Search.NoEmptyRun U query := by
  rw [← Search.empty_term_iff]
  by_cases htext : text = []
  · subst htext
    refine iff_of_true ⟨0, [⟨[], false⟩], ?_, by simp [MarkedPart.join], by simp, by simp⟩
      (Or.inl rfl)
    simp [matchParts]
  · constructor
    · intro h
      obtain ⟨turns, parts, hparts, -⟩ := h
      refine Or.inr ?_
      intro hmem
      rw [matchParts_of_empty_term U htext hmem] at hparts
      cases hparts
    · intro h
      obtain ⟨parts, ranges, hparts, hpartition, -⟩ := matchParts_spec U htext
        (h.resolve_left htext) (Nat.lt_succ_self _)
      exact ⟨_, parts, hparts, hpartition.joined, fun _ => hpartition.nonempty,
        hpartition.alternate⟩

/-- An accent alone makes the search for matches in a row run for ever. -/
theorem not_highlights_accent :
    ¬Highlights basicTables "Sonata".toList [Char.ofNat 0x301] := by
  intro h
  obtain ⟨turns, parts, hparts, -⟩ := h
  have hterms : Browser.searchTerms basicTables [Char.ofNat 0x301] = [[]] := by decide +kernel
  rw [matchParts_of_empty_term basicTables (by decide) (by simp [hterms])] at hparts
  cases hparts

end Parts

end Noted.LibraryPage
