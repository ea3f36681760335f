import Noted.Library.Tokens
import Noted.Search.Finding
import Noted.Search.Offsets
import Noted.Search.Joined

/-!
# The two scanners of one grammar (core/search.ts)

`catalogueTerms` reads the runs of the normalized text, each folded for itself, and
`searchTermSpans` the words of the text folded letter by letter. They read the same words
unless a run folds to nothing, which the first keeps and the second never sees. Each asks
in its own text whether S, D or L may be a catalogue: what normalizing makes a full stop
is one to the first only.
-/

namespace Noted.Browser

open Library Library.Words
open Search (Word catalogueNumber gluedCatalogue wordAt foldWords separator)
open Utf16 (PerCharacter plainChar)

variable (U : UnicodeTables)

section Joins

/-- A term that a scan joins from several words, their letters, and how many letters the
words before them have. -/
structure Joined where
  term : Text
  first : Nat
  letters : Text
  deriving DecidableEq

def joins : Nat → Nat → List Word → List Joined
  | _, _, [] => []
  | done, skip + 1, w :: ws => joins (done + w.text.length) skip ws
  | done, 0, w :: ws =>
    let used := (readTerm false w ws).2
    let letters := (w :: ws.take used).flatMap Word.text
    (if 0 < used then (readTerm false w ws).1.map fun t => ⟨t, done, letters⟩ else []) ++
      joins (done + w.text.length) used ws

/-- Of a turn that uses up several words the last span; the spans before it, and those of
other turns, are the heads of keys. -/
def joinSpans : Nat → List FoldedWord → List SearchSpan
  | _, [] => []
  | skip + 1, _ :: ws => joinSpans skip ws
  | 0, w :: ws =>
    (if 0 < (readSpans w ws).2 then (readSpans w ws).1.getLast?.toList else []) ++
      joinSpans (readSpans w ws).2 ws

def letters (text : Text) : List FoldedChar :=
  (foldWithOffsets U text).filter fun f => f.char != ' '

/-- A span has the term of what was joined, and covers where its letters were written. -/
def Covers (letters : List FoldedChar) (j : Joined) (s : SearchSpan) : Prop :=
  let written := (letters.drop j.first).take j.letters.length
  s.term = j.term ∧ folded written = j.letters ∧ ∀ f ∈ written, s.start ≤ f.start ∧ f.stop ≤ s.stop

/-- The span scanner finds what the scan of a query joins, where it is written, and
besides only heads of keys. -/
structure SpansAgree (text : Text) : Prop where
  within : ∀ s ∈ searchTermSpans U text, s.start < s.stop ∧ s.stop ≤ text.length
  heads : ∀ s ∈ searchTermSpans U text,
    s ∈ joinSpans 0 (foldedWords U text) ∨ isKeyHead s.term = true
  joined : List.Forall₂ (Covers (letters U text)) (joins 0 0 (catalogueWords U text))
    (joinSpans 0 (foldedWords U text))

end Joins

section Runs

/-- Nothing but white space stands before a word as written, or a full stop after it. -/
def writtenAllowed (text : Text) (chars : List FoldedChar) : Bool :=
  (jsTrim (text.take (wordOf chars false).start)).isEmpty ||
    text[(wordOf chars false).stop]? == some '.'

/-- A run of letters: how it folds, and whether it may be a short catalogue, as the text
is normalized and as it is written. -/
structure Run where
  word : Text
  normalized : Bool
  written : Bool
  deriving DecidableEq

def runs (text : Text) : List Run :=
  List.zipWith
    (fun s w => ⟨fold U s.word, spanAllowed s, writtenAllowed text w.word⟩)
    (spans U.inWord (normalized U text))
    (spans (fun f => f.char != ' ') (foldWithOffsets U text))

def headsNumber (word next : Text) : Bool :=
  (shortCatalogue word && catalogueNumber next) ||
    (gluedCatalogue word).any fun p => shortCatalogue p.1

def nextRun (rs : List Run) : Text := (rs.head?.map Run.word).getD []

/-- The runs that are a short catalogue with a number may be one in both texts, or in
neither. -/
def flagsAgree : List Run → Bool
  | [] => true
  | r :: rs =>
    (!headsNumber r.word (nextRun rs) || r.normalized == r.written) && flagsAgree rs

end Runs

section Turns

variable {w : FoldedWord} {rest : List FoldedWord}

/-- The spans of a turn are heads of keys, and the last, when it uses up more words, is
the span of its term. -/
def TurnAgrees (w : FoldedWord) (rest : List FoldedWord) (p : List SearchSpan × Nat)
    (q : List Text × Nat) : Prop :=
  p.2 = q.2 ∧ q.2 ≤ rest.length ∧ ∃ term heads, q.1 = [term] ∧
    (∀ s ∈ heads, isKeyHead s.term = true) ∧
    p.1 = heads ++ if 0 < q.2 then [⟨term, w.start, stopAt rest (q.2 - 1)⟩] else []

theorem turn_alone {term : Text} {heads : List SearchSpan}
    (h : ∀ s ∈ heads, isKeyHead s.term = true) : TurnAgrees w rest (heads, 0) ([term], 0) :=
  ⟨rfl, Nat.zero_le _, term, heads, rfl, h, by simp⟩

theorem turn_joined {term : Text} {k : Nat} (heads : List SearchSpan)
    (hk : wordAt (rest.map FoldedWord.toWord) k ≠ [])
    (h : ∀ s ∈ heads, isKeyHead s.term = true) :
    TurnAgrees w rest (heads ++ [⟨term, w.start, stopAt rest k⟩], k + 1) ([term], k + 1) := by
  obtain ⟨v, hv, -⟩ := Search.exists_of_wordAt hk
  obtain ⟨hlt, -⟩ := List.getElem?_eq_some_iff.mp hv
  rw [List.length_map] at hlt
  exact ⟨rfl, hlt, term, heads, rfl, h, by simp⟩

theorem isKeyHead_append {v accidental : Text} (hv : singleNote v = true)
    (ha : isAccidental accidental = true) : isKeyHead (v ++ accidental) = true := by
  obtain ⟨c, rfl, hc⟩ := singleNote_cases hv
  simp [isKeyHead, hc, ha]

theorem readSpans_turn (w : FoldedWord) (rest : List FoldedWord) :
    TurnAgrees w rest (readSpans w rest)
      (readTerm false w.toWord (rest.map FoldedWord.toWord)) := by
  have hkeys : ∀ {key}, (GERMAN_KEYS.lookup key).isSome = true →
      isKeyHead (((GERMAN_KEYS.lookup key).getD []).filter (· ≠ ' ')) = true :=
    lookup_prop (p := fun k => isKeyHead (k.filter (· ≠ ' '))) (by decide)
  have hnumber : ∀ {t}, catalogueNumber t = true → t ≠ [] := by
    rintro t ht rfl
    cases ht
  have hmode : ∀ {t}, (GERMAN_MODES.lookup t).isSome = true → t ≠ [] := by
    rintro t ht rfl
    cases ht
  have hword : ∀ {t v : Text}, v ≠ [] → (t == v) = true → t ≠ [] := by
    intro t v hv ht
    rw [beq_iff_eq.mp ht]
    exact hv
  have hnone : ∀ s ∈ ([] : List SearchSpan), isKeyHead s.term = true := by simp
  unfold readSpans readTerm
  dsimp +instances only [FoldedWord.toWord]
  generalize (if shortCatalogue w.word && !w.shortAllowed then none
    else CATALOGUES.lookup w.word) = catalogue
  refine ite_both (fun hhob => ?_) fun _ => ?_
  · rw [Bool.and_eq_true] at hhob
    exact turn_joined (k := 1) [] (hnumber hhob.2) hnone
  refine ite_both (fun hcat => ?_) fun _ => ?_
  · rw [Bool.and_eq_true] at hcat
    exact turn_joined (k := 0) [] (hnumber hcat.2) hnone
  refine ite_both (fun hgerman => ?_) fun _ => ?_
  · rw [Bool.and_eq_true] at hgerman
    refine turn_joined (k := 0) [_] (hmode hgerman.2) ?_
    simpa using hkeys hgerman.1
  refine ite_both (fun hflat => ?_) fun _ => ?_
  · have hhead : isKeyHead (w.word.take 1 ++ "flat".toList) = true := by
      obtain ⟨c, hc, hnote⟩ := Search.englishFlat_cases hflat
      rw [hc]
      simp [isKeyHead, isAccidental, hnote]
    refine ite_both (fun hmajor => ?_) fun _ => ?_
    · rw [Bool.or_eq_true] at hmajor
      refine turn_joined (k := 0) [_]
        (hmajor.elim (hword (by decide)) (hword (by decide))) ?_
      simpa using hhead
    · refine turn_alone ?_
      simpa using hhead
  refine ite_both (fun hsharp => ?_) fun _ => ?_
  · rw [Bool.and_eq_true] at hsharp
    have hhead := isKeyHead_append hsharp.1 hsharp.2
    rw [Bool.or_eq_true] at hsharp
    have hnext := hsharp.2.elim (hword (by decide)) (hword (by decide))
    refine ite_both (fun hthird => ?_) fun _ => ?_
    · refine turn_joined (k := 1) [_] ?_ ?_
      · intro hnil
        rw [hnil] at hthird
        cases hthird
      · simpa using hhead
    · exact turn_joined (k := 0) [] hnext hnone
  refine ite_both (fun hnatural => ?_) fun _ => ?_
  · rw [Bool.and_eq_true, Bool.or_eq_true] at hnatural
    exact turn_joined (k := 0) []
      (hnatural.2.elim (hword (by decide)) (hword (by decide))) hnone
  · exact turn_alone hnone

end Turns

section Stops

variable {length start : Nat} {folds chars : List FoldedChar}

/-- A mark moves the end of the last letter only, so the letters stay in order of their
ends. -/
theorem OffsetsBack.foldLetter_stops {letter : Text} (h : OffsetsBack length folds)
    (hstops : folds.Pairwise fun f g => g.stop ≤ f.stop) :
    (Browser.foldLetter U folds length letter).Pairwise fun f g => g.stop ≤ f.stop := by
  unfold Browser.foldLetter
  split
  · rename_i last before _
    obtain ⟨-, hbefore⟩ := List.pairwise_cons.mp hstops
    refine List.pairwise_cons.mpr ⟨?_, hbefore⟩
    intro g hg
    have hold := h.within g (List.mem_cons_of_mem _ hg)
    dsimp only
    omega
  · refine List.pairwise_append.mpr ⟨?_, hstops, ?_⟩
    · rw [List.pairwise_reverse, List.pairwise_map]
      exact List.pairwise_of_forall fun _ _ => le_rfl
    · intro f hf g hg
      obtain ⟨c, -, rfl⟩ := List.mem_map.mp (List.mem_reverse.mp hf)
      have hold := h.within g hg
      dsimp only
      omega

theorem OffsetsBack.foldFrom_stops (text : Text) (h : OffsetsBack start folds)
    (hstops : folds.Pairwise fun f g => g.stop ≤ f.stop) :
    (Browser.foldFrom U folds start text).Pairwise fun f g => f.stop ≤ g.stop := by
  fun_induction Browser.foldFrom U folds start text with
  | case1 folds start => exact List.pairwise_reverse.mpr hstops
  | case2 folds start c => exact List.pairwise_reverse.mpr (h.foldLetter_stops U hstops)
  | case3 folds start c d ds hpair ih =>
    exact ih (h.foldLetter U (List.cons_ne_nil c [d])) (h.foldLetter_stops U hstops)
  | case4 folds start c d ds hpair ih =>
    exact ih (h.foldLetter U (List.cons_ne_nil c [])) (h.foldLetter_stops U hstops)

theorem foldWithOffsets_stops (text : Text) :
    (foldWithOffsets U text).Pairwise fun f g => f.stop ≤ g.stop := by
  have hstart : OffsetsBack 0 [] := ⟨by simp, List.Pairwise.nil⟩
  exact hstart.foldFrom_stops U text List.Pairwise.nil

theorem wordOf_covers (hstarts : chars.Pairwise fun f g => f.start ≤ g.start)
    (hstops : chars.Pairwise fun f g => f.stop ≤ g.stop) (allowed : Bool) :
    ∀ f ∈ chars, (wordOf chars allowed).start ≤ f.start ∧ f.stop ≤ (wordOf chars allowed).stop := by
  intro f hf
  constructor
  · cases chars with
    | nil => cases hf
    | cons first rest =>
      obtain rfl | hf := List.mem_cons.mp hf
      · exact le_rfl
      · exact (List.pairwise_cons.mp hstarts).1 f hf
  · obtain rfl | ⟨before, last, rfl⟩ := List.eq_nil_or_concat' chars
    · cases hf
    · have hlast : (wordOf (before ++ [last]) allowed).stop = last.stop := by simp [wordOf]
      rw [hlast]
      obtain hf | hf := List.mem_append.mp hf
      · exact (List.pairwise_append.mp hstops).2.2 f hf last (List.mem_singleton_self last)
      · rw [List.mem_singleton.mp hf]

end Stops

section Covered

variable {letters : List FoldedChar}

def pieceWord (p : List FoldedChar × Bool) : FoldedWord := wordOf p.1 p.2

@[simp] theorem pieceWord_text (p : List FoldedChar × Bool) :
    (pieceWord p).toWord.text = folded p.1 := rfl

theorem folded_flatMap (ps : List (List FoldedChar × Bool)) :
    folded (ps.flatMap Prod.fst) =
      ((ps.map pieceWord).map FoldedWord.toWord).flatMap Word.text := by
  simp [folded, List.map_flatMap, List.flatMap_map]

theorem wordOf_group {p : List FoldedChar × Bool} {ps : List (List FoldedChar × Bool)} {k : Nat}
    (hk : k < ps.length) (hne : ∀ q ∈ p :: ps, q.1 ≠ []) (allowed : Bool) :
    (wordOf ((p :: ps.take (k + 1)).flatMap Prod.fst) allowed).start = (pieceWord p).start ∧
      (wordOf ((p :: ps.take (k + 1)).flatMap Prod.fst) allowed).stop =
        stopAt (ps.map pieceWord) k := by
  have hp := hne p List.mem_cons_self
  have hlast : ps[k].1 ≠ [] := hne _ (List.mem_cons_of_mem p (List.getElem_mem hk))
  constructor
  · simp only [wordOf, pieceWord, List.flatMap_cons, List.head?_append_of_ne_nil _ hp]
  · rw [List.take_succ_eq_append_getElem hk, ← List.cons_append, List.flatMap_append,
      List.flatMap_singleton]
    simp only [wordOf, stopAt, List.getLast?_append_of_ne_nil _ hlast, List.getElem?_map,
      List.getElem?_eq_getElem hk, Option.map_some, Option.getD_some, pieceWord]

theorem covers_group (hstarts : letters.Pairwise fun f g => f.start ≤ g.start)
    (hstops : letters.Pairwise fun f g => f.stop ≤ g.stop) {p : List FoldedChar × Bool}
    {ps : List (List FoldedChar × Bool)} (hne : ∀ q ∈ p :: ps, q.1 ≠ []) {done k : Nat}
    (hletters : letters.drop done = (p :: ps).flatMap Prod.fst) (hk : k < ps.length)
    (term : Text) :
    Covers letters
      ⟨term, done, ((pieceWord p).toWord ::
        ((ps.map pieceWord).map FoldedWord.toWord).take (k + 1)).flatMap Word.text⟩
      ⟨term, (pieceWord p).start, stopAt (ps.map pieceWord) k⟩ := by
  set group := (p :: ps.take (k + 1)).flatMap Prod.fst with hgroup
  have hsplit : letters.drop done = group ++ (ps.drop (k + 1)).flatMap Prod.fst := by
    rw [hletters, hgroup, ← List.flatMap_append, List.cons_append, List.take_append_drop]
  have htext : ((pieceWord p).toWord ::
      ((ps.map pieceWord).map FoldedWord.toWord).take (k + 1)).flatMap Word.text =
        folded group := by
    rw [hgroup, folded_flatMap, List.map_cons, List.map_cons, ← List.map_take, ← List.map_take]
  have hlen : (folded group).length = group.length := by simp [folded]
  have hwritten : (letters.drop done).take (folded group).length = group := by
    rw [hsplit, hlen, List.take_left]
  have hsub : group.Sublist letters := by
    have hdrop : group.Sublist (letters.drop done) := by
      rw [hsplit]
      exact List.sublist_append_left _ _
    exact hdrop.trans (List.drop_sublist done letters)
  obtain ⟨hstart, hstop⟩ := wordOf_group hk hne false
  have hcovers := wordOf_covers (hstarts.sublist hsub) (hstops.sublist hsub) false
  rw [hstart, hstop] at hcovers
  rw [htext]
  refine ⟨rfl, ?_, ?_⟩
  · dsimp only
    rw [hwritten]
  · dsimp only
    rw [hwritten]
    exact hcovers

theorem covers_joinSpans (hstarts : letters.Pairwise fun f g => f.start ≤ g.start)
    (hstops : letters.Pairwise fun f g => f.stop ≤ g.stop)
    {ps : List (List FoldedChar × Bool)} (hne : ∀ p ∈ ps, p.1 ≠ []) (done : Nat)
    (hletters : letters.drop done = ps.flatMap Prod.fst) (skip : Nat) :
    List.Forall₂ (Covers letters) (joins done skip ((ps.map pieceWord).map FoldedWord.toWord))
      (joinSpans skip (ps.map pieceWord)) := by
  induction ps generalizing skip done with
  | nil => cases skip <;> exact List.Forall₂.nil
  | cons p ps ih =>
    have hrest : letters.drop (done + p.1.length) = ps.flatMap Prod.fst := by
      rw [← List.drop_drop, hletters, List.flatMap_cons, List.drop_left]
    have hlength : (pieceWord p).toWord.text.length = p.1.length := by simp [folded]
    have htail := fun skip => ih (fun q hq => hne q (List.mem_cons_of_mem p hq)) _ hrest skip
    rw [← hlength] at htail
    cases skip with
    | succ skip => exact htail skip
    | zero =>
      obtain ⟨hused, hle, term, heads, hterm, -, hspans⟩ :=
        readSpans_turn (pieceWord p) (ps.map pieceWord)
      rw [List.map_cons, List.map_cons, joins, joinSpans, hused]
      refine List.rel_append ?_ (htail _)
      generalize readTerm false (pieceWord p).toWord
        ((ps.map pieceWord).map FoldedWord.toWord) = q at *
      obtain ⟨terms, used⟩ := q
      cases used with
      | zero => exact List.Forall₂.nil
      | succ k =>
        rw [if_pos k.succ_pos, if_pos k.succ_pos, hterm, hspans, if_pos k.succ_pos]
        simp only [List.map_cons, List.map_nil, List.getLast?_append, List.getLast?_singleton,
          Option.some_or, Option.toList_some]
        rw [List.length_map] at hle
        exact List.Forall₂.cons (covers_group hstarts hstops hne hletters hle term)
          List.Forall₂.nil

theorem mem_scanSpans {s : SearchSpan} (skip : Nat) {ws : List FoldedWord}
    (hs : s ∈ scanSpans skip ws) : s ∈ joinSpans skip ws ∨ isKeyHead s.term = true := by
  induction ws generalizing skip with
  | nil => cases skip <;> cases hs
  | cons w ws ih =>
    cases skip with
    | succ skip => exact ih skip hs
    | zero =>
      rw [joinSpans, List.mem_append]
      obtain hs | hs := List.mem_append.mp hs
      · obtain ⟨hused, -, term, heads, -, hheads, hspans⟩ := readSpans_turn w ws
        rw [hspans, hused]
        rw [hspans, List.mem_append] at hs
        obtain hs | hs := hs
        · exact Or.inr (hheads s hs)
        · split at hs
          · rename_i hpos
            refine Or.inl (Or.inl ?_)
            rw [List.mem_singleton.mp hs, if_pos hpos, if_pos hpos]
            simp
          · cases hs
      · exact (ih _ hs).imp_left Or.inr

end Covered

section Alike

/-- Words that the scan of a query reads alike: their flags may differ where no number
follows a short catalogue. -/
inductive Alike : List Word → List Word → Prop
  | nil : Alike [] []
  | cons {word : Text} {a b : Bool} {vs ws : List Word}
      (flag : shortCatalogue word = true → catalogueNumber (wordAt vs 0) = true → a = b)
      (rest : Alike vs ws) : Alike (⟨word, a⟩ :: vs) (⟨word, b⟩ :: ws)

variable {vs ws : List Word}

theorem Alike.texts (h : Alike vs ws) : vs.map Word.text = ws.map Word.text := by
  induction h with
  | nil => rfl
  | cons _ _ ih => rw [List.map_cons, List.map_cons, ih]

theorem Alike.wordAt_eq (h : Alike vs ws) (k : Nat) : wordAt vs k = wordAt ws k := by
  have htexts := congrArg (fun texts => texts[k]?) h.texts
  simp only [List.getElem?_map] at htexts
  rw [wordAt, wordAt, htexts]

theorem Alike.taken (h : Alike vs ws) (n : Nat) :
    (vs.take n).flatMap Word.text = (ws.take n).flatMap Word.text := by
  rw [List.flatMap_def, List.flatMap_def, List.map_take, List.map_take, h.texts]

theorem Alike.same (h : Alike vs ws) (us : List Word) : Alike (us ++ vs) (us ++ ws) := by
  induction us with
  | nil => exact h
  | cons u us ih => exact Alike.cons (fun _ _ => rfl) ih

theorem Alike.readTerm {word : Text} {a b : Bool} (h : Alike vs ws)
    (hflag : shortCatalogue word = true → catalogueNumber (wordAt vs 0) = true → a = b) :
    readTerm false ⟨word, a⟩ vs = readTerm false ⟨word, b⟩ ws := by
  have hrest : Search.readTerm false ⟨word, b⟩ vs = Search.readTerm false ⟨word, b⟩ ws := by
    unfold Search.readTerm
    rw [h.wordAt_eq 0, h.wordAt_eq 1]
  rw [Search.readTerm_eq, Search.readTerm_eq, ← hrest]
  by_cases hshort : shortCatalogue word = true ∧ catalogueNumber (wordAt vs 0) = true
  · rw [hflag hshort.1 hshort.2]
  · refine Search.readTerm_flag false (fun hword => ?_) a b
    rw [← Search.shortCatalogue_eq] at hword
    simpa [hword] using hshort

theorem Alike.joins (h : Alike vs ws) (done skip : Nat) :
    joins done skip vs = joins done skip ws := by
  induction h generalizing done skip with
  | nil => rfl
  | cons hflag hrest ih =>
    cases skip with
    | succ skip => exact ih _ skip
    | zero =>
      simp only [Browser.joins]
      rw [hrest.readTerm hflag, List.flatMap_cons, List.flatMap_cons, hrest.taken, ih]

theorem Alike.joinedTerms (h : Alike vs ws) (skip : Nat) :
    joinedTerms skip vs = joinedTerms skip ws := by
  induction h generalizing skip with
  | nil => rfl
  | @cons word a b vs ws hflag hrest ih =>
    cases skip with
    | succ skip => exact ih skip
    | zero =>
      have hread := hrest.readTerm hflag
      have hjoined : joined ⟨word, a⟩ vs = joined ⟨word, b⟩ ws := by
        rw [joined, joined, hread]
      rw [Browser.joinedTerms, Browser.joinedTerms, hjoined, hread, ih]

theorem alike_runs {rs : List Run} (h : flagsAgree rs = true) :
    Alike (rs.flatMap fun r => pushWords r.word r.normalized)
      (rs.flatMap fun r => pushWords r.word r.written) := by
  induction rs with
  | nil => exact Alike.nil
  | cons r rs ih =>
    rw [flagsAgree, Bool.and_eq_true] at h
    obtain ⟨hflag, hrest⟩ := h
    have hrest := ih hrest
    rw [List.flatMap_cons, List.flatMap_cons]
    by_cases hsame : r.normalized = r.written
    · rw [hsame]
      exact hrest.same _
    · have hheads : headsNumber r.word (nextRun rs) = false := by simpa [hsame] using hflag
      simp only [headsNumber, Bool.or_eq_false_iff, Bool.and_eq_false_iff] at hheads
      obtain ⟨hnumber, hglued⟩ := hheads
      have hnext : catalogueNumber
          (wordAt (rs.flatMap fun r => pushWords r.word r.normalized) 0) =
            catalogueNumber (nextRun rs) := by
        cases rs with
        | nil => rfl
        | cons r' rs =>
          rw [List.flatMap_cons, Search.pushWords_eq, Search.wordAt_splitWord]
          rfl
      have hone : Alike (⟨r.word, r.normalized⟩ :: rs.flatMap fun r => pushWords r.word r.normalized)
          (⟨r.word, r.written⟩ :: rs.flatMap fun r => pushWords r.word r.written) := by
        refine Alike.cons (fun hshort hnum => ?_) hrest
        rw [hnext] at hnum
        simp [hshort, hnum] at hnumber
      unfold pushWords
      cases hg : gluedCatalogue r.word with
      | none => exact hone
      | some p =>
        obtain ⟨head, number⟩ := p
        have hhead : shortCatalogue head = false := by simpa [hg] using hglued
        dsimp only
        rw [hhead, Bool.not_false, Bool.true_or, Bool.true_or, Bool.and_true]
        split
        · exact Alike.cons (by simp [hhead]) (hrest.same [⟨number, false⟩])
        · exact hone

end Alike

section Folds

/-- What normalizing yields in words is normalized, marks aside, and no number sign. -/
structure Settled : Prop where
  plain : ∀ t, ∀ c ∈ normalized U t, U.inWord c = true → U.isMark c = false → plainChar U c = [c]
  signs : ∀ t, ∀ c ∈ normalized U t, U.inWord c = true → c ≠ '°' ∧ c ≠ 'º'

variable {U} {text w : Text}

theorem replaceNumberSigns_of_no_sign (h : ∀ c ∈ w, c ≠ '°' ∧ c ≠ 'º') :
    replaceNumberSigns w = w := by
  fun_induction replaceNumberSigns w with
  | case1 => rfl
  | case2 c => rfl
  | case3 c d ds hsign ih =>
    obtain ⟨hdegree, hordinal⟩ := h d (by simp)
    exact absurd hsign.2 (by simp [hdegree, hordinal])
  | case4 c d ds hsign ih => rw [ih fun e he => h e (List.mem_cons_of_mem c he)]

theorem plainChar_mark {c : Char} (h : U.isMark c = true) : plainChar U c = [] := by
  have hmarks : (U.nfkd [c]).filter (fun d => !U.isMark d) = [] := by
    rw [List.filter_eq_nil_iff]
    intro d hd
    simp [U.nfkd_marks [c] (by simpa using h) d hd]
  rw [plainChar, hmarks, List.flatMap_nil]

theorem fold_of_run (hper : PerCharacter U) (hset : Settled U)
    (hw : ∀ c ∈ w, c ∈ normalized U text ∧ U.inWord c = true) :
    fold U w = w.filter fun c => !U.isMark c := by
  have hchars : ∀ v : Text, (∀ c ∈ v, c ∈ normalized U text ∧ U.inWord c = true) →
      v.flatMap (plainChar U) = v.filter fun c => !U.isMark c := by
    intro v
    induction v with
    | nil => exact fun _ => rfl
    | cons c cs ih =>
      intro hv
      have hrest := ih fun d hd => hv d (List.mem_cons_of_mem c hd)
      obtain ⟨hmem, hin⟩ := hv c List.mem_cons_self
      rw [List.flatMap_cons, hrest]
      cases hmark : U.isMark c with
      | true => simp [plainChar_mark hmark, hmark]
      | false => simp [hset.plain text c hmem hin hmark, hmark]
  have hplain : Utf16.plain U w = w.filter fun c => !U.isMark c := by
    rw [Utf16.plain_replaceNumberSigns hper,
      replaceNumberSigns_of_no_sign fun c hc => hset.signs text c (hw c hc).1 (hw c hc).2,
      hchars w hw]
  have hfold : fold U w = Search.joinWords (tokens (separator U) (Utf16.plain U w)) :=
    Search.jsTrim_collapse U (Utf16.plain U w)
  rw [hfold, hplain]
  by_cases hnil : (w.filter fun c => !U.isMark c) = []
  · rw [hnil, tokens_nil]
    rfl
  · rw [tokens_word hnil, Search.joinWords, List.intercalate_singleton]
    intro c hc
    obtain ⟨hc, hmark⟩ := List.mem_filter.mp hc
    obtain hrune | hm := U.inWord_cases (hw c hc).2
    · simp [separator, hrune]
    · simp [hm] at hmark

theorem mark_not_separator {c : Char} (h : (!U.isMark c) = false) : (!U.inWord c) = false := by
  simp only [Bool.not_eq_false'] at h ⊢
  simp [UnicodeTables.inWord, h]

theorem tokens_unmarked (text : Text) :
    tokens (fun c => !U.inWord c) ((normalized U text).filter fun c => !U.isMark c) =
      foldWords U text := by
  rw [foldWords, Search.unmarked, Search.normalized_eq]
  refine tokens_congr fun c hc => ?_
  have hmark := (List.mem_filter.mp hc).2
  rw [Bool.not_eq_true'] at hmark
  simp [separator, UnicodeTables.inWord, UnicodeTables.isWordRune, hmark]

theorem fold_run (hper : PerCharacter U) (hset : Settled U) :
    ∀ s ∈ spans U.inWord (normalized U text),
      fold U s.word = s.word.filter fun c => !U.isMark c := by
  intro s hs
  obtain ⟨htext, -, hword⟩ := spans_sound hs
  have hmem : ∀ c ∈ s.word, c ∈ normalized U text := by
    intro c hc
    rw [htext]
    simp [hc]
  exact fold_of_run hper hset fun c hc => ⟨hmem c hc, hword c hc⟩

theorem fold_mem_foldWords (hper : PerCharacter U) (hset : Settled U) {s : Span Char}
    (hs : s ∈ spans U.inWord (normalized U text)) (hne : fold U s.word ≠ []) :
    fold U s.word ∈ foldWords U text := by
  have hmem : s.word ∈ tokens (fun c => !U.inWord c) (normalized U text) := by
    rw [← spans_map_word]
    exact List.mem_map_of_mem hs
  rw [fold_run hper hset s hs] at hne ⊢
  rw [← tokens_unmarked]
  exact filter_mem_tokens (fun c => mark_not_separator) hmem hne

theorem runs_fold (hper : PerCharacter U) (hset : Settled U) (h : Search.NoEmptyRun U text) :
    (spans U.inWord (normalized U text)).map (fun s => fold U s.word) = foldWords U text := by
  rw [Search.NoEmptyRun, ← Search.normalized_eq] at h
  have hrun : ∀ s ∈ spans U.inWord (normalized U text),
      fold U s.word = s.word.filter fun c => !U.isMark c := fold_run hper hset
  have hkept : ∀ v ∈ tokens (fun c => !U.inWord c) (normalized U text),
      (v.filter fun c => !U.isMark c) ≠ [] := by
    intro v hv hnil
    rw [← spans_map_word, List.mem_map] at hv
    obtain ⟨s, hs, rfl⟩ := hv
    rw [← hrun s hs, Search.fold_eq_foldSearch] at hnil
    exact h s hs ((Search.foldSearch_eq_nil U).mp hnil)
  calc (spans U.inWord (normalized U text)).map (fun s => fold U s.word)
      = ((spans U.inWord (normalized U text)).map Span.word).map
          (List.filter fun c => !U.isMark c) := by
        rw [List.map_map]
        exact List.map_congr_left hrun
    _ = tokens (fun c => !U.inWord c) ((normalized U text).filter fun c => !U.isMark c) := by
        rw [spans_map_word, tokens_filter (fun c => mark_not_separator) hkept]
    _ = foldWords U text := tokens_unmarked text

theorem folded_foldLetter (folds : List FoldedChar) (start : Nat) (letter : Text) :
    folded (foldLetter U folds start letter).reverse =
      folded folds.reverse ++ foldLetters U letter := by
  unfold foldLetter
  split
  · rename_i last before hnil
    simp [folded, hnil]
  · simp [folded, Function.comp_def]

/-- Both models of the loop fold to the same text. -/
theorem folded_foldFrom {folds : List FoldedChar} {result : Utf16.FoldedText}
    (h : folded folds.reverse = result.folded) (start n : Nat) :
    folded (foldFrom U folds start text) = (Utf16.addLetters U result n text).folded := by
  fun_induction foldFrom U folds start text generalizing result n with
  | case1 folds start => exact h
  | case2 folds start c =>
    rw [folded_foldLetter, h]
    rfl
  | case3 folds start c d ds hpair ih =>
    rw [Utf16.addLetters, if_pos hpair]
    refine ih ?_ _
    rw [folded_foldLetter, h]
    rfl
  | case4 folds start c d ds hpair ih =>
    rw [Utf16.addLetters, if_neg hpair]
    refine ih ?_ _
    rw [folded_foldLetter, h]
    rfl

theorem tokens_folded (hper : PerCharacter U) (text : Text) :
    tokens (fun c => !(c != ' ')) (folded (foldWithOffsets U text)) = foldWords U text := by
  have hsame : folded (foldWithOffsets U text) = (Utf16.foldWithOffsets U text).folded :=
    folded_foldFrom rfl 0 0
  have hfolding := Utf16.folding_foldWithOffsets hper text
  have hwords : ∀ t, ∀ v ∈ tokens (separator U) t, Search.isWord U v := by
    intro t v hv
    refine ⟨(mem_tokens.mp hv).2, fun c hc => ?_⟩
    simpa [separator] using not_of_mem_tokens hv c hc
  have hjoin : Search.joinWords (tokens (separator U) (folded (foldWithOffsets U text))) =
      Search.joinWords (foldWords U text) := by
    rw [← Search.jsTrim_collapse, hsame, hfolding.collapsed, Search.jsTrim_collapse, foldWords,
      Search.unmarked, ← Search.normalized_eq]
    rfl
  calc tokens (fun c => !(c != ' ')) (folded (foldWithOffsets U text))
      = tokens (separator U) (folded (foldWithOffsets U text)) := by
        refine tokens_congr fun c hc => ?_
        rw [hsame] at hc
        obtain rfl | hrune := hfolding.spaced c hc
        · simp [separator]
        · have hne : c ≠ ' ' := by
            rintro rfl
            simp at hrune
          simp [separator, hrune, hne]
    _ = foldWords U text := by
        rw [← Search.fields_joinWords U (hwords _), hjoin,
          Search.fields_joinWords U fun v => Search.isWord_of_mem_foldWords U]

theorem written_fold (hper : PerCharacter U) (text : Text) :
    (spans (fun f => f.char != ' ') (foldWithOffsets U text)).map (fun s => folded s.word) =
      foldWords U text := by
  calc (spans (fun f => f.char != ' ') (foldWithOffsets U text)).map (fun s => folded s.word)
      = (tokens (fun f => !(f.char != ' ')) (foldWithOffsets U text)).map
          (List.map FoldedChar.char) := by
        rw [← spans_map_word, List.map_map]
        rfl
    _ = tokens (fun c => !(c != ' ')) (folded (foldWithOffsets U text)) :=
        (tokens_map (fun c => !(c != ' ')) FoldedChar.char _).symm
    _ = foldWords U text := tokens_folded hper text

end Folds

section Agree

variable {U} {text : Text}

theorem foldedWord_words (chars : List FoldedChar) :
    (foldedWord text chars).map FoldedWord.toWord =
      pushWords (folded chars) (writtenAllowed text chars) := by
  have hword : (wordOf chars false).word = folded chars := rfl
  unfold foldedWord pushWords
  dsimp only
  rw [hword]
  cases hg : gluedCatalogue (folded chars) with
  | none => rfl
  | some p =>
    obtain ⟨head, number⟩ := p
    have hglued := (Search.gluedCatalogue_eq hg).1
    refine (apply_ite (List.map FoldedWord.toWord) _ _ _).trans ?_
    refine ite_congr rfl (fun _ => ?_) fun _ => rfl
    have hhead : folded (chars.take head.length) = head := by
      rw [folded, List.map_take, ← folded, hglued, List.take_left]
    have hnumber : folded (chars.drop head.length) = number := by
      rw [folded, List.map_drop, ← folded, hglued, List.drop_left]
    simp only [List.map_cons, List.map_nil, FoldedWord.toWord, wordOf, hhead, hnumber]
    rfl

theorem runs_words (text : Text) {ss : List (Span Char)} {ws : List (Span FoldedChar)}
    (h : ss.map (fun s => fold U s.word) = ws.map fun s => folded s.word) :
    let rs := List.zipWith
      (fun s w => Run.mk (fold U s.word) (spanAllowed s) (writtenAllowed text w.word)) ss ws
    rs.flatMap (fun r => pushWords r.word r.normalized) =
        ss.flatMap (fun s => pushWords (fold U s.word) (spanAllowed s)) ∧
      rs.flatMap (fun r => pushWords r.word r.written) =
        (ws.flatMap fun s => foldedWord text s.word).map FoldedWord.toWord := by
  induction ss generalizing ws with
  | nil =>
    cases ws with
    | nil => exact ⟨rfl, rfl⟩
    | cons w ws => cases h
  | cons s ss ih =>
    cases ws with
    | nil => cases h
    | cons w ws =>
      rw [List.map_cons, List.map_cons, List.cons.injEq] at h
      obtain ⟨hword, hrest⟩ := h
      obtain ⟨hnormalized, hwritten⟩ := ih hrest
      dsimp only at hnormalized hwritten ⊢
      rw [List.zipWith_cons_cons, List.flatMap_cons, List.flatMap_cons, List.flatMap_cons,
        List.flatMap_cons, List.map_append, foldedWord_words, hnormalized, hwritten, hword]
      exact ⟨rfl, rfl⟩

/-- The two scanners agree on a text when no run of it folds to nothing, and its short
catalogues before a number are ones in both texts. -/
theorem spansAgree (hper : PerCharacter U) (hset : Settled U) (text : Text)
    (hruns : Search.NoEmptyRun U text) (hflags : flagsAgree (runs U text) = true) :
    SpansAgree U text := by
  refine ⟨searchTermSpans_within U text, fun s hs => mem_scanSpans 0 hs, ?_⟩
  have hfold := (runs_fold hper hset hruns).trans (written_fold hper text).symm
  obtain ⟨hnormalized, hwritten⟩ := runs_words text hfold
  have halike := alike_runs hflags
  rw [runs, hnormalized, hwritten] at halike
  obtain ⟨ps, hfolded, hchars, hne⟩ := pieces_foldedWords U text
  have hsub : (letters U text).Sublist (foldWithOffsets U text) := List.filter_sublist
  have hcovers := covers_joinSpans ((foldWithOffsets_offsets U text).sorted.sublist hsub)
    ((foldWithOffsets_stops U text).sublist hsub) hne 0 hchars.symm 0
  have hpieces : foldedWords U text = ps.map pieceWord := hfolded
  rw [← hpieces] at hcovers
  rw [catalogueWords, halike.joins 0 0]
  exact hcovers

end Agree

section Basic

theorem basicLower_idem (c : Char) : basicLower (basicLower c) = basicLower c := by
  by_cases hsigma : c = 'Σ'
  · rw [hsigma]
    decide
  · by_cases hascii : isASCII c = true
    · have hkept := Search.isASCII_toLower hascii
      have hne : c.toLower ≠ 'Σ' := by
        intro heq
        rw [heq] at hkept
        cases hkept
      have hlower : basicLower c = c.toLower := by simp [basicLower, hsigma, hascii]
      rw [hlower, basicLower, if_neg hne, if_pos hkept, Char.toLower_toLower_eq_toLower]
    · have hlower : basicLower c = c := by simp [basicLower, hsigma, hascii]
      rw [hlower, hlower]

def leftoverChars : Text := " olsaedthiσharpflat".toList

theorem leftover_cases (c : Char) :
    leftover c = [c] ∨ ∀ d ∈ leftover c, leftoverChars.contains d = true := by
  unfold leftover
  split
  all_goals first | exact Or.inr (List.all_eq_true.mp (by decide)) | exact Or.inl rfl

theorem settled_basicTables : Settled basicTables := by
  have hleft : ∀ c ∈ leftoverChars,
      (c == ' ' || plainChar basicTables c == [c]) = true :=
    List.all_eq_true.mp (by decide)
  refine ⟨?_, ?_⟩
  · intro t c hc hin hmark
    have hnormal : normalized basicTables t =
        (basicNFKD (replaceNumberSigns t)).flatMap fun d => leftover (basicLower d) := by
      rw [normalized, toLowerCase, Search.leftover_toLowerFrom basicTables _ _
        (basicTables.nfkd_dottedI _), List.flatMap_map]
      rfl
    rw [hnormal] at hc
    obtain ⟨d, -, hc⟩ := List.mem_flatMap.mp hc
    obtain hself | hput := leftover_cases (basicLower d)
    · obtain rfl : c = basicLower d := by simpa [hself] using hc
      have hne : basicLower d ≠ dottedI := by
        intro heq
        rw [heq] at hin
        cases hin
      have hnfkd : basicTables.nfkd [basicLower d] = [basicLower d] := by
        change basicNFKD [basicLower d] = _
        simp [basicNFKD, hne]
      have hlower : basicTables.lower (basicLower d) = basicLower d := basicLower_idem d
      simp [plainChar, hnfkd, hmark, hlower, hself]
    · have hkept := hleft c (List.contains_iff_mem.mp (hput c hc))
      rw [Bool.or_eq_true, beq_iff_eq, beq_iff_eq] at hkept
      obtain rfl | hkept := hkept
      · cases hin
      · exact hkept
  · intro t c _ hin
    refine ⟨?_, ?_⟩
    · rintro rfl
      cases hin
    · rintro rfl
      cases hin

theorem spansAgree_liszt :
    let text := "Liszt S. 139, KV 545".toList
    joins 0 0 (catalogueWords basicTables text) =
        [⟨"s139".toList, 5, "s139".toList⟩, ⟨"k545".toList, 9, "kv545".toList⟩] ∧
      SpansAgree basicTables text :=
  ⟨by decide +kernel, spansAgree Utf16.perCharacter_basicTables settled_basicTables _
    (by unfold Search.NoEmptyRun; decide +kernel) (by decide +kernel)⟩

/-- An accent with no letter is a word to the scan of a query only. -/
theorem not_spansAgree_accent :
    ¬SpansAgree basicTables ("K. ".toList ++ Char.ofNat 0x301 :: " 545".toList) := by
  intro h
  have hjoins : (joins 0 0 (catalogueWords basicTables
      ("K. ".toList ++ Char.ofNat 0x301 :: " 545".toList))).length = 0 := by decide +kernel
  have hspans : (joinSpans 0 (foldedWords basicTables
      ("K. ".toList ++ Char.ofNat 0x301 :: " 545".toList))).length = 1 := by decide +kernel
  have hlength := h.joined.length_eq
  rw [hjoins, hspans] at hlength
  cases hlength

end Basic

end Noted.Browser
