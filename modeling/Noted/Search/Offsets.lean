import Noted.Search.Highlight

/-!
# The offsets of the fold (core/search.ts)

`foldWithOffsets` folds a text one letter at a time and keeps, for every UTF-16 unit of
the fold, where its letter starts and stops in the text. It is compared with the fold of
the whole text, under tables that decompose a text letter by letter. The results on
`matchParts` and `searchTermSpans` are about `Browser.foldWithOffsets`, in characters.
-/

namespace Noted.Browser.Utf16

open Library.Words
open LibraryPage (utf16Length)
open Search (separator)

section Units

def units (c : Char) : List Nat :=
  if c.toNat < 0x10000 then [c.toNat]
  else [0xD800 + (c.toNat - 0x10000) / 0x400, 0xDC00 + (c.toNat - 0x10000) % 0x400]

def utf16 (text : Text) : List Nat := text.flatMap units

theorem length_units (c : Char) : (units c).length = utf16Length [c] := by
  by_cases hc : c.toNat < 0x10000 <;> simp [units, utf16Length, hc]

@[simp] theorem utf16Length_append (s t : Text) :
    utf16Length (s ++ t) = utf16Length s + utf16Length t := by
  simp [utf16Length]

@[simp] theorem utf16_append (s t : Text) : utf16 (s ++ t) = utf16 s ++ utf16 t := by
  simp [utf16]

@[simp] theorem length_utf16 (text : Text) : (utf16 text).length = utf16Length text := by
  induction text with
  | nil => rfl
  | cons c cs ih =>
    calc (utf16 (c :: cs)).length = (units c).length + (utf16 cs).length := by simp [utf16]
      _ = utf16Length [c] + utf16Length cs := by rw [length_units, ih]
      _ = utf16Length (c :: cs) := by rw [← utf16Length_append, List.singleton_append]

theorem utf16Length_pos {text : Text} (h : text ≠ []) : 0 < utf16Length text := by
  obtain ⟨c, cs, rfl⟩ := List.exists_cons_of_ne_nil h
  have hc : 0 < utf16Length [c] := by
    by_cases hc : c.toNat < 0x10000 <;> simp [utf16Length, hc]
  rw [← List.singleton_append, utf16Length_append]
  omega

theorem utf16Length_mono {s t : Text} (h : s <+: t) : utf16Length s ≤ utf16Length t := by
  obtain ⟨rest, rfl⟩ := h
  simp

end Units

variable (U : UnicodeTables)

/-- A text folded one character at a time, with where each UTF-16 unit of the fold came
from. -/
structure FoldedText where
  folded : Text
  starts : List Nat
  ends : List Nat
  deriving DecidableEq

def addLetter (result : FoldedText) (start : Nat) (letter : Text) : FoldedText :=
  let stop := start + utf16Length letter
  let folded := foldLetters U letter
  let ends := if folded.isEmpty && !result.ends.isEmpty then result.ends.dropLast ++ [stop]
    else result.ends
  { folded := result.folded ++ folded
    starts := result.starts ++ List.replicate (utf16Length folded) start
    ends := ends ++ List.replicate (utf16Length folded) stop }

def addLetters (result : FoldedText) (start : Nat) : Text → FoldedText
  | [] => result
  | [c] => addLetter U result start [c]
  | c :: d :: ds =>
    if isNumberSign c d then
      addLetters (addLetter U result start [c, d]) (start + utf16Length [c, d]) ds
    else addLetters (addLetter U result start [c]) (start + utf16Length [c]) (d :: ds)

def foldWithOffsets (text : Text) : FoldedText := addLetters U ⟨[], [], []⟩ 0 text

def collapseSpaces (inRun : Bool) : Text → Text
  | [] => []
  | c :: cs =>
    if c ≠ ' ' then c :: collapseSpaces false cs
    else if inRun then collapseSpaces true cs
    else ' ' :: collapseSpaces true cs

section PerCharacter

/-- NFKD acts on each character for itself, up to the marks. -/
def PerCharacter : Prop :=
  ∀ t, (U.nfkd t).filter (fun c => !U.isMark c) =
    t.flatMap fun c => (U.nfkd [c]).filter fun d => !U.isMark d

def plain (text : Text) : Text := (normalized U text).filter fun c => !U.isMark c

def plainChar (c : Char) : Text :=
  ((U.nfkd [c]).filter fun d => !U.isMark d).flatMap fun d =>
    (leftover (U.lower d)).filter fun e => !U.isMark e

variable {U}

theorem plain_replaceNumberSigns (h : PerCharacter U) (text : Text) :
    plain U text = (replaceNumberSigns text).flatMap (plainChar U) := by
  generalize hsigns : replaceNumberSigns text = t
  have hlower : normalized U text = (U.nfkd t).flatMap fun c => leftover (U.lower c) := by
    rw [normalized, toLowerCase, Search.leftover_toLowerFrom U _ _ (U.nfkd_dottedI _), hsigns,
      List.flatMap_map]
  have hmarks : ∀ s : Text,
      (s.flatMap fun c => leftover (U.lower c)).filter (fun c => !U.isMark c) =
        (s.filter fun c => !U.isMark c).flatMap fun c =>
          (leftover (U.lower c)).filter fun d => !U.isMark d := by
    intro s
    induction s with
    | nil => rfl
    | cons c cs ih =>
      rw [List.flatMap_cons, List.filter_append, ih, List.filter_cons]
      by_cases hc : U.isMark c = true
      · have hmark := U.lower_mark c hc
        simp [hc, Search.leftover_mark U hmark, hmark]
      · simp [hc]
  rw [plain, hlower, hmarks, h t, List.flatMap_assoc]
  rfl

/-- No number sign is cut in two between these texts. -/
def Apart (s t : Text) : Prop :=
  ∀ c ∈ s.getLast?, ∀ d ∈ t.head?, isNumberSign c d = false

theorem replaceNumberSigns_append {s t : Text} (h : Apart s t) :
    replaceNumberSigns (s ++ t) = replaceNumberSigns s ++ replaceNumberSigns t := by
  fun_induction replaceNumberSigns s with
  | case1 => rfl
  | case2 c =>
    cases t with
    | nil => rfl
    | cons d ds =>
      have hsign : ¬((c = 'n' ∨ c = 'N') ∧ (d = '°' ∨ d = 'º')) := by
        have hcd := h c rfl d rfl
        simpa [isNumberSign] using hcd
      rw [List.singleton_append, replaceNumberSigns, if_neg hsign, List.singleton_append]
  | case3 c d ds hsign ih =>
    have hds : Apart ds t := by
      intro a ha b hb
      refine h a ?_ b hb
      cases ds with
      | nil => cases ha
      | cons e es => simpa using ha
    rw [List.cons_append, List.cons_append, replaceNumberSigns, if_pos hsign, ih hds,
      List.append_assoc]
  | case4 c d ds hsign ih =>
    have hds : Apart (d :: ds) t := fun a ha b hb => h a (by simpa using ha) b hb
    rw [List.cons_append, List.cons_append, replaceNumberSigns, if_neg hsign,
      ← List.cons_append, ih hds, List.cons_append]

theorem plain_append (h : PerCharacter U) {s t : Text} (hst : Apart s t) :
    plain U (s ++ t) = plain U s ++ plain U t := by
  simp only [plain_replaceNumberSigns h, replaceNumberSigns_append hst, List.flatMap_append]

end PerCharacter

section Collapse

def inRunAfter (inRun : Bool) : Text → Bool
  | [] => inRun
  | c :: cs => inRunAfter (!U.isWordRune c) cs

theorem collapse_append (inRun : Bool) (s t : Text) :
    collapse U inRun (s ++ t) = collapse U inRun s ++ collapse U (inRunAfter U inRun s) t := by
  induction s generalizing inRun with
  | nil => rfl
  | cons c cs ih =>
    by_cases hc : U.isWordRune c = true
    · simp [collapse, inRunAfter, hc, ih]
    · cases inRun <;> simp [collapse, inRunAfter, hc, ih]

theorem collapse_collapse (outer inner : Bool) (t : Text) :
    collapse U outer (collapse U inner t) = collapse U (outer || inner) t := by
  induction t generalizing outer inner with
  | nil => rfl
  | cons c cs ih =>
    by_cases hc : U.isWordRune c = true
    · simp [collapse, hc, ih]
    · cases inner <;> cases outer <;> simp [collapse, hc, ih]

theorem inRunAfter_collapse (inRun : Bool) (t : Text) :
    ∀ b, (inRun = true → b = true) →
      inRunAfter U b (collapse U inRun t) = inRunAfter U b t := by
  induction t generalizing inRun with
  | nil => exact fun b _ => rfl
  | cons c cs ih =>
    intro b hb
    by_cases hc : U.isWordRune c = true
    · simp [collapse, inRunAfter, hc, ih]
    · cases inRun with
      | false => simp [collapse, inRunAfter, hc, ih]
      | true => simp [collapse, inRunAfter, hc, ih, hb]

theorem mem_collapse {inRun : Bool} {c : Char} {t : Text} (h : c ∈ collapse U inRun t) :
    c = ' ' ∨ U.isWordRune c = true ∧ c ∈ t := by
  induction t generalizing inRun with
  | nil => cases h
  | cons d ds ih =>
    have hrest : ∀ {b : Bool}, c ∈ collapse U b ds →
        c = ' ' ∨ U.isWordRune c = true ∧ c ∈ d :: ds := fun h =>
      (ih h).imp_right fun h => ⟨h.1, List.mem_cons_of_mem d h.2⟩
    by_cases hd : U.isWordRune d = true
    · rw [collapse, if_pos hd] at h
      obtain rfl | h := List.mem_cons.mp h
      · exact Or.inr ⟨hd, List.mem_cons_self⟩
      · exact hrest h
    · rw [collapse, if_neg hd] at h
      cases inRun with
      | true => exact hrest h
      | false =>
        obtain rfl | h := List.mem_cons.mp h
        · exact Or.inl rfl
        · exact hrest h

theorem mem_fold {c : Char} {text : Text} (hc : U.isWordRune c = true) (hmem : c ∈ plain U text) :
    c ∈ fold U text := by
  have hsep : separator U c = false := by simp [separator, hc]
  obtain ⟨w, hw, hcw⟩ := exists_mem_tokens hmem hsep
  have hfold : fold U text = Search.joinWords (tokens (separator U) (plain U text)) :=
    Search.jsTrim_collapse U (plain U text)
  rw [hfold]
  cases hwords : tokens (separator U) (plain U text) with
  | nil => simp [hwords] at hw
  | cons v vs =>
    rw [hwords, List.mem_cons] at hw
    rw [Search.joinWords_cons, List.mem_append]
    obtain rfl | hw := hw
    · exact Or.inl hcw
    · exact Or.inr (List.mem_flatMap.mpr ⟨w, hw, List.mem_cons_of_mem ' ' hcw⟩)

theorem collapseSpaces_eq {t : Text} (h : ∀ c ∈ t, c = ' ' ∨ U.isWordRune c = true)
    (inRun : Bool) : collapseSpaces inRun t = collapse U inRun t := by
  induction t generalizing inRun with
  | nil => rfl
  | cons c cs ih =>
    have htail := ih fun d hd => h d (List.mem_cons_of_mem c hd)
    obtain rfl | hc := h c List.mem_cons_self
    · simp [collapseSpaces, collapse, htail]
    · have hne : c ≠ ' ' := by
        intro hspace
        rw [hspace, U.isWordRune_space] at hc
        cases hc
      simp [collapseSpaces, collapse, hne, hc, htail]

end Collapse

section Origins

/-- Where a UTF-16 unit of the fold comes from: a letter with the marks on it. -/
structure Origin where
  unit : Nat
  before : Text
  written : Text

def Origin.start (o : Origin) : Nat := utf16Length o.before

def Origin.stop (o : Origin) : Nat := utf16Length (o.before ++ o.written)

structure Origin.Reads (o : Origin) (done : Text) : Prop where
  within : o.before ++ o.written <+: done
  nonempty : o.written ≠ []
  folded : o.unit ≠ 32 → ∃ c ∈ plain U o.written, U.isWordRune c = true ∧ o.unit ∈ units c

def Origin.Before (o p : Origin) : Prop :=
  o.before <+: p.before ∧ o.before ++ o.written <+: p.before ++ p.written

/-- What the loop keeps for the text it has read. -/
structure Tracks (done : Text) (result : FoldedText) (origins : List Origin) : Prop where
  units : utf16 result.folded = origins.map Origin.unit
  starts : result.starts = origins.map Origin.start
  ends : result.ends = origins.map Origin.stop
  reads : ∀ o ∈ origins, o.Reads U done
  sorted : origins.Pairwise Origin.Before
  last : ∀ o ∈ origins.getLast?, o.before ++ o.written = done

variable {U} {done letter : Text} {result : FoldedText} {origins : List Origin}

theorem Origin.Reads.append {o : Origin} (h : o.Reads U done) (letter : Text) :
    o.Reads U (done ++ letter) :=
  ⟨h.within.trans (List.prefix_append done letter), h.nonempty, h.folded⟩

def originsOf (done letter folded : Text) : List Origin :=
  (utf16 folded).map fun u => ⟨u, done, letter⟩

theorem reads_originsOf (hne : letter ≠ []) :
    ∀ o ∈ originsOf done letter (foldLetters U letter), o.Reads U (done ++ letter) := by
  intro o ho
  obtain ⟨u, hu, rfl⟩ := List.mem_map.mp ho
  refine ⟨List.prefix_rfl, hne, ?_⟩
  intro hspace
  obtain ⟨c, hc, hu⟩ := List.mem_flatMap.mp hu
  obtain rfl | ⟨hrune, hc⟩ := mem_collapse U hc
  · have hunit : u = 32 := List.mem_singleton.mp hu
    exact absurd hunit hspace
  · exact ⟨c, hc, hrune, hu⟩

theorem Tracks.addFolded (h : Tracks U done result origins) (hne : letter ≠ [])
    (hfold : foldLetters U letter ≠ []) :
    Tracks U (done ++ letter) (addLetter U result (utf16Length done) letter)
      (origins ++ originsOf done letter (foldLetters U letter)) := by
  have hends : (addLetter U result (utf16Length done) letter).ends = result.ends ++
      List.replicate (utf16Length (foldLetters U letter)) (utf16Length (done ++ letter)) := by
    simp [addLetter, hfold]
  have hnew : originsOf done letter (foldLetters U letter) ≠ [] := by
    have hpos := utf16Length_pos hfold
    rw [← List.length_pos_iff, originsOf, List.length_map, length_utf16]
    exact hpos
  refine ⟨?_, ?_, ?_, ?_, ?_, ?_⟩
  · simp [addLetter, originsOf, h.units, Function.comp_def]
  · simp [addLetter, originsOf, h.starts, Function.comp_def, Origin.start, List.map_const']
  · simp [hends, originsOf, h.ends, Function.comp_def, Origin.stop, List.map_const']
  · intro o ho
    obtain ho | ho := List.mem_append.mp ho
    · exact (h.reads o ho).append letter
    · exact reads_originsOf hne o ho
  · refine List.pairwise_append.mpr ⟨h.sorted, ?_, ?_⟩
    · rw [originsOf, List.pairwise_map]
      exact List.pairwise_of_forall fun _ _ => ⟨List.prefix_rfl, List.prefix_rfl⟩
    · intro o ho p hp
      obtain ⟨u, -, rfl⟩ := List.mem_map.mp hp
      have hwithin := (h.reads o ho).within
      exact ⟨(List.prefix_append _ _).trans hwithin,
        hwithin.trans (List.prefix_append done letter)⟩
  · intro o ho
    rw [List.getLast?_append_of_ne_nil origins hnew] at ho
    obtain ⟨u, -, rfl⟩ := List.mem_map.mp (List.mem_of_mem_getLast? ho)
    rfl

theorem Origin.Reads.join (hper : PerCharacter U) {o : Origin} (h : o.Reads U done)
    (hdone : o.before ++ o.written = done) (hapart : Apart done letter) :
    (Origin.mk o.unit o.before (o.written ++ letter)).Reads U (done ++ letter) := by
  have hlast : Apart o.written letter := by
    intro c hc
    refine hapart c ?_
    rw [← hdone, List.getLast?_append_of_ne_nil o.before h.nonempty]
    exact hc
  refine ⟨?_, by simp [h.nonempty], ?_⟩
  · rw [← List.append_assoc, hdone]
  · intro hspace
    obtain ⟨c, hc, hrune, hu⟩ := h.folded hspace
    refine ⟨c, ?_, hrune, hu⟩
    rw [plain_append hper hlast]
    exact List.mem_append_left _ hc

theorem Tracks.addMark (hper : PerCharacter U) (h : Tracks U done result origins)
    (hapart : Apart done letter) (hfold : foldLetters U letter = []) :
    ∃ origins', Tracks U (done ++ letter)
      (addLetter U result (utf16Length done) letter) origins' := by
  obtain rfl | ⟨before, last, rfl⟩ := List.eq_nil_or_concat' origins
  · refine ⟨[], ?_⟩
    have hends : result.ends = [] := h.ends
    constructor <;> simp [addLetter, hfold, hends, h.units, h.starts, utf16Length]
  · have hdone : last.before ++ last.written = done := h.last last (by simp)
    have hlast := h.reads last (by simp)
    obtain ⟨hbefore, -, hsorted⟩ := List.pairwise_append.mp h.sorted
    have hends : result.ends = before.map Origin.stop ++ [last.stop] := by
      rw [h.ends, List.map_append, List.map_singleton]
    have hstop : (Origin.mk last.unit last.before (last.written ++ letter)).stop =
        utf16Length (done ++ letter) := by
      rw [Origin.stop, ← List.append_assoc, hdone]
    refine ⟨before ++ [⟨last.unit, last.before, last.written ++ letter⟩], ?_⟩
    refine ⟨?_, ?_, ?_, ?_, ?_, ?_⟩
    · simp [addLetter, hfold, h.units]
    · simp [addLetter, hfold, h.starts, utf16Length, Origin.start]
    · simp [addLetter, hfold, hends, hstop, utf16Length]
    · intro o ho
      obtain ho | ho := List.mem_append.mp ho
      · exact (h.reads o (List.mem_append_left _ ho)).append letter
      · obtain rfl := List.mem_singleton.mp ho
        exact hlast.join hper hdone hapart
    · refine List.pairwise_append.mpr ⟨hbefore, List.pairwise_singleton _ _, ?_⟩
      intro o ho p hp
      obtain rfl := List.mem_singleton.mp hp
      obtain ⟨hstart, hend⟩ := hsorted o ho last (List.mem_singleton_self last)
      refine ⟨hstart, hend.trans ?_⟩
      rw [← List.append_assoc]
      exact List.prefix_append _ _
    · intro o ho
      rw [List.getLast?_concat, Option.mem_some_iff] at ho
      rw [← ho, ← List.append_assoc, hdone]

end Origins

section Folding

structure Folding (done : Text) (result : FoldedText) : Prop where
  tracks : ∃ origins, Tracks U done result origins
  spaced : ∀ c ∈ result.folded, c = ' ' ∨ U.isWordRune c = true
  collapsed : collapse U false result.folded = collapse U false (plain U done)

variable {U} {done letter text : Text} {result : FoldedText}

theorem Folding.addLetter (hper : PerCharacter U) (h : Folding U done result)
    (hne : letter ≠ []) (hapart : Apart done letter) :
    Folding U (done ++ letter) (addLetter U result (utf16Length done) letter) := by
  have hfolded : (Utf16.addLetter U result (utf16Length done) letter).folded =
      result.folded ++ collapse U false (plain U letter) := rfl
  obtain ⟨origins, htracks⟩ := h.tracks
  refine ⟨?_, ?_, ?_⟩
  · by_cases hfold : foldLetters U letter = []
    · exact htracks.addMark hper hapart hfold
    · exact ⟨_, htracks.addFolded hne hfold⟩
  · intro c hc
    rw [hfolded] at hc
    obtain hc | hc := List.mem_append.mp hc
    · exact h.spaced c hc
    · exact (mem_collapse U hc).imp_right And.left
  · have hafter : inRunAfter U false result.folded = inRunAfter U false (plain U done) := by
      rw [← inRunAfter_collapse U false result.folded false id, h.collapsed,
        inRunAfter_collapse U false (plain U done) false id]
    rw [hfolded, collapse_append, collapse_collapse, Bool.or_false, h.collapsed, hafter,
      ← collapse_append, plain_append hper hapart]

theorem not_isNumberSign_after {c d : Char} (h : isNumberSign c d = true) (e : Char) :
    isNumberSign d e = false := by
  simp only [isNumberSign, Bool.and_eq_true, Bool.or_eq_true, beq_iff_eq] at h
  obtain ⟨-, rfl | rfl⟩ := h <;> rfl

theorem Folding.addLetters (hper : PerCharacter U) {start : Nat} (h : Folding U done result)
    (hstart : start = utf16Length done) (hapart : Apart done text) :
    Folding U (done ++ text) (addLetters U result start text) := by
  fun_induction Utf16.addLetters U result start text generalizing done with
  | case1 result start => simpa using h
  | case2 result start c =>
    rw [hstart]
    exact h.addLetter hper (List.cons_ne_nil c []) hapart
  | case3 result start c d ds hpair ih =>
    rw [hstart] at ih ⊢
    have hfirst : Apart done [c, d] := fun a ha b hb => hapart a ha b hb
    have hrest : Apart (done ++ [c, d]) ds := by
      intro a ha b hb
      obtain rfl : d = a := by simpa using ha
      exact not_isNumberSign_after hpair b
    have hnext := ih (h.addLetter hper (List.cons_ne_nil c [d]) hfirst) (by simp) hrest
    simpa using hnext
  | case4 result start c d ds hpair ih =>
    rw [hstart] at ih ⊢
    have hfirst : Apart done [c] := fun a ha b hb => hapart a ha b hb
    have hrest : Apart (done ++ [c]) (d :: ds) := by
      intro a ha b hb
      obtain rfl : c = a := by simpa using ha
      obtain rfl : d = b := by simpa using hb
      simpa using hpair
    have hnext := ih (h.addLetter hper (List.cons_ne_nil c []) hfirst) (by simp) hrest
    simpa using hnext

theorem folding_nil : Folding U [] ⟨[], [], []⟩ := by
  have hplain : plain U [] = [] := by
    simp [plain, normalized, replaceNumberSigns, U.nfkd_nil, toLowerCase, toLowerFrom]
  refine ⟨⟨[], ?_⟩, by simp, by rw [hplain]⟩
  constructor <;> simp [utf16]

theorem folding_foldWithOffsets (hper : PerCharacter U) (text : Text) :
    Folding U text (foldWithOffsets U text) := by
  have h : Folding U ([] ++ text) (addLetters U ⟨[], [], []⟩ 0 text) :=
    folding_nil.addLetters hper rfl (by simp [Apart])
  simpa [foldWithOffsets] using h

end Folding

section LeadsBack

/-- `starts` and `ends` cut every unit's letter out of the text. -/
structure LeadsBack (text : Text) (result : FoldedText) : Prop where
  starts_length : result.starts.length = (utf16 result.folded).length
  ends_length : result.ends.length = (utf16 result.folded).length
  starts_sorted : result.starts.Pairwise (· ≤ ·)
  ends_sorted : result.ends.Pairwise (· ≤ ·)
  letters : ∀ (i u s e : Nat), (utf16 result.folded)[i]? = some u →
    result.starts[i]? = some s → result.ends[i]? = some e →
    s < e ∧ ∃ before slice after, text = before ++ slice ++ after ∧
      s = utf16Length before ∧ e = utf16Length (before ++ slice) ∧
      (u ≠ 32 → u ∈ utf16 (fold U slice))

variable {U} {text : Text} {result : FoldedText} {origins : List Origin}

theorem Tracks.leadsBack (h : Tracks U text result origins) : LeadsBack U text result := by
  refine ⟨?_, ?_, ?_, ?_, ?_⟩
  · rw [h.starts, h.units, List.length_map, List.length_map]
  · rw [h.ends, h.units, List.length_map, List.length_map]
  · rw [h.starts, List.pairwise_map]
    exact h.sorted.imp fun hop => utf16Length_mono hop.1
  · rw [h.ends, List.pairwise_map]
    exact h.sorted.imp fun hop => utf16Length_mono hop.2
  · intro i u s e hu hs he
    rw [h.units, List.getElem?_map, Option.map_eq_some_iff] at hu
    obtain ⟨o, ho, rfl⟩ := hu
    rw [h.starts, List.getElem?_map, ho, Option.map_some, Option.some.injEq] at hs
    rw [h.ends, List.getElem?_map, ho, Option.map_some, Option.some.injEq] at he
    have hreads := h.reads o (List.mem_of_getElem? ho)
    obtain ⟨after, hafter⟩ := hreads.within
    have hpos := utf16Length_pos hreads.nonempty
    refine ⟨?_, o.before, o.written, after, hafter.symm, hs.symm, he.symm, ?_⟩
    · rw [← hs, ← he, Origin.start, Origin.stop, utf16Length_append]
      omega
    · intro hspace
      obtain ⟨c, hc, hrune, hunit⟩ := hreads.folded hspace
      exact List.mem_flatMap.mpr ⟨c, mem_fold U hrune hc, hunit⟩

/-- Folding with offsets is folding, and every unit of it is in the fold of the slice
that it points to. -/
theorem foldWithOffsets_folds (hper : PerCharacter U) (text : Text) :
    jsTrim (collapseSpaces false (foldWithOffsets U text).folded) = fold U text ∧
      LeadsBack U text (foldWithOffsets U text) := by
  have h := folding_foldWithOffsets hper text
  obtain ⟨origins, htracks⟩ := h.tracks
  refine ⟨?_, htracks.leadsBack⟩
  rw [collapseSpaces_eq U h.spaced, h.collapsed]
  rfl

theorem perCharacter_basicTables : PerCharacter basicTables := by
  intro t
  simp [basicTables, basicNFKD, List.filter_flatMap]

theorem foldWithOffsets_folds_nocturne :
    let text := 'N' :: '°' :: ' ' :: 'e' :: Char.ofNat 0x301 :: "♭".toList
    foldWithOffsets basicTables text =
        ⟨"no  e flat ".toList, [0, 0, 0, 2, 3, 5, 5, 5, 5, 5, 5], [2, 2, 2, 3, 5, 6, 6, 6, 6, 6, 6]⟩ ∧
      jsTrim (collapseSpaces false (foldWithOffsets basicTables text).folded) =
        fold basicTables text ∧
      LeadsBack basicTables text (foldWithOffsets basicTables text) :=
  ⟨by decide +kernel, foldWithOffsets_folds perCharacter_basicTables _⟩

end LeadsBack

end Noted.Browser.Utf16
