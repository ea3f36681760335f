import Noted.Composer
import Noted.Search.Browser

/-!
# The web app's composer names (library.utils.ts)

`composerSurname` once more, as the browser computes it. The asides, the comma and the
trimmed punctuation are the same in both languages. The trims, the regular expressions'
`\s`, the words of a name and the lower case are not. The first two differ exactly where
the text has certain white space at its ends or at its first join; and where no part of
the name that is read has a character that the languages take differently, the two
surnames are equal.
-/

namespace Noted

open Library.Words Search

namespace Browser

variable (U : UnicodeTables)

def conjunction (t : Text) : Bool :=
  match t with
  | '&' :: c :: _ => jsSpace c
  | a :: n :: d :: c :: _ => [a, n, d].map Char.toLower == "and".toList && jsSpace c
  | _ => false

def joinsHere (t : Text) : Bool :=
  let rest := t.dropWhile jsSpace
  (rest.length < t.length && conjunction rest) ||
    rest.head?.any fun c => c == '/' || c == ';' || c == '+'

def firstComposer : Text → Text
  | [] => []
  | c :: cs => if joinsHere (c :: cs) then [] else c :: firstComposer cs

def words (text : Text) : List Text := tokens jsSpace text

def isComposerSuffix (word : Text) : Bool :=
  composerSuffixes.contains
    (toLowerCase U (trimBy (fun c => c == ' ' || c == '.' || c == ',') word))

def dropSuffixes : List Text → List Text
  | [] => []
  | word :: words => word :: words.rdropWhile (isComposerSuffix U)

def surnameOf (name : Text) : Text :=
  match (dropSuffixes U (words name)).getLast? with
  | none => []
  | some word => trimBy (fun c => c == '.' || c == ',') word

def composerSurname (composer : Text) : Text :=
  let name := firstComposer (jsTrim (replaceAsides 0 composer))
  match cutComma name with
  | none => surnameOf U name
  | some (head, tail) =>
    if isComposerSuffix U tail then surnameOf U head
    else if words head = [] then surnameOf U name
    else joinWords (words head)

end Browser

section Spaces

variable {t : Text}

def anySpace (c : Char) : Bool := sharedSpace c || c == nextLine || c == byteOrderMark

/-- The text has neither of the characters that are white space in one language only. -/
def SpacesAlike (t : Text) : Prop := ∀ c ∈ t, c ≠ nextLine ∧ c ≠ byteOrderMark

instance : Decidable (SpacesAlike t) :=
  decidable_of_iff ((t.all fun c => c != nextLine && c != byteOrderMark) = true)
    (by simp [SpacesAlike])

theorem anySpace_of_goSpace {c : Char} (h : goSpace c = true) : anySpace c = true := by
  rw [anySpace, ← goSpace, h]
  rfl

theorem anySpace_of_jsSpace {c : Char} (h : jsSpace c = true) : anySpace c = true := by
  rw [jsSpace, Bool.or_eq_true] at h
  obtain h | h := h
  · simp [anySpace, h]
  · simp [anySpace, h]

theorem anySpace_eq_false {c : Char} (hgo : goSpace c = false) (hjs : jsSpace c = false) :
    anySpace c = false := by
  rw [goSpace, Bool.or_eq_false_iff] at hgo
  rw [jsSpace, Bool.or_eq_false_iff] at hjs
  simp [anySpace, hgo.1, hgo.2, hjs.2]

theorem jsSpace_eq_goSpace {c : Char} (h : c ≠ nextLine ∧ c ≠ byteOrderMark) :
    jsSpace c = goSpace c := by
  rw [jsSpace, goSpace, beq_eq_false_iff_ne.mpr h.1, beq_eq_false_iff_ne.mpr h.2]

theorem spacesAlike_of_both (hgo : ∀ c ∈ t, goSpace c = true) (hjs : ∀ c ∈ t, jsSpace c = true) :
    SpacesAlike t := by
  intro c hc
  refine ⟨?_, ?_⟩
  · rintro rfl
    exact absurd (hjs _ hc) (by decide)
  · rintro rfl
    exact absurd (hgo _ hc) (by decide)

theorem words_eq_fields (h : SpacesAlike t) : Browser.words t = fields t := by
  rw [Browser.words, fields, tokens, tokens, splitOnP_congr fun c hc => jsSpace_eq_goSpace (h c hc)]

/-- What two tests take off a text is the same where they agree on its first white space. -/
theorem dropWhile_eq_of_run {p q : Char → Bool} (hp : ∀ c, p c = true → anySpace c = true)
    (hq : ∀ c, q c = true → anySpace c = true) (h : ∀ c ∈ t.takeWhile anySpace, p c = q c) :
    t.dropWhile p = t.dropWhile q := by
  induction t with
  | nil => rfl
  | cons c cs ih =>
    cases hany : anySpace c with
    | false =>
      have hpc : p c = false := by
        rw [Bool.eq_false_iff]
        exact fun hc => absurd (hp c hc) (by simp [hany])
      have hqc : q c = false := by
        rw [Bool.eq_false_iff]
        exact fun hc => absurd (hq c hc) (by simp [hany])
      rw [List.dropWhile_cons_of_neg (by simp [hpc]), List.dropWhile_cons_of_neg (by simp [hqc])]
    | true =>
      rw [List.takeWhile_cons_of_pos hany] at h
      have hc := h c (by simp)
      have hcs := ih fun d hd => h d (by simp [hd])
      rw [List.dropWhile_cons, List.dropWhile_cons, hc, hcs]

def ends (t : Text) : Text := t.takeWhile anySpace ++ t.rtakeWhile anySpace

theorem ends_append {a v b : Text} (ha : ∀ c ∈ a, anySpace c = true)
    (hb : ∀ c ∈ b, anySpace c = true) (hv : v ≠ []) (hfirst : ∀ c ∈ v.head?, anySpace c = false)
    (hlast : ∀ c ∈ v.getLast?, anySpace c = false) : ends (a ++ (v ++ b)) = a ++ b := by
  have hleft : (v ++ b).takeWhile anySpace = [] := by
    cases v with
    | nil => exact absurd rfl hv
    | cons c cs => simp [hfirst c (by simp)]
  have hright : (v.reverse ++ a.reverse).takeWhile anySpace = [] := by
    cases hrev : v.reverse with
    | nil => exact absurd (List.reverse_eq_nil_iff.mp hrev) hv
    | cons c cs =>
      have hc : c ∈ v.getLast? := by simp [← List.head?_reverse, hrev]
      simp [hlast c hc]
  rw [ends, List.takeWhile_append_of_pos ha, hleft, List.append_nil, List.rtakeWhile,
    List.reverse_append, List.reverse_append, List.append_assoc,
    List.takeWhile_append_of_pos fun c hc => hb c (List.mem_reverse.mp hc), hright,
    List.append_nil, List.reverse_reverse]

/-- The two trims take off the same exactly when the white space at the ends is white
space in both languages. -/
theorem trim_eq_iff : jsTrim t = trimSpace t ↔ SpacesAlike (ends t) := by
  constructor
  · intro h
    obtain ⟨a, b, hgo, ha, hb⟩ := trimBy_split goSpace t
    obtain ⟨a', b', hjs, ha', hb'⟩ := trimBy_split jsSpace t
    rw [← trimSpace] at hgo
    rw [← jsTrim, h] at hjs
    by_cases hv : trimSpace t = []
    · have hboth : SpacesAlike t :=
        spacesAlike_of_both (trimBy_eq_nil.mp hv) (trimBy_eq_nil.mp (h.trans hv))
      intro c hc
      obtain hc | hc := List.mem_append.mp hc
      · exact hboth c ((List.takeWhile_prefix _).subset hc)
      · exact hboth c ((List.rtakeWhile_suffix _ _).subset hc)
    · have hfirst : ∀ c ∈ (trimSpace t).head?, anySpace c = false := by
        intro c hc
        have hc' : c ∈ (jsTrim t).head? := by rwa [h]
        exact anySpace_eq_false (head?_rdropWhile head?_dropWhile_not c hc)
          (head?_rdropWhile head?_dropWhile_not c hc')
      have hlast : ∀ c ∈ (trimSpace t).getLast?, anySpace c = false := by
        intro c hc
        have hc' : c ∈ (jsTrim t).getLast? := by rwa [h]
        exact anySpace_eq_false (getLast?_rdropWhile_not c hc) (getLast?_rdropWhile_not c hc')
      have hends : ends t = a ++ b := by
        conv_lhs => rw [hgo]
        exact ends_append (fun c hc => anySpace_of_goSpace (ha c hc))
          (fun c hc => anySpace_of_goSpace (hb c hc)) hv hfirst hlast
      have hends' : ends t = a' ++ b' := by
        conv_lhs => rw [hjs]
        exact ends_append (fun c hc => anySpace_of_jsSpace (ha' c hc))
          (fun c hc => anySpace_of_jsSpace (hb' c hc)) hv hfirst hlast
      apply spacesAlike_of_both
      · rw [hends]
        exact List.forall_mem_append.mpr ⟨ha, hb⟩
      · rw [hends']
        exact List.forall_mem_append.mpr ⟨ha', hb'⟩
  · intro h
    have hfirst : t.dropWhile jsSpace = t.dropWhile goSpace :=
      dropWhile_eq_of_run (fun _ => anySpace_of_jsSpace) (fun _ => anySpace_of_goSpace)
        fun c hc => jsSpace_eq_goSpace (h c (List.mem_append_left _ hc))
    have hprefix : (t.dropWhile goSpace).reverse <+: t.reverse :=
      List.reverse_prefix.mpr (List.dropWhile_suffix goSpace)
    rw [jsTrim, trimSpace, trimBy, trimBy, hfirst, List.rdropWhile, List.rdropWhile]
    congr 1
    refine dropWhile_eq_of_run (fun _ => anySpace_of_jsSpace) (fun _ => anySpace_of_goSpace) ?_
    intro c hc
    refine jsSpace_eq_goSpace (h c (List.mem_append_right _ (List.mem_reverse.mpr ?_)))
    obtain ⟨rest, hrest⟩ := hprefix
    rw [← hrest, List.takeWhile_append]
    split_ifs with hall
    · have heq := (List.takeWhile_prefix anySpace).eq_of_length hall
      rw [heq] at hc
      exact List.mem_append_left _ hc
    · exact hc

end Spaces

section Joins

variable {t cs before mark : Text} {c : Char}

def signHere (t : Text) : Bool := t.head?.any fun c => c == '/' || c == ';' || c == '+'

/-- The first sign or word of a join, after white space or not, and the text before it:
JavaScript's white space stands around a word. -/
def firstMark (spaced : Bool) : Text → Option (Text × Text)
  | [] => none
  | c :: cs =>
    if signHere (c :: cs) || (spaced && Browser.conjunction (c :: cs)) then some ([], c :: cs)
    else (firstMark (jsSpace c) cs).map fun p => (c :: p.1, p.2)

/-- The white space before the first mark is white space of Go's expression too, and so
is the character after a word. -/
def JoinsAlike (t : Text) : Prop :=
  ∀ before mark, firstMark false t = some (before, mark) →
    (∀ c ∈ before.rtakeWhile jsSpace, regexSpace c = true) ∧
      (signHere mark = true ∨ conjunction mark = true)

def named (t : Text) : Text :=
  match firstMark false t with
  | none => t
  | some (before, _) => before.rdropWhile jsSpace

theorem jsSpace_of_regexSpace (h : regexSpace c = true) : jsSpace c = true := by
  simp only [regexSpace, Bool.or_eq_true, beq_iff_eq] at h
  obtain (((rfl | rfl) | rfl) | rfl) | rfl := h <;> decide

theorem not_jsSpace_of_toLower (h : c.toLower = 'a') : jsSpace c = false := by
  obtain hsame | ⟨-, -, hcode⟩ := toLower_cases c
  · rw [← hsame, h]
    decide
  · have hupper : c.toNat = 'A'.toNat := by
      rw [h] at hcode
      exact Nat.add_right_cancel hcode.symm
    rw [← Char.ofNat_toNat c, hupper]
    decide

theorem not_jsSpace_of_mark (h : signHere (c :: cs) = true ∨ Browser.conjunction (c :: cs) = true) :
    jsSpace c = false := by
  obtain h | h := h
  · simp only [signHere, List.head?_cons, Option.any_some, Bool.or_eq_true, beq_iff_eq] at h
    obtain (rfl | rfl) | rfl := h <;> decide
  · unfold Browser.conjunction at h
    split at h
    · rename_i heq
      obtain rfl := (List.cons.inj heq).1
      decide
    · rename_i heq
      obtain rfl := (List.cons.inj heq).1
      simp only [Bool.and_eq_true, beq_iff_eq, List.map_cons] at h
      exact not_jsSpace_of_toLower (List.cons.inj h.1).1
    · cases h

theorem conjunction_browser (h : conjunction t = true) : Browser.conjunction t = true := by
  unfold conjunction at h
  split at h
  · exact jsSpace_of_regexSpace h
  · rename_i hne
    rw [Bool.and_eq_true] at h
    rw [Browser.conjunction]
    · rw [h.1, jsSpace_of_regexSpace h.2]
      rfl
    · exact hne
  · cases h

theorem browser_joinsHere_eq (t : Text) : Browser.joinsHere t =
    ((decide ((t.dropWhile jsSpace).length < t.length) && Browser.conjunction (t.dropWhile jsSpace)) ||
      signHere (t.dropWhile jsSpace)) := rfl

theorem firstMark_space (spaced : Bool) (hc : jsSpace c = true) :
    firstMark spaced (c :: cs) = (firstMark true cs).map fun p => (c :: p.1, p.2) := by
  have hsign : signHere (c :: cs) = false := by
    rw [Bool.eq_false_iff]
    exact fun h => absurd hc (by simp [not_jsSpace_of_mark (Or.inl h)])
  have hword : Browser.conjunction (c :: cs) = false := by
    rw [Bool.eq_false_iff]
    exact fun h => absurd hc (by simp [not_jsSpace_of_mark (Or.inr h)])
  rw [firstMark, hsign, hword, hc, Bool.and_false, Bool.false_or, if_neg (by decide)]

theorem firstMark_joins {spaced : Bool}
    (h : signHere (t.dropWhile jsSpace) = true ∨
      (spaced = true ∨ (t.dropWhile jsSpace).length < t.length) ∧
        Browser.conjunction (t.dropWhile jsSpace) = true) :
    firstMark spaced t = some (t.takeWhile jsSpace, t.dropWhile jsSpace) := by
  induction t generalizing spaced with
  | nil => simp [signHere, Browser.conjunction] at h
  | cons c cs ih =>
    cases hc : jsSpace c with
    | true =>
      rw [List.dropWhile_cons_of_pos hc] at h
      rw [firstMark_space spaced hc, ih (h.imp_right fun hword => ⟨Or.inl rfl, hword.2⟩),
        List.takeWhile_cons_of_pos hc, List.dropWhile_cons_of_pos hc]
      rfl
    | false =>
      rw [List.dropWhile_cons_of_neg (by simp [hc])] at h
      rw [List.takeWhile_cons_of_neg (by simp [hc]), List.dropWhile_cons_of_neg (by simp [hc]),
        firstMark, if_pos]
      obtain h | ⟨hspaced | hlt, hword⟩ := h
      · simp [h]
      · simp [hspaced, hword]
      · exact absurd hlt (lt_irrefl _)

theorem firstMark_of_joins (h : Browser.joinsHere t = true) :
    firstMark false t = some (t.takeWhile jsSpace, t.dropWhile jsSpace) := by
  rw [browser_joinsHere_eq, Bool.or_eq_true, Bool.and_eq_true, decide_eq_true_eq] at h
  exact firstMark_joins (h.symm.imp_right fun hword => ⟨Or.inr hword.1, hword.2⟩)

theorem joins_of_mark (hc : jsSpace c = true)
    (h : signHere (cs.dropWhile jsSpace) = true ∨ Browser.conjunction (cs.dropWhile jsSpace) = true) :
    Browser.joinsHere (c :: cs) = true := by
  have hlength : (cs.dropWhile jsSpace).length < (c :: cs).length :=
    Nat.lt_succ_of_le (List.dropWhile_suffix _).length_le
  rw [browser_joinsHere_eq, List.dropWhile_cons_of_pos hc, Bool.or_eq_true, Bool.and_eq_true,
    decide_eq_true_eq]
  exact h.symm.imp_left fun hword => ⟨hlength, hword⟩

theorem firstMark_cons (h : Browser.joinsHere (c :: cs) = false) :
    firstMark false (c :: cs) = (firstMark false cs).map fun p => (c :: p.1, p.2) := by
  cases hc : jsSpace c with
  | false =>
    have hsign : signHere (c :: cs) = false := by
      rw [browser_joinsHere_eq, List.dropWhile_cons_of_neg (by simp [hc]), Bool.or_eq_false_iff] at h
      exact h.2
    rw [firstMark, hsign, hc, Bool.false_and, Bool.or_self, if_neg (by decide)]
  | true =>
    have hnone : ¬(signHere (cs.dropWhile jsSpace) = true ∨
        Browser.conjunction (cs.dropWhile jsSpace) = true) := by
      intro hmark
      rw [joins_of_mark hc hmark] at h
      cases h
    have hspaced : firstMark true cs = firstMark false cs := by
      cases cs with
      | nil => rfl
      | cons d ds =>
        cases hd : jsSpace d with
        | true => rw [firstMark_space true hd, firstMark_space false hd]
        | false =>
          rw [List.dropWhile_cons_of_neg (by simp [hd]), not_or, Bool.not_eq_true,
            Bool.not_eq_true] at hnone
          rw [firstMark, firstMark, hnone.1, hnone.2, Bool.and_false, Bool.and_false]
    rw [firstMark_space false hc, hspaced]

theorem firstMark_eq_some {spaced : Bool} (h : firstMark spaced t = some (before, mark)) :
    t = before ++ mark ∧ (signHere mark = true ∨ Browser.conjunction mark = true) := by
  induction t generalizing spaced before with
  | nil => cases h
  | cons c cs ih =>
    rw [firstMark] at h
    split_ifs at h with hmark
    · obtain ⟨rfl, rfl⟩ := Prod.mk.inj (Option.some.inj h)
      rw [Bool.or_eq_true, Bool.and_eq_true] at hmark
      exact ⟨rfl, hmark.imp_right And.right⟩
    · obtain ⟨p, hp, h⟩ := Option.map_eq_some_iff.mp h
      obtain ⟨rfl, rfl⟩ := Prod.mk.inj h
      obtain ⟨rfl, hfound⟩ := ih hp
      exact ⟨rfl, hfound⟩

theorem not_all_space (h : Browser.joinsHere (c :: cs) = false)
    (hmark : firstMark false cs = some (before, mark)) : ¬ ∀ d ∈ c :: before, jsSpace d = true := by
  intro hall
  obtain ⟨rfl, hm⟩ := firstMark_eq_some hmark
  have hdrop : (before ++ mark).dropWhile jsSpace = mark := by
    rw [List.dropWhile_append_of_pos fun d hd => hall d (by simp [hd])]
    cases mark with
    | nil => rfl
    | cons d ds => exact List.dropWhile_cons_of_neg (by simp [not_jsSpace_of_mark hm])
  rw [joins_of_mark (hall c (by simp)) (by rwa [hdrop])] at h
  cases h

theorem rdropWhile_cons {α : Type} {p : α → Bool} {c : α} {cs : List α}
    (h : ¬ ∀ d ∈ c :: cs, p d = true) : (c :: cs).rdropWhile p = c :: cs.rdropWhile p := by
  rw [List.rdropWhile, List.reverse_cons, List.dropWhile_append]
  split_ifs with hall
  · have hcs : ∀ d ∈ cs, p d = true := by simpa using hall
    have hc : ¬ p c = true := fun hc => h (List.forall_mem_cons.mpr ⟨hc, hcs⟩)
    rw [List.rdropWhile_eq_nil_iff.mpr hcs, List.dropWhile_cons_of_neg hc]
    rfl
  · simp [List.rdropWhile]

theorem rtakeWhile_cons {p : Char → Bool} (h : ¬ ∀ d ∈ c :: cs, p d = true) :
    (c :: cs).rtakeWhile p = cs.rtakeWhile p := by
  have hsplit : (c :: cs).rdropWhile p ++ (c :: cs).rtakeWhile p = c :: cs :=
    List.rdropWhile_append_rtakeWhile
  rw [rdropWhile_cons h, List.cons_append] at hsplit
  have hrest : cs.rdropWhile p ++ cs.rtakeWhile p = cs := List.rdropWhile_append_rtakeWhile
  exact List.append_cancel_left ((List.cons.inj hsplit).2.trans hrest.symm)

theorem firstComposer_named (t : Text) : Browser.firstComposer t = named t := by
  induction t with
  | nil => rfl
  | cons c cs ih =>
    rw [Browser.firstComposer]
    cases hjoin : Browser.joinsHere (c :: cs) with
    | true =>
      rw [named, firstMark_of_joins hjoin]
      exact (List.rdropWhile_eq_nil_iff.mpr fun d hd => List.mem_takeWhile_imp hd).symm
    | false =>
      rw [if_neg (by decide), ih, named, named, firstMark_cons hjoin]
      cases hmark : firstMark false cs with
      | none => rfl
      | some p => exact (rdropWhile_cons (not_all_space hjoin hmark)).symm

theorem span_append {p : Char → Bool} {a b : Text} (ha : ∀ d ∈ a, p d = true)
    (hb : ∀ d ∈ b.head?, p d = false) : (a ++ b).takeWhile p = a ∧ (a ++ b).dropWhile p = b := by
  rw [List.takeWhile_append_of_pos ha, List.dropWhile_append_of_pos ha]
  cases b with
  | nil => simp
  | cons d ds =>
    have hd : ¬ p d = true := by simp [hb d (by simp)]
    simp [List.takeWhile_cons_of_neg hd, List.dropWhile_cons_of_neg hd]

theorem span_of_joins (h : joinsHere t = true) : t.takeWhile jsSpace = t.takeWhile regexSpace ∧
    t.dropWhile jsSpace = t.dropWhile regexSpace ∧
      (signHere (t.dropWhile regexSpace) = true ∨ conjunction (t.dropWhile regexSpace) = true) := by
  have hmark : signHere (t.dropWhile regexSpace) = true ∨
      conjunction (t.dropWhile regexSpace) = true := by
    rw [joinsHere, Bool.or_eq_true, Bool.and_eq_true] at h
    exact h.symm.imp_right And.right
  have hhead : ∀ d ∈ (t.dropWhile regexSpace).head?, jsSpace d = false := by
    intro d hd
    cases hrest : t.dropWhile regexSpace with
    | nil => simp [hrest] at hd
    | cons e es =>
      rw [hrest] at hmark hd
      obtain rfl : e = d := by simpa using hd
      exact not_jsSpace_of_mark (hmark.imp_right conjunction_browser)
  have hspan := span_append (p := jsSpace) (a := t.takeWhile regexSpace)
    (fun d hd => jsSpace_of_regexSpace (List.mem_takeWhile_imp hd)) hhead
  rw [List.takeWhile_append_dropWhile] at hspan
  exact ⟨hspan.1, hspan.2, hmark⟩

theorem browser_joinsHere (h : joinsHere t = true) : Browser.joinsHere t = true := by
  obtain ⟨-, hdrop, hmark⟩ := span_of_joins h
  rw [joinsHere, Bool.or_eq_true, Bool.and_eq_true] at h
  rw [browser_joinsHere_eq, hdrop, Bool.or_eq_true, Bool.and_eq_true]
  exact h.imp_left (And.imp_right conjunction_browser)

theorem joinsHere_iff (h : Browser.joinsHere t = true) : joinsHere t = true ↔
    (∀ c ∈ t.takeWhile jsSpace, regexSpace c = true) ∧
      (signHere (t.dropWhile jsSpace) = true ∨ conjunction (t.dropWhile jsSpace) = true) := by
  constructor
  · intro hgo
    obtain ⟨htake, hdrop, hmark⟩ := span_of_joins hgo
    rw [htake, hdrop]
    exact ⟨fun c hc => List.mem_takeWhile_imp hc, hmark⟩
  · intro hgo
    obtain ⟨hgap, hmark⟩ := hgo
    have hhead : ∀ d ∈ (t.dropWhile jsSpace).head?, regexSpace d = false := by
      intro d hd
      rw [Bool.eq_false_iff]
      intro hspace
      exact absurd (head?_dropWhile_not d hd) (by simp [jsSpace_of_regexSpace hspace])
    have hspan := (span_append hgap hhead).2
    rw [List.takeWhile_append_dropWhile] at hspan
    rw [browser_joinsHere_eq, Bool.or_eq_true, Bool.and_eq_true] at h
    rw [joinsHere, hspan, Bool.or_eq_true, Bool.and_eq_true]
    obtain hsign | hword := hmark
    · exact Or.inr hsign
    · exact h.imp_left fun hjs => ⟨hjs.1, hword⟩

/-- The two expressions end the first name at the same place exactly when the first mark
is one for both. -/
theorem firstComposer_eq_iff : Browser.firstComposer t = firstComposer t ↔ JoinsAlike t := by
  induction t with
  | nil => exact iff_of_true rfl fun before mark h => by cases h
  | cons c cs ih =>
    rw [Browser.firstComposer, firstComposer]
    cases hjs : Browser.joinsHere (c :: cs) with
    | true =>
      have hgap : ((c :: cs).takeWhile jsSpace).rtakeWhile jsSpace = (c :: cs).takeWhile jsSpace :=
        (List.rtakeWhile_eq_self_iff).mpr fun d hd => List.mem_takeWhile_imp hd
      have halike : JoinsAlike (c :: cs) ↔ joinsHere (c :: cs) = true := by
        rw [joinsHere_iff hjs, JoinsAlike, firstMark_of_joins hjs]
        constructor
        · intro h
          have hfound := h _ _ rfl
          rwa [hgap] at hfound
        · intro h before mark hmark
          obtain ⟨rfl, rfl⟩ := Prod.mk.inj (Option.some.inj hmark)
          rwa [hgap]
      rw [halike, if_pos rfl]
      cases joinsHere (c :: cs) <;> simp
    | false =>
      have hgo : joinsHere (c :: cs) = false := by
        rw [Bool.eq_false_iff]
        intro h
        rw [browser_joinsHere h] at hjs
        cases hjs
      rw [hgo, if_neg (by decide), if_neg (by decide), List.cons_inj_right, ih, JoinsAlike,
        JoinsAlike, firstMark_cons hjs]
      constructor
      · intro h before mark hmark
        obtain ⟨p, hp, heq⟩ := Option.map_eq_some_iff.mp hmark
        obtain ⟨rfl, rfl⟩ := Prod.mk.inj heq
        rw [rtakeWhile_cons (not_all_space hjs hp)]
        exact h _ _ hp
      · intro h before mark hmark
        have hfound := h (c :: before) mark (by rw [hmark]; rfl)
        rwa [rtakeWhile_cons (not_all_space hjs hmark)] at hfound

end Joins

section Agreement

variable {U : UnicodeTables} {name word composer : Text}

section Suffixes

theorem toLowerFrom_eq_map {before : Text} (hsigma : 'Σ' ∉ word) (hdotted : dottedI ∉ word) :
    Browser.toLowerFrom U before word = word.map U.lower := by
  induction word generalizing before with
  | nil => rfl
  | cons c cs ih =>
    rw [List.mem_cons, not_or] at hsigma hdotted
    rw [Browser.toLowerFrom, if_neg (Ne.symm hsigma.1), if_neg (Ne.symm hdotted.1),
      ih hsigma.2 hdotted.2]
    rfl

theorem mem_toLowerFrom_of_dottedI {before : Text} (h : dottedI ∈ word) :
    combiningDot ∈ Browser.toLowerFrom U before word := by
  induction word generalizing before with
  | nil => cases h
  | cons c cs ih =>
    rw [Browser.toLowerFrom, List.mem_append]
    obtain rfl | h := List.mem_cons.mp h
    · left
      rw [if_neg (by decide), if_pos rfl]
      simp
    · exact Or.inr (ih h)

theorem mem_toLowerFrom_of_sigma (before : Text) (h : 'Σ' ∈ word) :
    'ς' ∈ Browser.toLowerFrom U before word ∨ 'σ' ∈ Browser.toLowerFrom U before word := by
  induction word generalizing before with
  | nil => cases h
  | cons c cs ih =>
    rw [Browser.toLowerFrom, List.mem_append, List.mem_append]
    obtain rfl | h := List.mem_cons.mp h
    · rw [if_pos rfl]
      split_ifs <;> simp
    · obtain h | h := ih (c :: before) h
      · exact Or.inl (Or.inr h)
      · exact Or.inr (Or.inr h)

theorem plain_of_mem_composerSuffixes :
    ∀ suffix ∈ composerSuffixes, combiningDot ∉ suffix ∧ 'ς' ∉ suffix ∧ 'σ' ∉ suffix := by
  decide

/-- The two suffix tests agree but for a suffix that is spelled with U+0130. -/
theorem isComposerSuffix_eq (h : isComposerSuffix U word = true → dottedI ∉ word) :
    Browser.isComposerSuffix U word = isComposerSuffix U word := by
  have hsub : ∀ p : Char → Bool, ∀ c ∈ trimBy p word, c ∈ word := by
    intro p c hc
    exact (List.dropWhile_sublist p).subset ((List.rdropWhile_prefix p _).subset hc)
  rw [Bool.eq_iff_iff]
  unfold Browser.isComposerSuffix isComposerSuffix at *
  rw [List.contains_iff_mem, List.contains_iff_mem] at *
  constructor
  · intro hmem
    obtain ⟨hdot, hfinal, hsigma⟩ := plain_of_mem_composerSuffixes _ hmem
    rw [Browser.toLowerCase, toLowerFrom_eq_map] at hmem
    · exact hmem
    · intro h
      obtain h | h := mem_toLowerFrom_of_sigma (U := U) [] h
      · exact hfinal h
      · exact hsigma h
    · intro h
      exact hdot (mem_toLowerFrom_of_dottedI h)
  · intro hmem
    obtain ⟨-, -, hsigma⟩ := plain_of_mem_composerSuffixes _ hmem
    rw [Browser.toLowerCase, toLowerFrom_eq_map]
    · exact hmem
    · intro h
      exact hsigma (List.mem_map.mpr ⟨'Σ', h, U.lower_sigma⟩)
    · intro hdotted
      exact h hmem (hsub _ _ hdotted)

theorem rdropWhile_congr {p q : Text → Bool} {words : List Text}
    (hrun : ∀ w ∈ words.rtakeWhile p, q w = true) (hrest : ∀ w ∈ words, p w = false → q w = false) :
    words.rdropWhile q = words.rdropWhile p := by
  induction words using List.reverseRecOn with
  | nil => rfl
  | append_singleton words word ih =>
    cases hword : p word with
    | true =>
      rw [List.rtakeWhile_concat_pos _ _ _ hword] at hrun
      rw [List.rdropWhile_concat_pos _ _ _ hword,
        List.rdropWhile_concat_pos _ _ _ (hrun word (by simp))]
      exact ih (fun w hw => hrun w (by simp [hw])) fun w hw => hrest w (by simp [hw])
    | false =>
      have hother := hrest word (by simp) hword
      rw [List.rdropWhile_concat_neg _ _ _ (Bool.eq_false_iff.mp hword),
        List.rdropWhile_concat_neg _ _ _ (Bool.eq_false_iff.mp hother)]

theorem rdropWhile_suffixes {words : List Text}
    (h : ∀ w ∈ words.rtakeWhile (isComposerSuffix U), dottedI ∉ w) :
    words.rdropWhile (Browser.isComposerSuffix U) = words.rdropWhile (isComposerSuffix U) := by
  apply rdropWhile_congr
  · intro w hw
    have hsuffix := List.mem_rtakeWhile_imp hw
    rw [isComposerSuffix_eq fun _ => h w hw, hsuffix]
  · intro w _ hw
    rw [isComposerSuffix_eq fun hsuffix => absurd hsuffix (by simp [hw]), hw]

end Suffixes

section Names

/-- Where the word that files a name is read alike. In the whole name, or from some white
space on with a word behind it that is no suffix, there is neither of the characters that
are white space in one language only; and no suffix taken off at the end is spelled with
U+0130, whose lower case is i for Go and two characters for JavaScript. -/
inductive WordsAlike (U : UnicodeTables) (name : Text) : Prop
  | whole (hspaces : SpacesAlike name)
      (hsuffixes : ∀ w ∈ (fields name).tail.rtakeWhile (isComposerSuffix U), dottedI ∉ w)
  | part (before rest : Text) (c : Char) (hname : name = before ++ c :: rest)
      (hspace : sharedSpace c = true) (hspaces : SpacesAlike rest)
      (hword : ∃ w ∈ fields rest, isComposerSuffix U w = false)
      (hsuffixes : ∀ w ∈ (fields rest).rtakeWhile (isComposerSuffix U), dottedI ∉ w)

/-- What is read of a name is read alike: the text after its comma, and the words before it
or of the whole name. -/
def NameAlike (U : UnicodeTables) (name : Text) : Prop :=
  match cutComma name with
  | none => WordsAlike U name
  | some (head, tail) =>
    if isComposerSuffix U tail then dottedI ∉ tail ∧ WordsAlike U head
    else SpacesAlike head ∧ (fields head = [] → WordsAlike U name)

/-- The text without its asides, trimmed, up to its first join: the trims, the join and the
words read no character that the languages take differently. -/
structure ReadAlike (U : UnicodeTables) (composer : Text) : Prop where
  ends : SpacesAlike (ends (replaceAsides 0 composer))
  joins : JoinsAlike (trimSpace (replaceAsides 0 composer))
  name : NameAlike U (named (trimSpace (replaceAsides 0 composer)))

theorem getLast?_cons_or (w : Text) (ws : List Text) :
    (w :: ws).getLast? = ws.getLast?.or (some w) := by
  rw [List.getLast?_cons]
  cases ws.getLast? <;> rfl

theorem getLast?_dropSuffixes (words : List Text) : (dropSuffixes U words).getLast? =
    (words.tail.rdropWhile (isComposerSuffix U)).getLast?.or words.head? := by
  cases words with
  | nil => rfl
  | cons w ws => exact getLast?_cons_or w _

theorem getLast?_browser_dropSuffixes (words : List Text) :
    (Browser.dropSuffixes U words).getLast? =
      (words.tail.rdropWhile (Browser.isComposerSuffix U)).getLast?.or words.head? := by
  cases words with
  | nil => rfl
  | cons w ws => exact getLast?_cons_or w _

theorem rdropWhile_append {p : Text → Bool} {before rest : List Text}
    (h : ¬ ∀ w ∈ rest, p w = true) : (before ++ rest).rdropWhile p = before ++ rest.rdropWhile p := by
  induction before with
  | nil => rfl
  | cons w ws ih =>
    rw [List.cons_append, rdropWhile_cons fun hall => h fun v hv => hall v (by simp [hv]), ih]
    rfl

theorem getLast?_rdropWhile_append {p : Text → Bool} {before rest : List Text}
    (h : ¬ ∀ w ∈ rest, p w = true) :
    ((before ++ rest).tail.rdropWhile p).getLast?.or (before ++ rest).head? =
      (rest.rdropWhile p).getLast? := by
  have hne : rest.rdropWhile p ≠ [] := fun hnil => h (List.rdropWhile_eq_nil_iff.mp hnil)
  cases before with
  | nil =>
    cases rest with
    | nil => exact absurd rfl hne
    | cons w ws => rw [rdropWhile_cons h, getLast?_cons_or]; rfl
  | cons w ws =>
    rw [List.cons_append, List.tail_cons, rdropWhile_append h, List.getLast?_append_of_ne_nil _ hne,
      List.getLast?_eq_some_getLast hne, Option.some_or]

theorem surnameOf_congr (h : (Browser.dropSuffixes U (Browser.words name)).getLast? =
    (dropSuffixes U (fields name)).getLast?) : Browser.surnameOf U name = surnameOf U name := by
  cases hlast : (dropSuffixes U (fields name)).getLast? with
  | none => simp only [Browser.surnameOf, surnameOf, h, hlast]
  | some word => simp only [Browser.surnameOf, surnameOf, h, hlast]

theorem surnameOf_eq (h : WordsAlike U name) : Browser.surnameOf U name = surnameOf U name := by
  apply surnameOf_congr
  rw [getLast?_browser_dropSuffixes, getLast?_dropSuffixes]
  cases h with
  | whole hspaces hsuffixes => rw [words_eq_fields hspaces, rdropWhile_suffixes hsuffixes]
  | part before rest c hname hspace hspaces hword hsuffixes =>
    obtain ⟨w, hw, hstays⟩ := hword
    have hgo : fields name = fields before ++ fields rest := by
      rw [hname]
      exact tokens_append_cons before rest (by simp [goSpace, hspace])
    have hjs : Browser.words name = Browser.words before ++ fields rest := by
      rw [hname, ← words_eq_fields hspaces]
      exact tokens_append_cons before rest (by simp [jsSpace, hspace])
    have hother : Browser.isComposerSuffix U w = false := by
      rw [isComposerSuffix_eq fun hsuffix => absurd hsuffix (by simp [hstays]), hstays]
    rw [hgo, hjs, getLast?_rdropWhile_append fun hall => absurd (hall w hw) (by simp [hother]),
      getLast?_rdropWhile_append fun hall => absurd (hall w hw) (by simp [hstays]),
      rdropWhile_suffixes hsuffixes]

end Names

/-- The two surnames are equal where the two sides read the name alike. -/
theorem composerSurname_eq (h : ReadAlike U composer) :
    Browser.composerSurname U composer = composerSurname U composer := by
  obtain ⟨hends, hjoins, hname⟩ := h
  unfold Browser.composerSurname composerSurname
  rw [trim_eq_iff.mpr hends, ← firstComposer_eq_iff.mpr hjoins, firstComposer_named]
  generalize named (trimSpace (replaceAsides 0 composer)) = name at hname
  unfold NameAlike at hname
  cases hcut : cutComma name with
  | none =>
    simp only [hcut] at hname ⊢
    exact surnameOf_eq hname
  | some parts =>
    obtain ⟨head, tail⟩ := parts
    simp only [hcut] at hname ⊢
    cases hsuffix : isComposerSuffix U tail with
    | true =>
      rw [hsuffix, if_pos rfl] at hname
      rw [isComposerSuffix_eq fun _ => hname.1, hsuffix, if_pos rfl, if_pos rfl]
      exact surnameOf_eq hname.2
    | false =>
      rw [hsuffix, if_neg (by decide)] at hname
      have htail : Browser.isComposerSuffix U tail = false := by
        rw [isComposerSuffix_eq fun h => absurd h (by simp [hsuffix]), hsuffix]
      simp only [htail, Bool.false_eq_true, if_false, words_eq_fields hname.1]
      split_ifs with hblank
      · exact surnameOf_eq (hname.2 hblank)
      · rfl

/-- With a no-break space before the ampersand only the browser splits the names. -/
def spacedComposer : Text := "Rodgers".toList ++ Char.ofNat 0xA0 :: "& Hammerstein".toList

theorem not_composerSurname_same :
    ¬ ∀ (U : UnicodeTables) (composer : Text),
      Browser.composerSurname U composer = composerSurname U composer := by
  intro hall
  exact absurd (hall basicTables spacedComposer) (by decide +kernel)

theorem composerSurname_eq_connick :
    Browser.composerSurname basicTables "Harry Connick, Jr. (arr. Liszt)".toList =
      "Connick".toList := by
  have hread : ReadAlike basicTables "Harry Connick, Jr. (arr. Liszt)".toList := by
    refine ⟨by decide +kernel, ?_, ?_⟩
    · have hmark : firstMark false (trimSpace (replaceAsides 0
          "Harry Connick, Jr. (arr. Liszt)".toList)) = none := by decide +kernel
      intro before mark h
      rw [hmark] at h
      cases h
    · have hcut : cutComma (named (trimSpace (replaceAsides 0
          "Harry Connick, Jr. (arr. Liszt)".toList))) =
            some ("Harry Connick".toList, " Jr.".toList) := by decide +kernel
      have hsuffix : isComposerSuffix basicTables " Jr.".toList = true := by decide +kernel
      simp only [NameAlike, hcut, hsuffix, if_true]
      exact ⟨by decide, .whole (by decide +kernel) (by decide +kernel)⟩
  rw [composerSurname_eq hread]
  decide +kernel

end Agreement

end Noted
