import Noted.Composer
import Noted.Library.Separators
import Noted.Search.Queries

/-!
# Where a composer is filed (internal/app/composer_sort.go, composers.go)

`composerSurname` groups the pieces and `composerSortKey` sorts them. The two read the
name of the first composer in a different order: the surname trims the text and then
ends it at the first join, the key ends it and then trims. Where they read the same
words, the words of the surname begin the key, and the key is empty with the surname
unless the word that files the piece has no letter or number and another word has.
-/

namespace Noted

open Library.Words Search

section Fold

variable (U : UnicodeTables)

/-- White space is a starter: NFKD reads its two sides apart, and writes other white
space for it. -/
def SpaceApart : Prop :=
  ∀ c, goSpace c = true → ∃ spaces : Text, spaces ≠ [] ∧
    (∀ d ∈ spaces, goSpace d = true ∧ U.lower d = d) ∧
      ∀ a b, U.nfkd (a ++ c :: b) = U.nfkd a ++ (spaces ++ U.nfkd b)

theorem replaceNumberSigns_append {c : Char} (hc : c ∉ "nN°º".toList) (a b : Text) :
    Browser.replaceNumberSigns (a ++ c :: b) =
      Browser.replaceNumberSigns a ++ c :: Browser.replaceNumberSigns b := by
  simp at hc
  have hfirst : ∀ b, Browser.replaceNumberSigns (c :: b) = c :: Browser.replaceNumberSigns b := by
    intro b
    cases b <;> simp [Browser.replaceNumberSigns, hc]
  fun_induction Browser.replaceNumberSigns a with
  | case1 => simpa using hfirst b
  | case2 d => simp [Browser.replaceNumberSigns, hc, hfirst]
  | case3 d e ds h ih => simp [Browser.replaceNumberSigns, h, ih]
  | case4 d e ds h ih => simpa [Browser.replaceNumberSigns, h] using ih

theorem foldWords_breaks {c : Char} (seps : Text) (hc : c ∉ "nN°º".toList) (hne : seps ≠ [])
    (hseps : ∀ d ∈ seps, separator U d = true ∧ U.isMark d = false ∧
      replaceChar foldLeftovers (U.lower d) = [d])
    (hnfkd : ∀ a b, U.nfkd (a ++ c :: b) = U.nfkd a ++ (seps ++ U.nfkd b)) :
    Breaks (foldWords U) c := by
  intro a b
  have hkeep : (seps.map U.lower).flatMap (replaceChar foldLeftovers) = seps := by
    rw [List.flatMap_map]
    conv_rhs => rw [← List.flatMap_singleton' seps]
    exact List.flatMap_congr fun d hd => (hseps d hd).2.2
  have hnormal : normalizedSearch U (a ++ c :: b) =
      normalizedSearch U a ++ (seps ++ normalizedSearch U b) := by
    simp only [normalizedSearch, numberSigns_eq, replaceNumberSigns_append hc, hnfkd,
      newReplacer_singletons (by decide : ∀ p ∈ foldLeftovers, p.1.length = 1), List.map_append,
      List.flatMap_append, hkeep]
  have hunmarked : unmarked U (a ++ c :: b) = unmarked U a ++ (seps ++ unmarked U b) := by
    have hall : seps.filter (fun d => !U.isMark d) = seps := by
      rw [List.filter_eq_self]
      intro d hd
      simp [(hseps d hd).2.1]
    rw [unmarked, hnormal, List.filter_append, List.filter_append, hall, unmarked, unmarked]
  rw [foldWords, hunmarked, tokens_append_separators hne fun d hd => (hseps d hd).1, foldWords,
    foldWords]

theorem foldWords_breaks_ascii {c : Char} (hc : isASCII c = true) (halnum : c.isAlphanum = false)
    (hlower : c.toLower = c) (hsharp : c ≠ '#') : Breaks (foldWords U) c := by
  apply foldWords_breaks U [c]
  · intro hmem
    fin_cases hmem <;> revert hc halnum <;> decide
  · exact List.cons_ne_nil c []
  · intro d hd
    rw [List.mem_singleton] at hd
    subst hd
    refine ⟨by simp [separator, U.isWordRune_ascii hc, halnum], U.mark_ascii d hc, ?_⟩
    rw [U.lower_ascii d hc, hlower, replaceChar_leftovers, leftover_ascii hc hsharp]
  · exact fun a b => U.nfkd_inert a c b (by simp [inert, hc])

theorem foldWords_nil : foldWords U [] = [] := by
  simp [foldWords, unmarked, normalizedSearch, newReplacer, replaceFrom, U.nfkd_nil]

theorem foldWords_breaks_space (h : SpaceApart U) {c : Char} (hc : goSpace c = true) :
    Breaks (foldWords U) c := by
  obtain ⟨spaces, hne, hspaces, hnfkd⟩ := h c hc
  have hkept : ∀ d, goSpace d = true → replaceChar foldLeftovers d = [d] := by
    intro d hd
    have hnone : foldLeftovers.find? (fun p => p.1 == [d]) = none := by
      rw [List.find?_eq_none]
      intro p hp heq
      have hall : foldLeftovers.all (fun p => p.1.all fun e => !goSpace e) = true := by decide
      have hkey := List.all_eq_true.mp (List.all_eq_true.mp hall p hp) d (by
        rw [beq_iff_eq.mp heq]
        simp)
      rw [hd] at hkey
      cases hkey
    rw [replaceChar, hnone]
    rfl
  apply foldWords_breaks U spaces _ hne _ hnfkd
  · intro hmem
    fin_cases hmem <;> revert hc <;> decide
  · intro d hd
    obtain ⟨hspace, hlower⟩ := hspaces d hd
    refine ⟨?_, ?_, by rw [hlower, hkept d hspace]⟩
    · rw [separator, Bool.not_eq_true', Bool.eq_false_iff]
      intro hword
      exact absurd (hspace.symm.trans (U.isWordRune_not_space hword).1) (by decide)
    · rw [Bool.eq_false_iff]
      intro hmark
      exact absurd (hspace.symm.trans (U.mark_not_space d hmark).1) (by decide)

theorem foldWords_space (a b : Text) :
    foldWords U (a ++ ' ' :: b) = foldWords U a ++ foldWords U b :=
  foldWords_breaks_ascii U (by decide) (by decide) (by decide) (by decide) a b

theorem foldWords_joinWords (words : List Text) :
    foldWords U (joinWords words) = words.flatMap (foldWords U) := by
  induction words with
  | nil => exact foldWords_nil U
  | cons w ws ih =>
    cases ws with
    | nil => rw [List.flatMap_cons, List.flatMap_nil, List.append_nil]; simp [joinWords]
    | cons v vs =>
      have hjoin : joinWords (w :: v :: vs) = w ++ ' ' :: joinWords (v :: vs) := by
        simp [joinWords, List.intercalate_cons_cons]
      rw [hjoin, foldWords_space, ih]
      rfl

theorem foldWords_fields (h : SpaceApart U) (text : Text) :
    (fields text).flatMap (foldWords U) = foldWords U text :=
  Breaks.flatMap_tokens (foldWords_nil U) (fun _ hc => foldWords_breaks_space U h hc) text

theorem foldWords_trimmed (word : Text) :
    foldWords U (trimBy (fun c => c == '.' || c == ',') word) = foldWords U word := by
  have hbreaks : ∀ c : Char, (c == '.' || c == ',') = true → Breaks (foldWords U) c := by
    intro c hc
    rw [Bool.or_eq_true, beq_iff_eq, beq_iff_eq] at hc
    obtain rfl | rfl := hc
    · exact foldWords_breaks_ascii U (by decide) (by decide) (by decide) (by decide)
    · exact foldWords_breaks_ascii U (by decide) (by decide) (by decide) (by decide)
  rw [trimBy, Breaks.rdropWhile (foldWords_nil U) hbreaks,
    Breaks.dropWhile (foldWords_nil U) hbreaks]

theorem fields_foldSearch (text : Text) : fields (foldSearch U text) = foldWords U text := by
  rw [foldSearch_eq, fields_joinWords U fun w hw => isWord_of_mem_foldWords U hw]

theorem fields_trimSpace (text : Text) : fields (trimSpace text) = fields text := by
  have hbreaks : ∀ c : Char, goSpace c = true → Breaks fields c := fun _ hc => tokens_breaks hc
  have hnil : fields [] = [] := tokens_nil
  rw [trimSpace, trimBy, Breaks.rdropWhile hnil hbreaks, Breaks.dropWhile hnil hbreaks]

end Fold

section Names

/-- The text names one composer: no aside starts in it and no join. -/
def OneName (name : Text) : Prop :=
  ∀ part, part <:+: name → asideLength part = none ∧ joinsHere part = false

theorem OneName.part {name part : Text} (h : OneName name) (hpart : part <:+: name) :
    OneName part :=
  fun p hp => h p (hp.trans hpart)

theorem asideLength_mono {c : Char} {cs ds : Text} (h : asideLength (c :: cs) = none)
    (hsub : ∀ d ∈ ds, d = ' ' ∨ d ∈ cs) : asideLength (c :: ds) = none := by
  have hclose : ∀ close : Char, close ≠ ' ' → cs.contains close = false →
      ds.contains close = false := by
    intro close hspace hnot
    rw [← Bool.not_eq_true, List.contains_iff_mem] at hnot ⊢
    intro hmem
    exact (hsub close hmem).elim hspace hnot
  unfold asideLength at h ⊢
  split
  · next heq =>
    obtain ⟨rfl, rfl⟩ := List.cons.inj heq
    have hnot : cs.contains ')' = false := by simpa using h
    rw [hclose ')' (by decide) hnot]
    rfl
  · next heq =>
    obtain ⟨rfl, rfl⟩ := List.cons.inj heq
    have hnot : cs.contains ']' = false := by simpa using h
    rw [hclose ']' (by decide) hnot]
    rfl
  · rfl

theorem mem_replaceAsides {n : Nat} {t : Text} {d : Char} (h : d ∈ replaceAsides n t) :
    d = ' ' ∨ d ∈ t := by
  fun_induction replaceAsides n t with
  | case1 => cases h
  | case2 skip c cs ih => exact (ih h).imp id (List.mem_cons_of_mem c)
  | case3 c cs n haside ih =>
    obtain h | h := List.mem_cons.mp h
    · exact Or.inl h
    · exact (ih h).imp id (List.mem_cons_of_mem c)
  | case4 c cs haside ih =>
    obtain rfl | h := List.mem_cons.mp h
    · exact Or.inr (by simp)
    · exact (ih h).imp id (List.mem_cons_of_mem c)

theorem asideLength_replaceAsides {n : Nat} {t part : Text} (h : part <:+ replaceAsides n t) :
    asideLength part = none := by
  fun_induction replaceAsides n t with
  | case1 =>
    rw [List.suffix_nil.mp h]
    rfl
  | case2 skip c cs ih => exact ih h
  | case3 c cs n haside ih =>
    obtain rfl | h := List.suffix_cons_iff.mp h
    · rfl
    · exact ih h
  | case4 c cs haside ih =>
    obtain rfl | h := List.suffix_cons_iff.mp h
    · exact asideLength_mono haside fun d hd => mem_replaceAsides hd
    · exact ih h

theorem conjunction_append {t : Text} (h : conjunction t = true) (more : Text) :
    conjunction (t ++ more) = true := by
  unfold conjunction at h
  split at h
  · exact h
  · next a n d c rest hne =>
    rw [List.cons_append, List.cons_append, List.cons_append, List.cons_append, conjunction]
    · exact h
    · exact hne
  · cases h

theorem joinsHere_append {t : Text} (h : joinsHere t = true) (more : Text) :
    joinsHere (t ++ more) = true := by
  by_cases hspace : t.dropWhile regexSpace = []
  · rw [joinsHere, hspace] at h
    simp [conjunction] at h
  · have hdrop : (t ++ more).dropWhile regexSpace = t.dropWhile regexSpace ++ more := by
      rw [List.dropWhile_append, if_neg]
      simpa using hspace
    have hhead : (t.dropWhile regexSpace ++ more).head? = (t.dropWhile regexSpace).head? :=
      List.head?_append_of_ne_nil _ hspace
    simp only [joinsHere, Bool.or_eq_true, Bool.and_eq_true, decide_eq_true_iff] at h ⊢
    rw [hdrop, hhead, List.length_append, List.length_append]
    obtain ⟨hlength, hconj⟩ | hsign := h
    · exact Or.inl ⟨by omega, conjunction_append hconj more⟩
    · exact Or.inr hsign

theorem prefix_firstComposer (t : Text) : firstComposer t <+: t := by
  induction t with
  | nil => exact List.prefix_rfl
  | cons c cs ih =>
    rw [firstComposer]
    split_ifs
    · exact List.nil_prefix
    · exact List.cons_prefix_cons.mpr ⟨rfl, ih⟩

theorem not_joinsHere_of_longer {t part : Text} (hpart : part <+: t) (h : joinsHere t = false) :
    joinsHere part = false := by
  obtain ⟨more, rfl⟩ := hpart
  rw [Bool.eq_false_iff] at h ⊢
  exact fun hjoin => h (joinsHere_append hjoin more)

theorem joinsHere_firstComposer {t part : Text} (h : part <:+ firstComposer t) :
    joinsHere part = false := by
  induction t with
  | nil =>
    rw [firstComposer, List.suffix_nil] at h
    rw [h]
    rfl
  | cons c cs ih =>
    rw [firstComposer] at h
    split_ifs at h with hjoin
    · rw [List.suffix_nil.mp h]
      rfl
    · obtain rfl | h := List.suffix_cons_iff.mp h
      · have hpart : c :: firstComposer cs <+: c :: cs :=
          List.cons_prefix_cons.mpr ⟨rfl, prefix_firstComposer cs⟩
        exact not_joinsHere_of_longer hpart (Bool.eq_false_iff.mpr hjoin)
      · exact ih h

theorem asideLength_of_longer {t part : Text} (hpart : part <+: t) (h : asideLength t = none) :
    asideLength part = none := by
  cases part with
  | nil => rfl
  | cons c ds =>
    obtain ⟨more, rfl⟩ := hpart
    exact asideLength_mono h fun d hd => Or.inr (List.mem_append_left more hd)

theorem oneName_firstComposer (composer : Text) :
    OneName (firstComposer (replaceAsides 0 composer)) := by
  intro part hpart
  obtain ⟨rest, hpre, hsuffix⟩ := List.infix_iff_prefix_suffix.mp hpart
  constructor
  · obtain ⟨before, hbefore⟩ := hsuffix
    obtain ⟨after, hafter⟩ := prefix_firstComposer (replaceAsides 0 composer)
    have htail : rest ++ after <:+ replaceAsides 0 composer := by
      refine ⟨before, ?_⟩
      rw [← hafter, ← hbefore, List.append_assoc]
    exact asideLength_of_longer (hpre.trans (List.prefix_append rest after))
      (asideLength_replaceAsides htail)
  · exact not_joinsHere_of_longer hpre (joinsHere_firstComposer hsuffix)

theorem OneName.replaceAsides {name : Text} (h : OneName name) : replaceAsides 0 name = name := by
  induction name with
  | nil => rfl
  | cons c cs ih =>
    have haside := (h (c :: cs) List.infix_rfl).1
    rw [Noted.replaceAsides, haside]
    exact congrArg _ (ih (h.part (List.suffix_cons c cs).isInfix))

theorem OneName.firstComposer {name : Text} (h : OneName name) : firstComposer name = name := by
  induction name with
  | nil => rfl
  | cons c cs ih =>
    have hjoin := (h (c :: cs) List.infix_rfl).2
    rw [Noted.firstComposer, hjoin, if_neg (by decide),
      ih (h.part (List.suffix_cons c cs).isInfix)]

theorem infix_trimSpace (text : Text) : trimSpace text <:+: text :=
  (List.rdropWhile_prefix goSpace _).isInfix.trans (List.dropWhile_suffix goSpace).isInfix

theorem surnameOf_trimSpace (U : UnicodeTables) (name : Text) :
    surnameOf U (trimSpace name) = surnameOf U name := by
  unfold surnameOf
  rw [fields_trimSpace]

theorem cutComma_eq_none {name : Text} : cutComma name = none ↔ ',' ∉ name := by
  simp [cutComma]

theorem OneName.composerSurname (U : UnicodeTables) {name : Text} (h : OneName name)
    (hcomma : ',' ∉ name) : composerSurname U name = surnameOf U name := by
  have htrim : OneName (trimSpace name) := h.part (infix_trimSpace name)
  have hnone : cutComma (trimSpace name) = none := by
    rw [cutComma_eq_none]
    exact fun hmem => hcomma ((infix_trimSpace name).subset hmem)
  unfold Noted.composerSurname
  rw [h.replaceAsides, htrim.firstComposer]
  simp only [hnone]
  exact surnameOf_trimSpace U name

end Names

section Filing

variable (U : UnicodeTables) (composer : Text)

def surnameName : Text := firstComposer (trimSpace (replaceAsides 0 composer))

def sortName : Text := trimSpace (firstComposer (replaceAsides 0 composer))

/-- "Bach, J. S.": a comma with no suffix after it, and what it separates. -/
def surnameFirst (name : Text) : Option (Text × Text) :=
  (cutComma name).filter fun parts => !isComposerSuffix U parts.2

def spokenName (name : Text) : Text := name.takeWhile (· ≠ ',')

/-- The words of a spoken name that count, the last of which is the surname. -/
def spokenWords (name : Text) : List Text := dropSuffixes U (fields (spokenName name))

def spokenKey (name : Text) : Text :=
  match dropSuffixes U (fields name) with
  | [] => []
  | word :: words =>
    foldSearch U (composerSurname U name ++ ' ' :: joinWords (word :: words).dropLast)

/-- The surname and the key are read from the same words. -/
inductive SameName : Prop
  | surnameFirst {head tail head' tail' : Text}
    (hsurname : surnameFirst U (surnameName composer) = some (head, tail))
    (hkey : surnameFirst U (sortName composer) = some (head', tail'))
    (hwords : fields head = fields head') (hne : fields head ≠ [])
  | spoken (hsurname : surnameFirst U (surnameName composer) = none)
    (hkey : surnameFirst U (sortName composer) = none)
    (hwords : spokenWords U (surnameName composer) = spokenWords U (sortName composer))

/-- What the piece is filed under has a letter or a number if anything of the name has. -/
def Lettered : Prop :=
  match surnameFirst U (sortName composer) with
  | some (head, tail) => foldSearch U head = [] → foldSearch U tail = []
  | none => ∀ word ∈ (spokenWords U (sortName composer)).getLast?, foldSearch U word = [] →
      ∀ other ∈ spokenWords U (sortName composer), foldSearch U other = []

/-- The words of the folded surname begin the key, and the two are empty together. -/
structure FiledUnderSurname : Prop where
  first : fields (foldSearch U (composerSurname U composer)) <+: fields (composerSortKey U composer)
  empty : composerSortKey U composer = [] ↔ foldSearch U (composerSurname U composer) = []

variable {U composer}

theorem surnameFirst_eq_some {name head tail : Text} :
    surnameFirst U name = some (head, tail) ↔
      cutComma name = some (head, tail) ∧ isComposerSuffix U tail = false := by
  simp [surnameFirst, Option.filter_eq_some_iff]

theorem composerSurname_of_surnameFirst {head tail : Text}
    (h : surnameFirst U (surnameName composer) = some (head, tail)) (hne : fields head ≠ []) :
    composerSurname U composer = joinWords (fields head) := by
  obtain ⟨hcut, hsuffix⟩ := surnameFirst_eq_some.mp h
  rw [surnameName] at hcut
  unfold composerSurname
  simp only [hcut, hsuffix, if_neg hne]
  rfl

theorem composerSortKey_of_surnameFirst {head tail : Text}
    (h : surnameFirst U (sortName composer) = some (head, tail)) :
    composerSortKey U composer = foldSearch U (head ++ ' ' :: tail) := by
  obtain ⟨hcut, hsuffix⟩ := surnameFirst_eq_some.mp h
  rw [sortName] at hcut
  unfold composerSortKey
  simp only [hcut, hsuffix]
  rfl

theorem cutComma_of_spoken {name : Text} (h : surnameFirst U name = none) :
    (cutComma name = none ∧ spokenName name = name) ∨
      ∃ tail, cutComma name = some (spokenName name, tail) ∧ isComposerSuffix U tail = true := by
  by_cases hcomma : ',' ∈ name
  · right
    have hcut : cutComma name = some (spokenName name, (name.dropWhile (· ≠ ',')).tail) := by
      rw [cutComma, if_pos (List.contains_iff_mem.mpr hcomma)]
      rfl
    refine ⟨_, hcut, ?_⟩
    by_contra hsuffix
    have hsome := surnameFirst_eq_some.mpr ⟨hcut, Bool.eq_false_iff.mpr hsuffix⟩
    rw [h] at hsome
    cases hsome
  · left
    refine ⟨cutComma_eq_none.mpr hcomma, ?_⟩
    rw [spokenName, List.takeWhile_eq_self_iff]
    intro c hc
    simp only [decide_eq_true_eq]
    rintro rfl
    exact hcomma hc

theorem composerSurname_of_spoken (h : surnameFirst U (surnameName composer) = none) :
    composerSurname U composer = surnameOf U (spokenName (surnameName composer)) := by
  unfold composerSurname
  obtain ⟨hcut, hname⟩ | ⟨tail, hcut, hsuffix⟩ := cutComma_of_spoken h
  · rw [surnameName] at hcut
    simp only [hcut]
    rw [hname]
    rfl
  · rw [surnameName] at hcut
    simp only [hcut, hsuffix]
    rfl

theorem oneName_sortName : OneName (sortName composer) :=
  (oneName_firstComposer composer).part (infix_trimSpace _)

theorem surnameOf_spokenName (name : Text) :
    surnameOf U (spokenName name) =
      match (spokenWords U name).getLast? with
      | none => []
      | some word => trimBy (fun c => c == '.' || c == ',') word := rfl

theorem composerSortKey_eq_spokenKey (h : surnameFirst U (sortName composer) = none) :
    composerSortKey U composer = spokenKey U (spokenName (sortName composer)) := by
  unfold composerSortKey
  obtain ⟨hcut, hname⟩ | ⟨tail, hcut, hsuffix⟩ := cutComma_of_spoken h
  · rw [hname]
    rw [sortName] at hcut ⊢
    simp only [hcut]
    rfl
  · rw [sortName] at hcut
    simp only [hcut, hsuffix]
    rfl

theorem composerSortKey_of_spoken (h : surnameFirst U (sortName composer) = none) :
    composerSortKey U composer =
      if spokenWords U (sortName composer) = [] then []
      else foldSearch U (surnameOf U (spokenName (sortName composer)) ++
        ' ' :: joinWords (spokenWords U (sortName composer)).dropLast) := by
  have hone : OneName (spokenName (sortName composer)) :=
    oneName_sortName.part (List.takeWhile_prefix _).isInfix
  have hcomma : ',' ∉ spokenName (sortName composer) := by
    intro hmem
    simpa using List.mem_takeWhile_imp hmem
  have hsurname := hone.composerSurname U hcomma
  rw [composerSortKey_eq_spokenKey h, spokenKey, hsurname]
  change _ = if dropSuffixes U (fields (spokenName (sortName composer))) = [] then [] else _
  cases hwords : dropSuffixes U (fields (spokenName (sortName composer))) with
  | nil => rfl
  | cons word words =>
    rw [spokenWords, hwords]
    rfl

theorem filed_iff_of_append (rest : List Text)
    (hkey : fields (composerSortKey U composer) =
      foldWords U (composerSurname U composer) ++ rest)
    (hempty : composerSortKey U composer = [] ↔ fields (composerSortKey U composer) = []) :
    FiledUnderSurname U composer ↔ (foldWords U (composerSurname U composer) = [] → rest = []) := by
  constructor
  · intro h hsurname
    have hnil := hempty.mp (h.empty.mpr ((foldSearch_eq_nil U).mpr hsurname))
    rw [hkey] at hnil
    exact (List.append_eq_nil_iff.mp hnil).2
  · intro h
    constructor
    · rw [fields_foldSearch, hkey]
      exact List.prefix_append _ _
    · rw [hempty, hkey, List.append_eq_nil_iff, foldSearch_eq_nil]
      constructor
      · exact fun hnil => hnil.1
      · exact fun hnil => ⟨hnil, h hnil⟩

theorem filed_surnameFirst (hspace : SpaceApart U) {head tail head' tail' : Text}
    (hsurname : surnameFirst U (surnameName composer) = some (head, tail))
    (hkey : surnameFirst U (sortName composer) = some (head', tail'))
    (hwords : fields head = fields head') (hne : fields head ≠ []) :
    FiledUnderSurname U composer ↔ (foldSearch U head' = [] → foldSearch U tail' = []) := by
  have hfold : foldWords U (composerSurname U composer) = foldWords U head' := by
    rw [composerSurname_of_surnameFirst hsurname hne, foldWords_joinWords, hwords,
      foldWords_fields U hspace]
  have hsort := composerSortKey_of_surnameFirst hkey
  rw [filed_iff_of_append (foldWords U tail'), hfold, foldSearch_eq_nil, foldSearch_eq_nil]
  · rw [hsort, fields_foldSearch, foldWords_space, hfold]
  · rw [hsort, fields_foldSearch, foldSearch_eq_nil]

theorem foldWords_surnameOf (name : Text) :
    foldWords U (surnameOf U (spokenName name)) =
      (spokenWords U name).getLast?.toList.flatMap (foldWords U) := by
  rw [surnameOf_spokenName]
  cases hlast : (spokenWords U name).getLast? with
  | none => exact foldWords_nil U
  | some word =>
    rw [Option.toList_some, List.flatMap_singleton]
    exact foldWords_trimmed U word

theorem filed_spoken (hsurname : surnameFirst U (surnameName composer) = none)
    (hkey : surnameFirst U (sortName composer) = none)
    (hwords : spokenWords U (surnameName composer) = spokenWords U (sortName composer)) :
    FiledUnderSurname U composer ↔
      ∀ word ∈ (spokenWords U (sortName composer)).getLast?, foldSearch U word = [] →
        ∀ other ∈ spokenWords U (sortName composer), foldSearch U other = [] := by
  have hfold : foldWords U (composerSurname U composer) =
      (spokenWords U (sortName composer)).getLast?.toList.flatMap (foldWords U) := by
    rw [composerSurname_of_spoken hsurname, foldWords_surnameOf, hwords]
  have hsort := composerSortKey_of_spoken hkey
  have hsame := foldWords_surnameOf (U := U) (sortName composer)
  simp only [foldSearch_eq_nil]
  by_cases hnil : spokenWords U (sortName composer) = []
  · rw [if_pos hnil] at hsort
    rw [filed_iff_of_append []]
    · simp [hnil]
    · rw [hfold, hsort, hnil]
      rfl
    · rw [hsort]
      simp [fields]
  · rw [if_neg hnil] at hsort
    have hlast := List.getLast?_eq_some_getLast hnil
    have hsplit := List.dropLast_append_getLast hnil
    rw [hlast, Option.toList_some, List.flatMap_singleton] at hfold hsame
    rw [filed_iff_of_append
      ((spokenWords U (sortName composer)).dropLast.flatMap (foldWords U)), hfold, hlast]
    · simp only [Option.mem_def, Option.some.injEq, forall_eq', List.flatMap_eq_nil_iff]
      constructor
      · intro h hempty other hother
        rw [← hsplit] at hother
        obtain hother | hother := List.mem_append.mp hother
        · exact h hempty other hother
        · rw [List.mem_singleton.mp hother]
          exact hempty
      · intro h hempty other hother
        exact h hempty other (List.dropLast_subset _ hother)
    · rw [hsort, fields_foldSearch, foldWords_space, hsame, foldWords_joinWords, hfold]
    · rw [hsort, fields_foldSearch, foldSearch_eq_nil]

/-- The key of a composer agrees with the surname, wherever the two are read from the same
words, exactly when what files the piece has a letter or a number, or nothing has. -/
theorem filed_iff_lettered (hspace : SpaceApart U) (h : SameName U composer) :
    FiledUnderSurname U composer ↔ Lettered U composer := by
  unfold Lettered
  cases h with
  | surnameFirst hsurname hkey hwords hne =>
    rw [hkey]
    exact filed_surnameFirst hspace hsurname hkey hwords hne
  | spoken hsurname hkey hwords =>
    rw [hkey]
    exact filed_spoken hsurname hkey hwords

theorem spaceApart_basic : SpaceApart basicTables := by
  intro c hc
  have hdotted : c ≠ dottedI := by
    rintro rfl
    revert hc
    decide
  have hlower : basicLower c = c := by
    have hsigma : c ≠ 'Σ' := by
      rintro rfl
      revert hc
      decide
    rw [basicLower, if_neg hsigma]
    split_ifs with hascii
    · obtain h | ⟨hge, hle, -⟩ := toLower_cases c
      · exact h
      · exfalso
        have hnext : c ≠ nextLine := by
          rintro rfl
          revert hascii
          decide
        simp [goSpace, sharedSpace, beq_eq_false_iff_ne.mpr hnext] at hc
        omega
    · rfl
  refine ⟨[c], List.cons_ne_nil c [], ?_, ?_⟩
  · intro d hd
    rw [List.mem_singleton.mp hd]
    exact ⟨hc, hlower⟩
  · intro a b
    change basicNFKD (a ++ c :: b) = basicNFKD a ++ ([c] ++ basicNFKD b)
    simp [basicNFKD, hdotted]

theorem filed_iff_lettered_connick :
    FiledUnderSurname basicTables "Harry Connick, Jr. (arr. Liszt)".toList := by
  have hkey : surnameFirst basicTables (sortName "Harry Connick, Jr. (arr. Liszt)".toList) =
      none := by
    decide +kernel
  have hlast : (spokenWords basicTables
      (sortName "Harry Connick, Jr. (arr. Liszt)".toList)).getLast? = some "Connick".toList := by
    decide +kernel
  have hsame : SameName basicTables "Harry Connick, Jr. (arr. Liszt)".toList :=
    SameName.spoken (by decide +kernel) hkey (by decide +kernel)
  rw [filed_iff_lettered spaceApart_basic hsame, Lettered, hkey]
  intro word hword hnil
  rw [hlast, Option.mem_def, Option.some_inj] at hword
  subst hword
  exact absurd hnil (by decide +kernel)

/-- An aside that leaves the ampersand at the end: the surname is read as the ampersand,
the key as Bach. -/
theorem not_filedUnderSurname :
    ¬ ∀ U : UnicodeTables, SpaceApart U → ∀ composer, FiledUnderSurname U composer := by
  intro hall
  have hfiled := hall basicTables spaceApart_basic "Bach & [others]".toList
  have hempty : foldSearch basicTables
      (composerSurname basicTables "Bach & [others]".toList) = [] := by
    decide +kernel
  have hkey : composerSortKey basicTables "Bach & [others]".toList ≠ [] := by
    decide +kernel
  exact hkey (hfiled.empty.mpr hempty)

end Filing

end Noted
