import Noted.Search.Fold

/-!
# The text stored for a piece

An index is the folded fields joined by spaces, with every catalogue term that is
not yet one of its words after them. Its only white space is the space, every
word a fold has is a word of it, and so is every term.
-/

namespace Noted.Search

open Library.Words

variable (U : UnicodeTables)

section Words

def isWord (w : Text) : Prop := w ≠ [] ∧ ∀ c ∈ w, U.isWordRune c = true

theorem isWord_of_mem_foldWords {text w : Text} (hw : w ∈ foldWords U text) : isWord U w := by
  refine ⟨(mem_tokens.mp hw).2, fun c hc => ?_⟩
  simpa [separator] using not_of_mem_tokens hw c hc

theorem isWord_no_space {w : Text} (hw : isWord U w) : ' ' ∉ w := by
  intro hc
  simpa using hw.2 ' ' hc

theorem isWord_goSpace {w : Text} (hw : isWord U w) : ∀ c ∈ w, goSpace c = false :=
  fun c hc => (U.isWordRune_not_space (hw.2 c hc)).1

theorem spaced_append (vs ws : List Text) : spaced (vs ++ ws) = spaced vs ++ spaced ws := by
  simp [spaced]

theorem joinWords_eq_tail (words : List Text) : joinWords words = (spaced words).tail := by
  cases words with
  | nil => rfl
  | cons w ws => simp [joinWords_cons, spaced]

theorem joinWords_eq_nil {words : List Text} (h : ∀ w ∈ words, w ≠ []) :
    joinWords words = [] ↔ words = [] := by
  cases words with
  | nil => simp [joinWords]
  | cons w ws => simp [joinWords_cons, h w (by simp)]

theorem joinWords_joinWords {groups : List (List Text)} (h : ∀ ws ∈ groups, ∀ w ∈ ws, w ≠ []) :
    joinWords ((groups.map joinWords).filter (· ≠ [])) = joinWords groups.flatten := by
  rw [joinWords_eq_tail, joinWords_eq_tail]
  congr 1
  induction groups with
  | nil => rfl
  | cons ws groups ih =>
    have htail := ih fun vs hvs => h vs (by simp [hvs])
    rw [List.flatten_cons, spaced_append, ← htail, List.map_cons]
    cases ws with
    | nil => simp [joinWords, spaced]
    | cons w ws =>
      have hw := h (w :: ws) (by simp) w (by simp)
      rw [List.filter_cons_of_pos (by simp [joinWords_cons, hw])]
      simp [spaced, joinWords_cons]

end Words

section Base

def baseIndex (texts : List Text) : Text :=
  joinWords ((texts.map (foldSearch U)).filter (· ≠ []))

theorem baseIndex_eq (texts : List Text) :
    baseIndex U texts = joinWords (texts.flatMap (foldWords U)) := by
  have hmap : texts.map (foldSearch U) = (texts.map (foldWords U)).map joinWords := by
    simp [foldSearch_eq]
  rw [baseIndex, hmap, joinWords_joinWords, List.flatMap_def]
  intro ws hws w hw
  obtain ⟨text, -, rfl⟩ := List.mem_map.mp hws
  exact (isWord_of_mem_foldWords U hw).1

theorem isWord_of_mem_base {texts : List Text} {w : Text} (hw : w ∈ texts.flatMap (foldWords U)) :
    isWord U w := by
  obtain ⟨text, -, hw⟩ := List.mem_flatMap.mp hw
  exact isWord_of_mem_foldWords U hw

theorem splitOn_joinWords {words : List Text} (h : ∀ w ∈ words, isWord U w) (hne : words ≠ []) :
    (joinWords words).splitOn ' ' = words :=
  List.splitOn_intercalate ' ' (fun w hw => isWord_no_space U (h w hw)) hne

theorem goSpace_joinWords {words : List Text} (h : ∀ w ∈ words, isWord U w) :
    ∀ c ∈ joinWords words, goSpace c = (c == ' ') := by
  intro c hc
  rw [joinWords_eq_tail] at hc
  obtain ⟨w, hw, hc⟩ := List.mem_flatMap.mp (List.mem_of_mem_tail hc)
  rcases List.mem_cons.mp hc with rfl | hc
  · rfl
  · have hs := isWord_goSpace U (h w hw) c hc
    have hne : c ≠ ' ' := by rintro rfl; exact isWord_no_space U (h w hw) hc
    simp [hs, hne]

theorem fields_joinWords {words : List Text} (h : ∀ w ∈ words, isWord U w) :
    fields (joinWords words) = words := by
  rw [fields, tokens, splitOnP_congr (goSpace_joinWords U h), ← List.splitOn_eq_splitOnP]
  by_cases hne : words = []
  · simp [hne, joinWords]
  · rw [splitOn_joinWords U h hne, List.filter_eq_self]
    intro w hw
    simpa using (h w hw).1

end Base

section Terms

def isIndexRune (c : Char) : Bool := U.isWordRune c || c == ' '

theorem isIndexRune_goSpace {c : Char} (h : isIndexRune U c = true) : goSpace c = (c == ' ') := by
  rcases Bool.or_eq_true _ _ ▸ h with h | h
  · have hne : c ≠ ' ' := by rintro rfl; simp at h
    simp [(U.isWordRune_not_space h).1, hne]
  · rw [beq_iff_eq.mp h]
    rfl

theorem foldSearch_runes (text : Text) : ∀ c ∈ foldSearch U text, isIndexRune U c = true := by
  intro c hc
  rw [foldSearch_eq, joinWords_eq_tail] at hc
  obtain ⟨w, hw, hc⟩ := List.mem_flatMap.mp (List.mem_of_mem_tail hc)
  rcases List.mem_cons.mp hc with rfl | hc
  · simp [isIndexRune]
  · simp [isIndexRune, (isWord_of_mem_foldWords U hw).2 c hc]

def isIndexText (t : Text) : Prop := ∀ c ∈ t, isIndexRune U c = true

@[simp] theorem isIndexText_nil : isIndexText U [] := by simp [isIndexText]

@[simp] theorem isIndexText_append {s t : Text} :
    isIndexText U (s ++ t) ↔ isIndexText U s ∧ isIndexText U t := by
  simp [isIndexText, or_imp, forall_and]

theorem lower_isASCII {c : Char} (h : c.isLower = true) : isASCII c = true := by
  have hval : c.toNat = c.val.toNat := rfl
  simp only [Char.isLower, Bool.and_eq_true, decide_eq_true_iff, UInt32.le_iff_toNat_le] at h
  simp [isASCII] at h ⊢
  omega

theorem isWordRune_lower (c : Char) (h : c.isLower = true) : U.isWordRune c = true := by
  rw [U.isWordRune_ascii (lower_isASCII h)]
  simp [Char.isAlphanum, Char.isAlpha, h]

theorem isIndexRune_lower (c : Char) (h : c.isLower = true) : isIndexRune U c = true := by
  simp [isIndexRune, isWordRune_lower U c h]

end Terms

section Made

def MadeOf (p : Char → Bool) (t : Text) : Prop := ∀ c ∈ t, p c = true

variable {p : Char → Bool}

@[simp] theorem madeOf_nil : MadeOf p [] := by simp [MadeOf]

@[simp] theorem madeOf_append {s t : Text} : MadeOf p (s ++ t) ↔ MadeOf p s ∧ MadeOf p t := by
  simp [MadeOf, or_imp, forall_and]

theorem madeOf_wordAt {rest : List Word} (h : ∀ w ∈ rest, MadeOf p w.text) (k : Nat) :
    MadeOf p (wordAt rest k) := by
  cases hk : rest[k]? with
  | none => simp [wordAt, hk]
  | some w => simpa [wordAt, hk] using h w (List.mem_of_getElem? hk)

theorem infix_of_mem_splitWord (word : Text) (allowed : Bool) :
    ∀ w ∈ splitWord word allowed, w.text <:+: word := by
  intro w hw
  unfold splitWord at hw
  split at hw
  · rename_i head number hg
    have hword : word = head ++ number := by
      simp only [gluedCatalogue] at hg
      split at hg
      · obtain ⟨rfl, rfl⟩ := by simpa using hg
        exact (List.takeWhile_append_dropWhile).symm
      · cases hg
    split at hw
    · rw [hword]
      rcases (by simpa using hw : w = ⟨head, allowed⟩ ∨ w = ⟨number, false⟩) with rfl | rfl
      · exact (List.prefix_append _ _).isInfix
      · exact (List.suffix_append _ _).isInfix
    · obtain rfl := List.mem_singleton.mp hw
      exact List.infix_rfl
  · obtain rfl := List.mem_singleton.mp hw
    exact List.infix_rfl

theorem splitWord_made {word : Text} (h : MadeOf p word) (allowed : Bool) :
    ∀ w ∈ splitWord word allowed, MadeOf p w.text :=
  fun w hw c hc => h c ((infix_of_mem_splitWord word allowed w hw).subset hc)

variable (hp : ∀ c, c.isLower = true → p c = true)
include hp

theorem madeOf_lower {t : Text} (h : t.all Char.isLower = true) : MadeOf p t :=
  fun c hc => hp c (List.all_eq_true.mp h c hc)

theorem madeOf_mapGet {m : List (Text × Text)} (hm : ∀ q ∈ m, q.2.all Char.isLower = true)
    (key : Text) : MadeOf p (mapGet m key) := by
  cases hk : m.lookup key with
  | none => simp [mapGet, hk]
  | some v =>
    have hmem : (key, v) ∈ m := by
      obtain ⟨l₁, l₂, rfl, -⟩ := List.lookup_eq_some_iff.mp hk
      simp
    simpa [mapGet, hk] using madeOf_lower hp (hm _ hmem)

theorem madeOf_key (key : Text) : MadeOf p ((mapGet germanKeys key).filter (· ≠ ' ')) := by
  have hkeys : ∀ q ∈ germanKeys, (q.2.filter (· ≠ ' ')).all Char.isLower = true := by decide
  cases hk : germanKeys.lookup key with
  | none => simp [mapGet, hk]
  | some v =>
    have hmem : (key, v) ∈ germanKeys := by
      obtain ⟨l₁, l₂, hl, -⟩ := List.lookup_eq_some_iff.mp hk
      rw [hl]
      simp
    have hget : mapGet germanKeys key = v := by simp [mapGet, hk]
    rw [hget]
    exact madeOf_lower hp (hkeys _ hmem)

/-- A term is made of the words it reads and of texts the source spells out. -/
theorem readTerm_made (opusParts : Bool) {w : Word} {rest : List Word}
    (hw : MadeOf p w.text) (hrest : ∀ v ∈ rest, MadeOf p v.text) :
    ∀ t ∈ (readTerm opusParts w rest).1, MadeOf p t := by
  have hat := madeOf_wordAt hrest
  have hcat : MadeOf p (if shortCatalogue w.text && !w.shortAllowed then []
      else mapGet catalogues w.text) := by
    split
    · simp
    · exact madeOf_mapGet hp (by decide) _
  have hkey := madeOf_key hp w.text
  have hmode : MadeOf p (mapGet germanModes (wordAt rest 0)) := madeOf_mapGet hp (by decide) _
  have hnote : MadeOf p (w.text.take 1) := fun c hc => hw c (List.mem_of_mem_take hc)
  have hno : MadeOf p "no".toList := madeOf_lower hp (by decide)
  have hflat : MadeOf p "flat".toList := madeOf_lower hp (by decide)
  have hminor : MadeOf p "minor".toList := madeOf_lower hp (by decide)
  unfold readTerm
  dsimp only
  generalize (if shortCatalogue w.text && !w.shortAllowed then []
      else mapGet catalogues w.text) = catalogue at hcat ⊢
  split_ifs <;>
    simp only [List.mem_cons, List.not_mem_nil, or_false, forall_eq_or_imp, forall_eq,
      madeOf_append, and_self, hcat, hat, hkey, hmode, hnote, hno, hflat, hminor, hw]

theorem scanTerms_made (opusParts : Bool) (skip : Nat) {words : List Word}
    (h : ∀ w ∈ words, MadeOf p w.text) :
    ∀ t ∈ scanTerms opusParts skip words, MadeOf p t := by
  induction words generalizing skip with
  | nil => cases skip <;> simp [scanTerms]
  | cons w ws ih =>
    have hws : ∀ v ∈ ws, MadeOf p v.text := fun v hv => h v (by simp [hv])
    cases skip with
    | succ skip => exact ih skip hws
    | zero =>
      intro t ht
      rcases List.mem_append.mp ht with ht | ht
      · exact readTerm_made hp opusParts (h w (by simp)) hws t ht
      · exact ih _ hws t ht

end Made

section Terms

theorem catalogueTerms_runes (text : Text) (opusParts : Bool) :
    ∀ t ∈ catalogueTerms U text opusParts, isIndexText U t := by
  refine scanTerms_made (isIndexRune_lower U) opusParts 0 fun w hw => ?_
  obtain ⟨s, -, hw⟩ := List.mem_flatMap.mp hw
  exact splitWord_made (foldSearch_runes U s.word) _ w hw

end Terms

section Fold

theorem addTerm_runes {acc : Text × List Text} (h : isIndexText U acc.1) {t : Text}
    (ht : isIndexText U t) : isIndexText U (addTerm acc t).1 := by
  have hspace : isIndexText U [' '] := by simp [isIndexText, isIndexRune]
  by_cases hs : t ∈ acc.2
  · simpa only [addTerm, hs, ↓reduceIte] using h
  · by_cases he : acc.1 = []
    · simpa only [addTerm, hs, he, ↓reduceIte, ne_eq, not_true_eq_false, isIndexText_append,
        isIndexText_nil, true_and] using ht
    · simpa only [addTerm, hs, he, ↓reduceIte, ne_eq, not_false_eq_true, isIndexText_append,
        hspace, and_true] using ⟨h, ht⟩

theorem foldl_addTerm_runes {acc : Text × List Text} (h : isIndexText U acc.1) {terms : List Text}
    (hterms : ∀ t ∈ terms, isIndexText U t) : isIndexText U (terms.foldl addTerm acc).1 := by
  induction terms generalizing acc with
  | nil => exact h
  | cons t ts ih =>
    exact ih (addTerm_runes U h (hterms t (by simp))) fun s hs => hterms s (by simp [hs])

theorem fields_append_space (s t : Text) : fields (s ++ ' ' :: t) = fields s ++ fields t :=
  tokens_append_cons s t (by decide)

theorem fields_of_isWord {t : Text} (h : isWord U t) : fields t = [t] :=
  tokens_word h.1 (isWord_goSpace U h)

def SeenAreWords (acc : Text × List Text) : Prop :=
  ∀ t ∈ acc.2, isWord U t → t ∈ fields acc.1

theorem fields_addTerm (index t : Text) (seen : List Text) (hnew : t ∉ seen) :
    fields (addTerm (index, seen) t).1 = fields index ++ fields t := by
  by_cases he : index = []
  · simp [addTerm, hnew, he, fields]
  · simpa [addTerm, hnew, he] using fields_append_space index t

theorem addTerm_seen {acc : Text × List Text} (h : SeenAreWords U acc) (t : Text) :
    SeenAreWords U (addTerm acc t) ∧ (∀ w ∈ fields acc.1, w ∈ fields (addTerm acc t).1) ∧
      (isWord U t → t ∈ fields (addTerm acc t).1) := by
  obtain ⟨index, seen⟩ := acc
  by_cases hs : t ∈ seen
  · have hsame : addTerm (index, seen) t = (index, seen) := by simp [addTerm, hs]
    rw [hsame]
    exact ⟨h, fun w hw => hw, h t hs⟩
  · have hfields := fields_addTerm index t seen hs
    refine ⟨?_, ?_, ?_⟩
    · intro v hv hword
      rw [hfields]
      rcases List.mem_cons.mp (by simpa [addTerm, hs] using hv : v ∈ t :: seen) with rfl | hv
      · simp [fields_of_isWord U hword]
      · exact List.mem_append_left _ (h v hv hword)
    · intro w hw
      rw [hfields]
      exact List.mem_append_left _ hw
    · intro hw
      rw [hfields, fields_of_isWord U hw]
      simp

theorem foldl_addTerm_seen {acc : Text × List Text} (h : SeenAreWords U acc) (terms : List Text) :
    (∀ w ∈ fields acc.1, w ∈ fields (terms.foldl addTerm acc).1) ∧
      ∀ t ∈ terms, isWord U t → t ∈ fields (terms.foldl addTerm acc).1 := by
  induction terms generalizing acc with
  | nil => exact ⟨fun w hw => hw, by simp⟩
  | cons t ts ih =>
    obtain ⟨hstep, hkeep, hadded⟩ := addTerm_seen U h t
    obtain ⟨hmono, hall⟩ := ih hstep
    refine ⟨fun w hw => hmono w (hkeep w hw), fun s hs hword => ?_⟩
    rcases List.mem_cons.mp hs with rfl | hs
    · exact hmono s (hadded hword)
    · exact hall s hs hword

theorem baseIndex_runes (texts : List Text) : isIndexText U (baseIndex U texts) := by
  intro c hc
  rw [baseIndex_eq, joinWords_eq_tail] at hc
  obtain ⟨w, hw, hc⟩ := List.mem_flatMap.mp (List.mem_of_mem_tail hc)
  rcases List.mem_cons.mp hc with rfl | hc
  · simp [isIndexRune]
  · simp [isIndexRune, (isWord_of_mem_base U hw).2 c hc]

theorem searchIndex_runes (texts : List Text) : isIndexText U (searchIndex U texts) := by
  refine foldl_addTerm_runes U (baseIndex_runes U texts) fun t ht => ?_
  obtain ⟨text, -, ht⟩ := List.mem_flatMap.mp ht
  exact catalogueTerms_runes U text true t ht

/-- Every word of a field's fold and every one-word term is a word of the index. -/
theorem mem_fields_searchIndex {texts : List Text} {text : Text} (htext : text ∈ texts) :
    (∀ w ∈ foldWords U text, w ∈ fields (searchIndex U texts)) ∧
      ∀ t ∈ catalogueTerms U text true, isWord U t → t ∈ fields (searchIndex U texts) := by
  have hbase : SeenAreWords U (baseIndex U texts, fields (baseIndex U texts)) := fun t ht _ => ht
  obtain ⟨hkeep, hterms⟩ := foldl_addTerm_seen U hbase (texts.flatMap (catalogueTerms U · true))
  refine ⟨fun w hw => hkeep w ?_, fun t ht => hterms t (List.mem_flatMap.mpr ⟨text, htext, ht⟩)⟩
  rw [baseIndex_eq, fields_joinWords U fun v hv => isWord_of_mem_base U hv]
  exact List.mem_flatMap.mpr ⟨text, htext, hw⟩

end Fold

end Noted.Search
