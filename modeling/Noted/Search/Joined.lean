import Noted.Search.Highlight

/-!
# The numbers and keys that a scan joins

`searchTermSpans` reads the catalogue numbers and keys that the scan of a query reads from
the same words, with the heads of the keys. The parse of the index reads the same, and
after an opus the number within it.
-/

namespace Noted.Browser

open Library Search

section Joined

def joined (w : Word) (rest : List Word) : Bool :=
  0 < (readTerm false w rest).2 || englishFlat w.text

def joinedTerms : Nat → List Word → List Text
  | _, [] => []
  | skip + 1, _ :: ws => joinedTerms skip ws
  | 0, w :: ws =>
    (if joined w ws then (readTerm false w ws).1 else []) ++ joinedTerms (readTerm false w ws).2 ws

/-- A term is all of a catalogue number or key, or the head of a key. -/
def shows (u t : Text) : Bool := u == t || (isKeyTerm t && matchesWord u t)

end Joined

section Parts

/-- The numbers within an opus, which only the parse of the index reads. -/
def opusPartTerms : Nat → List Word → List Text
  | _, [] => []
  | skip + 1, _ :: ws => opusPartTerms skip ws
  | 0, w :: ws => (readTerm true w ws).1.tail ++ opusPartTerms (readTerm true w ws).2 ws

theorem readTerm_alone {w : Word} {rest : List Word} (h : joined w rest = false) :
    readTerm false w rest = ([w.text], 0) := by
  simp only [joined, Bool.or_eq_false_iff, decide_eq_false_iff_not, Nat.not_lt,
    Nat.le_zero] at h
  obtain ⟨hused, hflat⟩ := h
  rw [Search.readTerm_eq] at hused ⊢
  unfold Search.readTerm at hused ⊢
  dsimp only at hused ⊢
  split_ifs at hused ⊢ <;> simp_all

theorem readTerm_tail (w : Word) (rest : List Word) : (readTerm false w rest).1.tail = [] := by
  rw [Search.readTerm_eq]
  unfold Search.readTerm
  dsimp only
  generalize (if Search.shortCatalogue w.text && !w.shortAllowed then []
    else Search.mapGet Search.catalogues w.text) = catalogue
  split_ifs with hhob hnumber hpart
  · rfl
  · exact hpart.1.elim
  all_goals rfl

theorem joined_number {x : Word} (h : catalogueNumber x.text = true) (rest : List Word) :
    joined x rest = false := by
  rw [joined, Search.readTerm_eq, Search.readTerm_number false h, Search.number_not_flat h]
  rfl

theorem joinedTerms_number {x : Word} (h : catalogueNumber x.text = true) (rest : List Word) :
    joinedTerms 0 (x :: rest) = joinedTerms 0 rest := by
  rw [joinedTerms, joined_number h, Search.readTerm_eq, Search.readTerm_number false h]
  rfl

theorem readTerm_opus (w : Word) (rest : List Word) :
    readTerm false w rest = readTerm true w rest ∨
      ∃ term v x tail, rest = v :: x :: tail ∧ opusPart x.text = true ∧
        readTerm false w rest = ([term], 1) ∧
        readTerm true w rest = ([term, "no".toList ++ x.text], 2) := by
  simpa only [Search.readTerm_eq] using Search.readTerm_opus w rest

/-- The index parse reads an opus, a number and the number within it at once. -/
theorem opus_turn {w v x : Word} {tail : List Word} {term : Text}
    (hpart : opusPart x.text = true) (hfalse : readTerm false w (v :: x :: tail) = ([term], 1))
    (htrue : readTerm true w (v :: x :: tail) = ([term, "no".toList ++ x.text], 2)) :
    joinedTerms 0 (w :: v :: x :: tail) = term :: joinedTerms 0 tail ∧
      opusPartTerms 0 (w :: v :: x :: tail) =
        ("no".toList ++ x.text) :: opusPartTerms 0 tail ∧
      scanTerms true 0 (w :: v :: x :: tail) =
        term :: ("no".toList ++ x.text) :: scanTerms true 0 tail := by
  have hjoined : joined w (v :: x :: tail) = true := by simp [joined, hfalse]
  refine ⟨?_, ?_, ?_⟩
  · rw [joinedTerms, hjoined, hfalse]
    exact congrArg (term :: ·)
      (joinedTerms_number (Search.opusPart_catalogueNumber hpart) tail)
  · rw [opusPartTerms, htrue]
    rfl
  · rw [scanTerms, htrue]
    rfl

/-- The terms of the index parse are words of the text, numbers and keys, and numbers
within an opus. -/
theorem mem_scanTerms (skip : Nat) (ws : List Word) :
    ∀ t ∈ scanTerms true skip ws,
      t ∈ ws.map Word.text ∨ t ∈ joinedTerms skip ws ∨ t ∈ opusPartTerms skip ws := by
  induction hlen : ws.length using Nat.strong_induction_on generalizing skip ws with
  | _ n ih =>
  cases ws with
  | nil => cases skip <;> simp [scanTerms]
  | cons w rest =>
    rw [List.length_cons] at hlen
    cases skip with
    | succ skip =>
      intro t ht
      exact (ih rest.length (by omega) skip rest rfl t ht).imp_left (List.mem_cons_of_mem w.text)
    | zero =>
      intro t ht
      obtain hsame | ⟨term, v, x, tail, rfl, hpart, hfalse, htrue⟩ := readTerm_opus w rest
      · rw [scanTerms, ← hsame, List.mem_append] at ht
        rw [joinedTerms, opusPartTerms, ← hsame, List.mem_append, List.mem_append, List.map_cons,
          List.mem_cons]
        obtain ht | ht := ht
        · cases hjoined : joined w rest with
          | true => exact Or.inr (Or.inl (Or.inl ht))
          | false =>
            rw [readTerm_alone hjoined, List.mem_singleton] at ht
            exact Or.inl (Or.inl ht)
        · obtain h | h | h := ih rest.length (by omega) _ rest rfl t ht
          · exact Or.inl (Or.inr h)
          · exact Or.inr (Or.inl (Or.inr h))
          · exact Or.inr (Or.inr (Or.inr h))
      · obtain ⟨hnumbers, hparts, hterms⟩ := opus_turn hpart hfalse htrue
        rw [hterms, List.mem_cons, List.mem_cons] at ht
        rw [hnumbers, hparts, List.mem_cons, List.mem_cons]
        obtain h | h | ht := ht
        · exact Or.inr (Or.inl (Or.inl h))
        · exact Or.inr (Or.inr (Or.inl h))
        · obtain h | h | h := ih tail.length (by simp at hlen; omega) 0 tail rfl t ht
          · refine Or.inl ?_
            simp only [List.map_cons, List.mem_cons]
            exact Or.inr (Or.inr (Or.inr h))
          · exact Or.inr (Or.inl (Or.inr h))
          · exact Or.inr (Or.inr (Or.inr h))

theorem joinedTerms_subset (skip : Nat) (ws : List Word) :
    joinedTerms skip ws ⊆ scanTerms true skip ws := by
  induction hlen : ws.length using Nat.strong_induction_on generalizing skip ws with
  | _ n ih =>
  cases ws with
  | nil => cases skip <;> simp [joinedTerms]
  | cons w rest =>
    rw [List.length_cons] at hlen
    cases skip with
    | succ skip => exact ih rest.length (by omega) skip rest rfl
    | zero =>
      intro t ht
      obtain hsame | ⟨term, v, x, tail, rfl, hpart, hfalse, htrue⟩ := readTerm_opus w rest
      · rw [joinedTerms, List.mem_append] at ht
        rw [scanTerms, ← hsame, List.mem_append]
        obtain ht | ht := ht
        · split at ht
          · exact Or.inl ht
          · cases ht
        · exact Or.inr (ih rest.length (by omega) _ rest rfl ht)
      · obtain ⟨hnumbers, -, hterms⟩ := opus_turn hpart hfalse htrue
        rw [hnumbers, List.mem_cons] at ht
        rw [hterms, List.mem_cons, List.mem_cons]
        exact ht.imp_right fun h => Or.inr (ih tail.length (by simp at hlen; omega) 0 tail rfl h)

theorem opusPartTerms_subset (skip : Nat) (ws : List Word) :
    opusPartTerms skip ws ⊆ scanTerms true skip ws := by
  induction ws generalizing skip with
  | nil => cases skip <;> simp [opusPartTerms]
  | cons w rest ih =>
    cases skip with
    | succ skip => exact ih skip
    | zero =>
      intro t ht
      rw [opusPartTerms, List.mem_append] at ht
      rw [scanTerms, List.mem_append]
      exact ht.imp List.mem_of_mem_tail fun h => ih _ h

theorem opusPartTerms_no_note {skip : Nat} {ws : List Word} {t : Text}
    (ht : t ∈ opusPartTerms skip ws) : ∀ c ∈ t, Search.isNote c = false := by
  induction ws generalizing skip with
  | nil => cases skip <;> cases ht
  | cons w rest ih =>
    cases skip with
    | succ skip => exact ih ht
    | zero =>
      rw [opusPartTerms, List.mem_append] at ht
      obtain ht | ht := ht
      · obtain hsame | ⟨term, v, x, tail, rfl, hpart, -, htrue⟩ := readTerm_opus w rest
        · rw [← hsame, readTerm_tail] at ht
          cases ht
        · rw [htrue, List.tail_cons, List.mem_singleton] at ht
          intro c hc
          rw [ht, List.mem_append] at hc
          obtain hc | hc := hc
          · have hno : "no".toList.all (fun d => !Search.isNote d) = true := by decide
            exact (Bool.not_eq_true' _).mp (List.all_eq_true.mp hno c hc)
          · simp only [opusPart, Bool.and_eq_true, List.all_eq_true] at hpart
            exact Search.isNote_digit (hpart.2 c hc)
      · exact ih ht

end Parts

section Heads

variable {c : Char} {t u accidental mode : Text}

def isAccidental (t : Text) : Bool := t == "sharp".toList || t == "flat".toList

theorem isAccidental_cases (h : isAccidental t = true) :
    t = "sharp".toList ∨ t = "flat".toList := by
  simpa [isAccidental] using h

theorem hasMode_append (h : Spelling.isMode mode = true) : hasMode (t ++ mode) = true := by
  obtain rfl | rfl := isMode_cases h
  · simp [hasMode, List.isSuffixOf_iff_suffix]
  · simp [hasMode, List.isSuffixOf_iff_suffix]

theorem key_head (hkey : Search.isKeyTerm t = true) (hmode : hasMode t = false) :
    ∃ c accidental, Search.isNote c = true ∧ isAccidental accidental = true ∧
      t = c :: accidental := by
  cases t with
  | nil => cases hkey
  | cons c rest =>
    simp only [Search.isKeyTerm, Bool.and_eq_true, Bool.or_eq_true, beq_iff_eq] at hkey
    obtain ⟨hnote, hrest⟩ := hkey
    have hno : ∀ v mode, Spelling.isMode mode = true → rest ≠ v ++ mode := by
      intro v mode hm heq
      rw [heq, ← List.cons_append, hasMode_append hm] at hmode
      cases hmode
    have hmajor := fun v => hno v "major".toList (by decide)
    have hminor := fun v => hno v "minor".toList (by decide)
    obtain ((((((h | h) | h) | h) | h) | h) | h) | h := hrest
    · exact absurd h (hmajor [])
    · exact absurd h (hminor [])
    · exact absurd h (hmajor "sharp".toList)
    · exact absurd h (hminor "sharp".toList)
    · exact absurd h (hmajor "flat".toList)
    · exact absurd h (hminor "flat".toList)
    · exact ⟨c, rest, hnote, by rw [h]; decide, rfl⟩
    · exact ⟨c, rest, hnote, by rw [h]; decide, rfl⟩

theorem key_of_head (hc : Search.isNote c = true) (ha : isAccidental accidental = true) :
    Search.isKeyTerm (c :: accidental) = true ∧ hasMode (c :: accidental) = false := by
  obtain rfl | rfl := isAccidental_cases ha
  · rcases isNote_cases hc with rfl | rfl | rfl | rfl | rfl | rfl | rfl <;> decide
  · rcases isNote_cases hc with rfl | rfl | rfl | rfl | rfl | rfl | rfl <;> decide

theorem shows_iff : shows u t = true ↔
    t = u ∨ ∃ c accidental, Search.isNote c = true ∧ isAccidental accidental = true ∧
      t = c :: accidental ∧ t <+: u := by
  unfold shows
  rw [isKeyTerm_eq]
  simp only [Bool.or_eq_true, Bool.and_eq_true, beq_iff_eq, matchesWord]
  constructor
  · intro h
    obtain h | ⟨hkey, h⟩ := h
    · exact Or.inl h.symm
    · simp only [hkey, if_true, Bool.or_eq_true, Bool.and_eq_true, beq_iff_eq,
        Bool.not_eq_true'] at h
      obtain h | ⟨hmode, hprefix⟩ := h
      · exact Or.inl h.symm
      · obtain ⟨c, accidental, hc, ha, ht⟩ := key_head hkey hmode
        exact Or.inr ⟨c, accidental, hc, ha, ht, List.isPrefixOf_iff_prefix.mp hprefix⟩
  · intro h
    obtain h | ⟨c, accidental, hc, ha, rfl, hprefix⟩ := h
    · exact Or.inl h.symm
    · obtain ⟨hkey, hmode⟩ := key_of_head hc ha
      refine Or.inr ⟨hkey, ?_⟩
      simp [hkey, hmode, List.isPrefixOf_iff_prefix.mpr hprefix]

theorem shows_plain (h : ∀ c accidental, Search.isNote c = true → isAccidental accidental = true →
    ¬(c :: accidental) <+: u) : shows u t = true ↔ t = u := by
  rw [shows_iff]
  constructor
  · intro hshows
    obtain heq | ⟨c, accidental, hc, ha, rfl, hprefix⟩ := hshows
    · exact heq
    · exact absurd hprefix (h c accidental hc ha)
  · exact Or.inl

theorem shows_key (hc : Search.isNote c = true) (ha : isAccidental accidental = true)
    (hm : mode = [] ∨ Spelling.isMode mode = true) :
    shows (c :: accidental ++ mode) t = true ↔
      t = c :: accidental ∨ t = c :: accidental ++ mode := by
  rw [shows_iff]
  constructor
  · intro h
    obtain h | ⟨d, other, hd, ho, rfl, hprefix⟩ := h
    · exact Or.inr h
    · rw [List.cons_append, List.cons_prefix_cons] at hprefix
      obtain ⟨rfl, hprefix⟩ := hprefix
      have hsame : other = accidental := by
        have hmodes : mode = [] ∨ mode = "major".toList ∨ mode = "minor".toList :=
          hm.imp_right isMode_cases
        revert hprefix
        obtain rfl | rfl := isAccidental_cases ho
        · obtain rfl | rfl := isAccidental_cases ha
          · exact fun _ => rfl
          · rcases hmodes with rfl | rfl | rfl <;> decide
        · obtain rfl | rfl := isAccidental_cases ha
          · rcases hmodes with rfl | rfl | rfl <;> decide
          · exact fun _ => rfl
      rw [hsame]
      exact Or.inl rfl
  · intro h
    obtain rfl | rfl := h
    · exact Or.inr ⟨c, accidental, hc, ha, rfl, List.prefix_append _ _⟩
    · exact Or.inl rfl

theorem shows_natural (hm : Spelling.isMode mode = true) : shows (c :: mode) t = true ↔
    t = c :: mode := by
  apply shows_plain
  intro d accidental _ ha hprefix
  rw [List.cons_prefix_cons] at hprefix
  have hno := hprefix.2
  revert hno
  obtain rfl | rfl := isAccidental_cases ha
  · rcases isMode_cases hm with rfl | rfl <;> decide
  · rcases isMode_cases hm with rfl | rfl <;> decide

theorem accidental_head (ha : isAccidental accidental = true) :
    ∃ d ds, accidental = d :: ds ∧ (d = 's' ∨ d = 'f') := by
  obtain rfl | rfl := isAccidental_cases ha
  · exact ⟨'s', _, rfl, Or.inl rfl⟩
  · exact ⟨'f', _, rfl, Or.inr rfl⟩

theorem shows_catalogue {catalogue number : Text}
    (hcat : ∀ d ds, catalogue = d :: ds → ds.head? ≠ some 's' ∧ ds.head? ≠ some 'f')
    (hne : catalogue ≠ []) (hnumber : Search.catalogueNumber number = true) :
    shows (catalogue ++ number) t = true ↔ t = catalogue ++ number := by
  apply shows_plain
  intro c accidental _ ha hprefix
  obtain ⟨d, ds, rfl, hd⟩ := accidental_head ha
  obtain ⟨n, ns, rfl, hdigit⟩ := catalogueNumber_head hnumber
  match catalogue, hne with
  | [a], _ =>
    simp only [List.cons_append, List.nil_append, List.cons_prefix_cons] at hprefix
    obtain ⟨-, rfl, -⟩ := hprefix
    obtain rfl | rfl := hd <;> exact absurd hdigit (by decide)
  | a :: b :: bs, _ =>
    simp only [List.cons_append, List.cons_prefix_cons] at hprefix
    obtain ⟨-, rfl, -⟩ := hprefix
    obtain ⟨hs, hf⟩ := hcat a (d :: bs) rfl
    obtain rfl | rfl := hd
    · exact hs rfl
    · exact hf rfl

end Heads

section Spans

variable {t : Text} {w : FoldedWord} {rest : List FoldedWord}

theorem singleNote_cases {v : Text} (h : singleNote v = true) :
    ∃ c, v = [c] ∧ Search.isNote c = true := by
  obtain ⟨hlen, hnote⟩ := (singleNote_iff v).mp h
  obtain ⟨c, rfl⟩ := byteLen_eq_one hlen
  exact ⟨c, rfl, hnote⟩

theorem lookup_prop {m : List (Text × Text)} {p : Text → Bool}
    (hm : ∀ q ∈ m, p q.2 = true) {key : Text} (h : (m.lookup key).isSome = true) :
    p ((m.lookup key).getD []) = true := by
  obtain ⟨v, hv⟩ := Option.isSome_iff_exists.mp h
  obtain ⟨l₁, l₂, hl, -⟩ := List.lookup_eq_some_iff.mp hv
  rw [hv, Option.getD_some]
  exact hm (key, v) (by simp [hl])

def isKeyHead (k : Text) : Bool :=
  match k with
  | [] => false
  | c :: accidental => Search.isNote c && (accidental == [] || isAccidental accidental)

theorem isKeyHead_cases {k : Text} (h : isKeyHead k = true) :
    (∃ c, k = [c] ∧ Search.isNote c = true) ∨
      ∃ c accidental, k = c :: accidental ∧ Search.isNote c = true ∧
        isAccidental accidental = true := by
  cases k with
  | nil => cases h
  | cons c accidental =>
    simp only [isKeyHead, Bool.and_eq_true, Bool.or_eq_true, beq_iff_eq] at h
    obtain ⟨hc, rfl | ha⟩ := h
    · exact Or.inl ⟨c, rfl, hc⟩
    · exact Or.inr ⟨c, accidental, rfl, hc, ha⟩

def isCatalogue (catalogue : Text) : Bool :=
  match catalogue with
  | [] => false
  | _ :: ds => ds.head? != some 's' && ds.head? != some 'f'

theorem shows_isCatalogue {catalogue number : Text} (h : isCatalogue catalogue = true)
    (hnumber : Search.catalogueNumber number = true) :
    shows (catalogue ++ number) t = true ↔ t = catalogue ++ number := by
  apply shows_catalogue _ _ hnumber
  · intro d ds heq
    rw [heq] at h
    simpa [isCatalogue] using h
  · intro hnil
    rw [hnil] at h
    cases h

theorem shows_hoboken {roman number : Text} :
    shows ("hob".toList ++ roman ++ number) t = true ↔ t = "hob".toList ++ roman ++ number := by
  apply shows_plain
  intro c accidental _ ha hprefix
  obtain ⟨d, ds, rfl, hd⟩ := accidental_head ha
  have hchar : d = 'o' := by
    have hparts : (c :: d :: ds) <+: 'h' :: 'o' :: ('b' :: (roman ++ number)) := by
      simpa using hprefix
    rw [List.cons_prefix_cons, List.cons_prefix_cons] at hparts
    exact hparts.2.1
  obtain rfl | rfl := hd
  · exact absurd hchar (by decide)
  · exact absurd hchar (by decide)

/-- The spans of a turn have the terms that the terms of a turn show, when those are of a
number or key, and both use up as many words. -/
def Agrees (t : Text) (flat : Bool) (p : List SearchSpan × Nat) (q : List Text × Nat) : Prop :=
  p.2 = q.2 ∧ (t ∈ p.1.map SearchSpan.term ↔
    (0 < q.2 || flat) = true ∧ ∃ u ∈ q.1, shows u t = true)

theorem ite_both {α β : Type} {R : α → β → Prop} {p p' : α} {q q' : β} {c : Bool}
    (h : c = true → R p q) (h' : c = false → R p' q') :
    R (if c then p else p') (if c then q else q') := by
  cases c with
  | true => exact h rfl
  | false => exact h' rfl

theorem agrees_one {flat : Bool} {u : Text} {spans : List SearchSpan} {k : Nat}
    (hk : (0 < k || flat) = true)
    (h : t ∈ spans.map SearchSpan.term ↔ shows u t = true) :
    Agrees t flat (spans, k) ([u], k) := by
  refine ⟨rfl, ?_⟩
  simp only [List.mem_singleton, exists_eq_left]
  rw [h]
  exact (and_iff_right hk).symm

theorem readSpans_agrees (ht : ∀ c, Search.isNote c = true → t ≠ [c]) (w : FoldedWord)
    (rest : List FoldedWord) :
    Agrees t (englishFlat w.word) (readSpans w rest)
      (readTerm false w.toWord (rest.map FoldedWord.toWord)) := by
  have hcat : ∀ {catalogue}, (if shortCatalogue w.word && !w.shortAllowed then none
      else CATALOGUES.lookup w.word) = catalogue → catalogue.isSome = true →
      isCatalogue (catalogue.getD []) = true := by
    intro catalogue heq hsome
    split at heq
    · rw [← heq] at hsome
      cases hsome
    · subst heq
      exact lookup_prop (by decide) hsome
  have hkeys : ∀ {key}, (GERMAN_KEYS.lookup key).isSome = true →
      isKeyHead (((GERMAN_KEYS.lookup key).getD []).filter (· ≠ ' ')) = true :=
    lookup_prop (p := fun k => isKeyHead (k.filter (· ≠ ' '))) (by decide)
  have hmodes : ∀ {mode}, (GERMAN_MODES.lookup mode).isSome = true →
      Spelling.isMode ((GERMAN_MODES.lookup mode).getD []) = true := lookup_prop (by decide)
  unfold readSpans readTerm
  dsimp +instances only [FoldedWord.toWord]
  generalize hcatalogue : (if shortCatalogue w.word && !w.shortAllowed then none
    else CATALOGUES.lookup w.word) = catalogue
  have hcat := hcat hcatalogue
  generalize Search.wordAt (rest.map FoldedWord.toWord) 0 = next
  generalize Search.wordAt (rest.map FoldedWord.toWord) 1 = third
  refine ite_both (fun hhob => ?_) fun _ => ?_
  · exact agrees_one rfl (by simpa using shows_hoboken.symm)
  refine ite_both (fun hnumber => ?_) fun _ => ?_
  · rw [Bool.and_eq_true] at hnumber
    exact agrees_one rfl
      (by simpa using (shows_isCatalogue (hcat hnumber.1) hnumber.2).symm)
  refine ite_both (fun hgerman => ?_) fun _ => ?_
  · rw [Bool.and_eq_true] at hgerman
    have hmode := hmodes hgerman.2
    refine agrees_one rfl ?_
    simp only [List.map_cons, List.map_nil, List.mem_cons, List.not_mem_nil, or_false]
    obtain ⟨c, hkey, hc⟩ | ⟨c, accidental, hkey, hc, ha⟩ := isKeyHead_cases (hkeys hgerman.1)
    · rw [hkey, List.singleton_append, shows_natural hmode]
      exact or_iff_right (ht c hc)
    · rw [hkey, shows_key hc ha (Or.inr hmode)]
  refine ite_both (fun hflat => ?_) fun hflat => ?_
  · obtain ⟨c, hword, hc⟩ := englishFlat_cases hflat
    have htake : w.word.take 1 ++ "flat".toList = c :: "flat".toList := by rw [hword]; rfl
    rw [htake]
    refine ite_both (fun hmode => ?_) fun _ => ?_
    · refine agrees_one rfl ?_
      simp only [List.map_cons, List.map_nil, List.mem_cons, List.not_mem_nil, or_false]
      exact (shows_key hc (by decide) (Or.inr hmode)).symm
    · refine agrees_one (by simpa using hflat) ?_
      have hkey := shows_key (t := t) hc (by decide : isAccidental "flat".toList = true)
        (Or.inl rfl)
      simp only [List.append_nil, or_self] at hkey
      simpa using hkey.symm
  refine ite_both (fun hsharp => ?_) fun _ => ?_
  · rw [Bool.and_eq_true] at hsharp
    obtain ⟨c, hword, hc⟩ := singleNote_cases hsharp.1
    have ha : isAccidental next = true := hsharp.2
    rw [hword, List.singleton_append]
    refine ite_both (fun hthird => ?_) fun _ => ?_
    · refine agrees_one rfl ?_
      simp only [List.map_cons, List.map_nil, List.mem_cons, List.not_mem_nil, or_false]
      have hmode : Spelling.isMode (if third == "m".toList then "minor".toList else third) =
          true := by
        split_ifs with hm
        · decide
        · have hne : third ≠ "m".toList := fun heq => hm (beq_iff_eq.mpr heq)
          rw [List.contains_iff_mem, List.mem_cons, List.mem_cons, List.mem_singleton] at hthird
          obtain rfl | rfl | heq := hthird
          · decide
          · decide
          · exact absurd heq hne
      exact (shows_key hc ha (Or.inr hmode)).symm
    · refine agrees_one rfl ?_
      have hkey := shows_key (t := t) hc ha (Or.inl rfl)
      simp only [List.append_nil, or_self] at hkey
      simpa using hkey.symm
  refine ite_both (fun hnatural => ?_) fun _ => ?_
  · rw [Bool.and_eq_true] at hnatural
    obtain ⟨c, hword, hc⟩ := singleNote_cases hnatural.1
    rw [hword, List.singleton_append]
    refine agrees_one rfl ?_
    rw [shows_natural hnatural.2]
    simp
  · refine ⟨rfl, ?_⟩
    simp [hflat]

/-- The span scanner reads the catalogue numbers and keys of the scan of a query. -/
theorem scanSpans_terms (ht : ∀ c, Search.isNote c = true → t ≠ [c]) (skip : Nat)
    (words : List FoldedWord) :
    t ∈ (scanSpans skip words).map SearchSpan.term ↔
      ∃ u ∈ joinedTerms skip (words.map FoldedWord.toWord), shows u t = true := by
  induction words generalizing skip with
  | nil => cases skip <;> simp [scanSpans, joinedTerms]
  | cons w words ih =>
    cases skip with
    | succ skip => exact ih skip
    | zero =>
      obtain ⟨hskip, hread⟩ := readSpans_agrees ht w words
      rw [scanSpans, List.map_append, List.mem_append, List.map_cons, joinedTerms, hread, hskip,
        ih]
      simp only [List.mem_append, or_and_right, exists_or]
      refine or_congr ?_ Iff.rfl
      change (joined w.toWord (words.map FoldedWord.toWord) = true ∧ _) ↔ _
      cases joined w.toWord (words.map FoldedWord.toWord) <;> simp

end Spans

end Noted.Browser
