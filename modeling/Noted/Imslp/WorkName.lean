import Noted.Imslp.Files
import Noted.Library.Leftmost

/-!
# Work titles (internal/app/imslp.go, prepare-imslp.ts)

IMSLP's work pages are titled "Work title (Last, First)". The service splits a title with
one regular expression and trims the two parts; the Prepare screen has its own
`imslpWorkName` of two expressions, each a leftmost match, and trims nothing.
-/

namespace Noted

namespace PrepareImslp

open Library.Leftmost Imslp

def parentheses (inside : Text → Bool) (t : Text) : Option Text :=
  if t.head? = some '(' ∧ t.tail.getLast? = some ')' ∧ inside t.tail.dropLast = true then
    some t.tail.dropLast
  else none

/-- `\s*\([^)]*\)$`, at the start of a text. -/
def spacedParentheses (t : Text) : Option Text :=
  parentheses (fun inside => !inside.contains ')') (t.dropWhile jsSpace)

/-- `\(([^()]+, [^()]+)\)$`, at the start of a text. -/
def composerParentheses (t : Text) : Option Text := parentheses isComposerName t

def imslpWorkName (name : Text) : Text × Text :=
  let title :=
    match leftmost spacedParentheses name with
    | some (before, _) => before
    | none => name
  let composer :=
    match leftmost composerParentheses name with
    | some (_, inside) => inside
    | none => []
  (title, composer)

end PrepareImslp

section Trimming

variable {p q : Char → Bool} {t a w : Text}

theorem rdropWhile_append_of_all (h : ∀ c ∈ w, p c = true) :
    (a ++ w).rdropWhile p = a.rdropWhile p := by
  simp only [List.rdropWhile, List.reverse_append]
  rw [List.dropWhile_append_of_pos (by simpa using h)]

theorem rdropWhile_of_last (h : ∀ c ∈ t.getLast?, p c = false) : t.rdropWhile p = t := by
  rw [List.rdropWhile_eq_self_iff]
  intro hne
  simp [h _ (List.getLast_mem_getLast? hne)]

theorem rdropWhile_split (p : Char → Bool) (t : Text) :
    ∃ w, t = t.rdropWhile p ++ w ∧ ∀ c ∈ w, p c = true :=
  ⟨t.rtakeWhile p, List.rdropWhile_append_rtakeWhile.symm, fun _ hc =>
    List.mem_rtakeWhile_imp hc⟩

theorem rdropWhile_rdropWhile (h : ∀ c, q c = true → p c = true) :
    (t.rdropWhile q).rdropWhile p = t.rdropWhile p := by
  obtain ⟨w, hw, hall⟩ := rdropWhile_split q t
  conv_rhs => rw [hw]
  rw [rdropWhile_append_of_all fun c hc => h c (hall c hc)]

theorem trimBy_rdropWhile (h : ∀ c, q c = true → p c = true) :
    trimBy p (t.rdropWhile q) = trimBy p t := by
  obtain ⟨w, hw, hall⟩ := rdropWhile_split q t
  have hp : ∀ c ∈ w, p c = true := fun c hc => h c (hall c hc)
  conv_rhs => rw [hw]
  rw [trimBy, trimBy, List.dropWhile_append]
  split_ifs with hempty
  · rw [List.isEmpty_iff.mp hempty, List.dropWhile_eq_nil_iff.mpr hp]
  · rw [rdropWhile_append_of_all hp]

theorem count_trimBy {c : Char} (hc : p c = false) : (trimBy p t).count c = t.count c := by
  obtain ⟨x, y, ht, hx, hy⟩ := trimBy_split p t
  have hout : ∀ z : Text, (∀ d ∈ z, p d = true) → z.count c = 0 := by
    intro z hz
    rw [List.count_eq_zero]
    intro hmem
    exact absurd (hz c hmem) (by simp [hc])
  conv_rhs => rw [ht]
  rw [List.count_append, List.count_append, hout x hx, hout y hy]
  omega

theorem head?_of_trimBy (hne : trimBy p t ≠ []) (hpre : trimBy p t <+: t) :
    ∀ c ∈ t.head?, p c = false := by
  intro c hc
  obtain ⟨d, ds, htrim⟩ := List.exists_cons_of_ne_nil hne
  have hmem : d ∈ (trimBy p t).head? := by rw [htrim]; rfl
  have hfirst : p d = false := head?_rdropWhile head?_dropWhile_not d hmem
  rw [htrim] at hpre
  obtain ⟨rest, hrest⟩ := hpre
  rw [← hrest, List.cons_append, List.head?_cons] at hc
  rwa [← Option.some.inj hc]

theorem trimBy_eq_self_iff :
    trimBy p t = t ↔ (∀ c ∈ t.head?, p c = false) ∧ ∀ c ∈ t.getLast?, p c = false := by
  refine ⟨fun h => ⟨?_, ?_⟩, fun h => trimBy_eq_self h.1 h.2⟩
  · rw [← h]
    exact head?_rdropWhile head?_dropWhile_not
  · rw [← h]
    exact getLast?_rdropWhile_not

theorem sharedSpace_goSpace {c : Char} (h : sharedSpace c = true) : goSpace c = true := by
  simp [goSpace, h]

theorem sharedSpace_jsSpace {c : Char} (h : sharedSpace c = true) : jsSpace c = true := by
  simp [jsSpace, h]

theorem goSpace_of_not_shared {c : Char} (h : sharedSpace c = false) :
    goSpace c = false ↔ c ≠ nextLine := by
  simp [goSpace, h]

theorem jsSpace_of_not_shared {c : Char} (h : sharedSpace c = false) :
    jsSpace c = false ↔ c ≠ byteOrderMark := by
  simp [jsSpace, h]

/-- Go trims a text and JavaScript its end to the same text just when it begins with no
white space, and neither language stops at the one character that only the other trims. -/
theorem trimSpace_eq_rdropWhile (hne : trimSpace t ≠ []) :
    t.rdropWhile jsSpace = trimSpace t ↔ (∀ c ∈ t.head?, goSpace c = false) ∧
      ∀ c ∈ (t.rdropWhile sharedSpace).getLast?, c ≠ nextLine ∧ c ≠ byteOrderMark := by
  have hshared : ∀ c ∈ (t.rdropWhile sharedSpace).getLast?, sharedSpace c = false :=
    getLast?_rdropWhile_not
  have hjs : t.rdropWhile jsSpace = (t.rdropWhile sharedSpace).rdropWhile jsSpace :=
    (rdropWhile_rdropWhile fun _ h => sharedSpace_jsSpace h).symm
  have hgo : t.rdropWhile goSpace = (t.rdropWhile sharedSpace).rdropWhile goSpace :=
    (rdropWhile_rdropWhile fun _ h => sharedSpace_goSpace h).symm
  have htrim (hstart : ∀ c ∈ t.head?, goSpace c = false) : trimSpace t = t.rdropWhile goSpace := by
    have hdrop : t.dropWhile goSpace = t := by
      cases t with
      | nil => rfl
      | cons c cs => simp [hstart c (by simp)]
    rw [trimSpace, trimBy, hdrop]
  constructor
  · intro heq
    have hpre : trimSpace t <+: t := heq ▸ List.rdropWhile_prefix jsSpace t
    have hstart := head?_of_trimBy hne hpre
    rw [htrim hstart, hjs, hgo] at heq
    refine ⟨hstart, fun c hc => ⟨?_, ?_⟩⟩
    · rintro rfl
      have hstays : (t.rdropWhile sharedSpace).rdropWhile jsSpace = t.rdropWhile sharedSpace := by
        refine rdropWhile_of_last fun d hd => ?_
        obtain rfl : nextLine = d := Option.some.inj (hc.symm.trans hd)
        decide
      rw [hstays] at heq
      have hgone := getLast?_rdropWhile_not nextLine (heq ▸ hc)
      exact absurd hgone (by decide)
    · rintro rfl
      have hstays : (t.rdropWhile sharedSpace).rdropWhile goSpace = t.rdropWhile sharedSpace := by
        refine rdropWhile_of_last fun d hd => ?_
        obtain rfl : byteOrderMark = d := Option.some.inj (hc.symm.trans hd)
        decide
      rw [hstays] at heq
      have hgone := getLast?_rdropWhile_not byteOrderMark (heq.symm ▸ hc)
      exact absurd hgone (by decide)
  · rintro ⟨hstart, hends⟩
    have hkeepsGo : ∀ c ∈ (t.rdropWhile sharedSpace).getLast?, goSpace c = false :=
      fun c hc => (goSpace_of_not_shared (hshared c hc)).mpr (hends c hc).1
    have hkeepsJs : ∀ c ∈ (t.rdropWhile sharedSpace).getLast?, jsSpace c = false :=
      fun c hc => (jsSpace_of_not_shared (hshared c hc)).mpr (hends c hc).2
    rw [htrim hstart, hjs, hgo, rdropWhile_of_last hkeepsGo, rdropWhile_of_last hkeepsJs]

end Trimming

section Splitting

open Library.Leftmost PrepareImslp

variable {name before inside work composer a b x : Text} {c d : Char} {allowed : Text → Bool}

theorem cutLast_eq {t : Text} (h : Url.cutLast c t = some (a, b)) :
    t = a ++ c :: b ∧ c ∉ b := by
  unfold Url.cutLast at h
  simp only [asText_text, char_char] at h
  split_ifs at h with hmem
  obtain ⟨rfl, rfl⟩ := Prod.mk.inj (Option.some.inj h)
  constructor
  · have hin : c ∈ t.reverse := List.mem_reverse.mpr (List.contains_iff_mem.mp hmem)
    have hne : t.reverse.dropWhile (· ≠ c) ≠ [] := by
      intro hnil
      simpa using List.dropWhile_eq_nil_iff.mp hnil c hin
    have hhead : (t.reverse.dropWhile (· ≠ c)).head hne = c := by
      simpa using List.head_dropWhile_not (· ≠ c) hne
    have hcons : t.reverse.dropWhile (· ≠ c) = c :: (t.reverse.dropWhile (· ≠ c)).tail := by
      conv_lhs => rw [← List.cons_head_tail hne, hhead]
    calc t = (t.reverse.takeWhile (· ≠ c) ++ t.reverse.dropWhile (· ≠ c)).reverse := by
          rw [List.takeWhile_append_dropWhile, List.reverse_reverse]
      _ = (t.reverse.dropWhile (· ≠ c)).tail.reverse ++
          c :: (t.reverse.takeWhile (· ≠ c)).reverse := by
          rw [hcons]
          simp
  · intro hin
    have := List.mem_takeWhile_imp (List.mem_reverse.mp hin)
    simp at this

theorem parentheses_cons :
    parentheses allowed (d :: (x ++ [')'])) = if d = '(' ∧ allowed x = true then some x else none := by
  simp [parentheses]

theorem composer_no_parentheses (h : Imslp.isComposerName inside = true) :
    '(' ∉ inside ∧ ')' ∉ inside := by
  simp only [Imslp.isComposerName, Bool.and_eq_true, Bool.not_eq_true', List.contains_eq_mem,
    decide_eq_false_iff_not] at h
  exact h.1

theorem regexpSpace_goSpace (c : Char) (h : Imslp.regexpSpace c = true) : goSpace c = true := by
  simp only [Imslp.regexpSpace, Bool.or_eq_true, beq_iff_eq] at h
  rcases h with (((rfl | rfl) | rfl) | rfl) | rfl <;> decide

/-- What the service splits a title into: the composer stands in the last parentheses. -/
theorem imslpWorkName_some (h : Imslp.imslpWorkName name = some (work, composer)) :
    ∃ before inside, Url.cutLast '(' name = some (before, inside ++ [')']) ∧
      Imslp.isComposerName inside = true ∧ trimSpace before ≠ [] ∧
      work = trimSpace before ∧ composer = trimSpace inside := by
  unfold Imslp.imslpWorkName Imslp.imslpWorkTitle at h
  cases hcut : Url.cutLast '(' name with
  | none => simp [hcut] at h
  | some parts =>
    obtain ⟨before, rest⟩ := parts
    have hwork : trimSpace (before.rdropWhile Imslp.regexpSpace) = trimSpace before :=
      trimBy_rdropWhile regexpSpace_goSpace
    simp only [hcut, asText_text, trimRunes_text, char_char] at h
    split_ifs at h with htitle
    · simp only [hwork] at h
      split_ifs at h with hempty
      obtain ⟨rfl, rfl⟩ := Prod.mk.inj (Option.some.inj h)
      obtain ⟨hlast, hcomposer, -⟩ := htitle
      refine ⟨before, rest.dropLast, ?_, hcomposer, hempty, rfl, rfl⟩
      rw [List.dropLast_append_getLast? _ hlast]

/-- The two rules split a title alike: every parenthesis that opens before the composer's is
closed there, and neither part has white space that only one rule takes off. -/
structure SplitsAlike (before inside : Text) : Prop where
  closed : ∀ a b, before = a ++ '(' :: b → ')' ∈ b
  starts : ∀ c ∈ before.head?, goSpace c = false
  ends : ∀ c ∈ (before.rdropWhile sharedSpace).getLast?, c ≠ nextLine ∧ c ≠ byteOrderMark
  insideStarts : ∀ c ∈ inside.head?, goSpace c = false
  insideEnds : ∀ c ∈ inside.getLast?, goSpace c = false

theorem web_composer (hinside : Imslp.isComposerName inside = true) :
    leftmost composerParentheses (before ++ '(' :: (inside ++ [')'])) = some (before, inside) := by
  apply leftmost_of
  · rw [composerParentheses, parentheses_cons, if_pos ⟨rfl, hinside⟩]
  · intro skipped c _ hne
    obtain ⟨d, ds, rfl⟩ := List.exists_cons_of_ne_nil hne
    have hrest : (d :: ds) ++ '(' :: (inside ++ [')']) =
        d :: ((ds ++ '(' :: inside) ++ [')']) := by simp
    rw [composerParentheses, hrest, parentheses_cons, if_neg]
    rintro ⟨-, hname⟩
    exact (composer_no_parentheses hname).1 (by simp)

theorem dropWhile_of_head {p : Char → Bool} (h : p d = false) : (d :: x).dropWhile p = d :: x := by
  simp [h]

theorem web_title (hinside : ')' ∉ inside) (hclosed : ∀ a b, before = a ++ '(' :: b → ')' ∈ b) :
    leftmost spacedParentheses (before ++ '(' :: (inside ++ [')'])) =
      some (before.rdropWhile jsSpace, inside) := by
  obtain ⟨w, hw, hall⟩ := rdropWhile_split jsSpace before
  have hparen : jsSpace '(' = false := by decide
  have hname : before ++ '(' :: (inside ++ [')']) =
      before.rdropWhile jsSpace ++ (w ++ '(' :: (inside ++ [')'])) := by
    rw [← List.append_assoc, ← hw]
  rw [hname]
  apply leftmost_of
  · rw [spacedParentheses, List.dropWhile_append_of_pos hall, dropWhile_of_head hparen,
      parentheses_cons, if_pos ⟨rfl, by simpa using hinside⟩]
  · intro skipped c hc hne
    have hnot : c.dropWhile jsSpace ≠ [] := by
      intro hnil
      have hlast := getLast?_rdropWhile_not (c.getLast hne)
        (show c.getLast hne ∈ (before.rdropWhile jsSpace).getLast? by
          rw [hc, List.getLast?_append_of_ne_nil _ hne]
          exact List.getLast_mem_getLast? hne)
      exact absurd (List.dropWhile_eq_nil_iff.mp hnil _ (List.getLast_mem hne)) (by simp [hlast])
    obtain ⟨d, ds, hdrop⟩ := List.exists_cons_of_ne_nil hnot
    have hrest : d :: ds ++ (w ++ '(' :: (inside ++ [')'])) =
        d :: ((ds ++ w ++ '(' :: inside) ++ [')']) := by simp
    rw [spacedParentheses, List.dropWhile_append, if_neg (by simp [hdrop]), hdrop, hrest,
      parentheses_cons, if_neg]
    rintro ⟨rfl, hout⟩
    have hbefore : before = (skipped ++ c.takeWhile jsSpace) ++ '(' :: (ds ++ w) := by
      conv_lhs => rw [hw, hc, ← List.takeWhile_append_dropWhile (p := jsSpace) (l := c), hdrop]
      simp
    have hmem := hclosed _ _ hbefore
    simp only [Bool.not_eq_true', List.contains_eq_mem, decide_eq_false_iff_not,
      List.mem_append] at hout
    exact hout (Or.inl (List.mem_append.mp hmem))

/-- An open parenthesis before the composer's cuts the Prepare screen's title short. -/
theorem web_title_short (hinside : ')' ∉ inside) (hbefore : before = a ++ '(' :: b)
    (hopen : ')' ∉ b) :
    ∃ found c, leftmost spacedParentheses (before ++ '(' :: (inside ++ [')'])) = some (found, c) ∧
      found.count '(' < before.count '(' := by
  have hparen : jsSpace '(' = false := by decide
  have hrest : '(' :: b ++ '(' :: (inside ++ [')']) =
      '(' :: ((b ++ '(' :: inside) ++ [')']) := by simp
  have hmatch : spacedParentheses ('(' :: b ++ '(' :: (inside ++ [')'])) =
      some (b ++ '(' :: inside) := by
    rw [hrest, spacedParentheses, dropWhile_of_head hparen, parentheses_cons,
      if_pos ⟨rfl, by simp [hinside, hopen]⟩]
  obtain ⟨found, c, hfound, hle⟩ : ∃ found c, leftmost spacedParentheses
      (a ++ ('(' :: b ++ '(' :: (inside ++ [')']))) = some (found, c) ∧ found <+: a :=
    leftmost_le hmatch
  refine ⟨found, c, ?_, ?_⟩
  · rw [hbefore, List.append_assoc, hfound]
  · calc found.count '(' ≤ a.count '(' := hle.sublist.count_le '('
      _ < before.count '(' := by
          rw [hbefore, List.count_append, List.count_cons_self]
          omega

theorem web_imslpWorkName {found c : Text}
    (hinside : Imslp.isComposerName inside = true)
    (htitle : leftmost spacedParentheses (before ++ '(' :: (inside ++ [')'])) = some (found, c)) :
    PrepareImslp.imslpWorkName (before ++ '(' :: (inside ++ [')'])) = (found, inside) := by
  simp only [PrepareImslp.imslpWorkName, htitle, web_composer hinside]

/-- The Prepare screen splits a page name that the service accepts into the same two parts
exactly when the name splits alike. -/
theorem sameWorkName_iff (h : Imslp.imslpWorkName name = some (work, composer)) :
    PrepareImslp.imslpWorkName name = (work, composer) ↔
      ∃ before inside, Url.cutLast '(' name = some (before, inside ++ [')']) ∧
        SplitsAlike before inside := by
  obtain ⟨before, inside, hcut, hcomposer, hne, rfl, rfl⟩ := imslpWorkName_some h
  obtain ⟨hname, -⟩ := cutLast_eq hcut
  have hparens := (composer_no_parentheses hcomposer).2
  rw [hname]
  constructor
  · intro heq
    have hclosed : ∀ a b, before = a ++ '(' :: b → ')' ∈ b := by
      intro a b hbefore
      by_contra hopen
      obtain ⟨found, c, hfound, hcount⟩ := web_title_short hparens hbefore hopen
      rw [web_imslpWorkName hcomposer hfound] at heq
      have htitle : found = trimSpace before := congrArg Prod.fst heq
      rw [htitle, trimSpace, count_trimBy (by decide)] at hcount
      exact lt_irrefl _ hcount
    rw [web_imslpWorkName hcomposer (web_title hparens hclosed)] at heq
    obtain ⟨htitle, hinside⟩ := Prod.mk.inj heq
    obtain ⟨hstarts, hends⟩ := (trimSpace_eq_rdropWhile hne).mp htitle
    obtain ⟨hfirst, hlast⟩ := trimBy_eq_self_iff.mp hinside.symm
    exact ⟨before, inside, by rw [← hname, hcut], hclosed, hstarts, hends, hfirst, hlast⟩
  · rintro ⟨before', inside', hcut', halike⟩
    rw [← hname, hcut] at hcut'
    obtain ⟨rfl, hlast⟩ := Prod.mk.inj (Option.some.inj hcut')
    obtain rfl := List.append_cancel_right hlast
    rw [web_imslpWorkName hcomposer (web_title hparens halike.closed),
      (trimSpace_eq_rdropWhile hne).mpr ⟨halike.starts, halike.ends⟩]
    have hinside : trimSpace inside = inside :=
      trimBy_eq_self halike.insideStarts halike.insideEnds
    rw [hinside]

theorem sameWorkName_clair : PrepareImslp.imslpWorkName "Clair de lune (Debussy, Claude)".toList =
    ("Clair de lune".toList, "Debussy, Claude".toList) := by
  have hgo : Imslp.imslpWorkName "Clair de lune (Debussy, Claude)".toList =
      some ("Clair de lune".toList, "Debussy, Claude".toList) := by decide +kernel
  refine (sameWorkName_iff hgo).mpr ⟨"Clair de lune ".toList, "Debussy, Claude".toList,
    by decide +kernel, ?_⟩
  have hend : ("Clair de lune ".toList.rdropWhile sharedSpace).getLast? = some 'e' := by
    decide +kernel
  refine ⟨fun a b hbefore => ?_, fun c hc => ?_, fun c hc => ?_, fun c hc => ?_, fun c hc => ?_⟩
  · have hmem : '(' ∈ "Clair de lune ".toList := by rw [hbefore]; simp
    exact absurd hmem (by decide)
  · obtain rfl : 'C' = c := Option.some.inj hc
    decide
  · rw [hend] at hc
    obtain rfl : 'e' = c := Option.some.inj hc
    exact ⟨by decide, by decide⟩
  · obtain rfl : 'D' = c := Option.some.inj hc
    decide
  · obtain rfl : 'e' = c := Option.some.inj hc
    decide

/-- A parenthesis that stays open splits a title in two ways. -/
theorem not_sameWorkName : Imslp.imslpWorkName "A (b (c, d)".toList =
      some ("A (b".toList, "c, d".toList) ∧
    PrepareImslp.imslpWorkName "A (b (c, d)".toList ≠ ("A (b".toList, "c, d".toList) := by
  decide +kernel

end Splitting

end Noted
