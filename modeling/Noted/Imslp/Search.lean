import Noted.Imslp.Files
import Noted.Library.Firsts

/-!
# Search replies (internal/app/imslp.go)

`parseIMSLPSearch` reads a decoded reply. Its pages are an array, or an object that Go
iterates in any order, so that the list of an object is in the order of one iteration. A
raw JSON value is its text, and an absent one the empty text.
-/

namespace Noted.Imslp

open Library.Firsts

structure ImslpPage where
  ns : Int
  title : Text
  index : Int64
  fullURL : Text
  missing : Text
  deriving DecidableEq

/-- The raw pages, as the two attempts to decode them read them. -/
inductive Pages
  | absent
  | array (pages : List ImslpPage)
  | object (byID : List (Text × ImslpPage))
  | invalid

structure SearchQuery where
  search : List Text
  redirects : List (Text × Text)
  pages : Pages

structure SearchReply where
  error : Text
  query : Option SearchQuery

section Definitions

/-- `redirects[title]`, where a later redirect of a title replaces an earlier one. -/
def target (redirects : List (Text × Text)) (title : Text) : Text :=
  match redirects.reverse.find? (fun r => r.1 == title) with
  | some r => r.2
  | none => title

def rankFrom (redirects : List (Text × Text)) :
    Nat → List (Text × Nat) → List Text → List (Text × Nat)
  | _, rank, [] => rank
  | position, rank, hit :: hits =>
    let title := target redirects hit
    if rank.any (fun r => r.1 == title) then rankFrom redirects (position + 1) rank hits
    else rankFrom redirects (position + 1) (rank ++ [(title, position + 1)]) hits

def maxInt : Int := 2 ^ 63 - 1

def SearchQuery.order (q : SearchQuery) (page : ImslpPage) : Int :=
  if 0 < page.index then page.index.toInt
  else
    match (rankFrom q.redirects 0 [] q.search).find? (fun r => r.1 == page.title) with
    | some r => r.2
    | none => maxInt

def SearchQuery.less (q : SearchQuery) (p p' : ImslpPage) : Bool :=
  if q.order p ≠ q.order p' then decide (q.order p < q.order p') else decide (p.title < p'.title)

/-- The link of a page, without a scheme as IMSLP may give it. -/
def ImslpPage.rawURL (page : ImslpPage) : Text :=
  if "//".toList.isPrefixOf page.fullURL then "https:".toList ++ page.fullURL else page.fullURL

def pageWork (page : ImslpPage) : Option (IMSLPWork Char) := do
  let name ← imslpWorkName page.title
  if page.ns ≠ 0 ∨ page.missing ≠ [] then none
  else (canonicalIMSLPWorkURL page.rawURL).map fun workURL => ⟨name.1, name.2, workURL⟩

def SearchQuery.works (q : SearchQuery) (pages : List ImslpPage) : List (IMSLPWork Char) :=
  firsts pageWork IMSLPWork.url [] (pages.mergeSort fun p p' => !q.less p' p)

/-- A payload that does not decode is `none`. -/
def parseIMSLPSearch (payload : Option SearchReply) : Except String (List (IMSLPWork Char)) :=
  match payload with
  | none => .error "invalid IMSLP search JSON"
  | some reply =>
    if reply.error ≠ [] then .error "IMSLP search API error"
    else
      match reply.query with
      | none => .ok []
      | some q =>
        match q.pages with
        | .absent => .ok []
        | .array pages => .ok (q.works pages)
        | .object byID => .ok (q.works (byID.map Prod.snd))
        | .invalid => .error "invalid IMSLP search pages"

end Definitions

section Ranks

/-- A page's rank: its positive index, or the position of the first hit that names it, which
a hit with a redirect does through the redirect. -/
def SearchQuery.pageRank (q : SearchQuery) (page : ImslpPage) : Int :=
  if 0 < page.index then page.index.toInt
  else
    match q.search.findIdx? fun hit => target q.redirects hit == page.title with
    | some position => position + 1
    | none => maxInt

variable {redirects : List (Text × Text)} {rank : List (Text × Nat)} {hits : List Text}
  {position : Nat} {title : Text}

theorem rankFrom_given {r : Text × Nat} (h : rank.find? (fun r => r.1 == title) = some r) :
    (rankFrom redirects position rank hits).find? (fun r => r.1 == title) = some r := by
  induction hits generalizing position rank with
  | nil => exact h
  | cons hit hits ih =>
    rw [rankFrom]
    split_ifs
    · exact ih h
    · exact ih (by rw [List.find?_append, h]; rfl)

theorem rankFrom_find (h : rank.find? (fun r => r.1 == title) = none) :
    (rankFrom redirects position rank hits).find? (fun r => r.1 == title) =
      (hits.findIdx? fun hit => target redirects hit == title).map
        fun i => (title, position + i + 1) := by
  induction hits generalizing position rank with
  | nil => simpa [rankFrom] using h
  | cons hit hits ih =>
    rw [rankFrom, List.findIdx?_cons]
    by_cases hnames : target redirects hit = title
    · have hnew : rank.any (fun r => r.1 == target redirects hit) = false := by
        rw [List.any_eq_false]
        intro r hr
        rw [hnames]
        exact List.find?_eq_none.mp h r hr
      rw [hnew, if_neg Bool.false_ne_true, if_pos (beq_iff_eq.mpr hnames)]
      refine rankFrom_given ?_
      rw [List.find?_append, h, hnames]
      simp
    · have hother : (target redirects hit == title) = false := beq_eq_false_iff_ne.mpr hnames
      have hmap : ∀ o : Option Nat, (o.map fun i => i + 1).map (fun i => (title, position + i + 1)) =
          o.map fun i => (title, position + 1 + i + 1) := by
        intro o
        cases o with
        | none => rfl
        | some i =>
          simp only [Option.map_some, Option.some.injEq, Prod.mk.injEq, true_and]
          omega
      rw [hother, if_neg Bool.false_ne_true, hmap]
      split_ifs
      · exact ih h
      · exact ih (by simp [List.find?_append, h, hnames])

theorem order_eq_pageRank (q : SearchQuery) (page : ImslpPage) : q.order page = q.pageRank page := by
  unfold SearchQuery.order SearchQuery.pageRank
  rw [rankFrom_find rfl]
  split_ifs
  · rfl
  · cases q.search.findIdx? fun hit => target q.redirects hit == page.title with
    | none => rfl
    | some i => simp

end Ranks

section Order

variable {q : SearchQuery} {p p' p'' : ImslpPage}

def SearchQuery.Before (q : SearchQuery) (p p' : ImslpPage) : Prop :=
  q.pageRank p < q.pageRank p' ∨ q.pageRank p = q.pageRank p' ∧ p.title < p'.title

theorem less_iff : q.less p p' = true ↔ q.Before p p' := by
  simp only [SearchQuery.less, SearchQuery.Before, order_eq_pageRank]
  split_ifs with h
  · simp [h]
  · rw [not_not] at h
    simp [h]

def SearchQuery.key (q : SearchQuery) (p : ImslpPage) : Int ×ₗ Text := toLex (q.pageRank p, p.title)

theorem before_iff_key : q.Before p p' ↔ q.key p < q.key p' := by
  rw [SearchQuery.key, SearchQuery.key, Prod.Lex.toLex_lt_toLex]
  rfl

theorem notAfter_iff : (!q.less p' p) = true ↔ q.key p ≤ q.key p' := by
  rw [Bool.not_eq_true', ← Bool.not_eq_true, less_iff, before_iff_key, not_lt]

theorem notAfter_trans (a b c : ImslpPage) (hab : (!q.less b a) = true)
    (hbc : (!q.less c b) = true) : (!q.less c a) = true :=
  notAfter_iff.mpr ((notAfter_iff.mp hab).trans (notAfter_iff.mp hbc))

theorem notAfter_total (a b : ImslpPage) : (!q.less b a || !q.less a b) = true := by
  rw [Bool.or_eq_true, notAfter_iff, notAfter_iff]
  exact le_total _ _

end Order

section Works

variable {q q' : SearchQuery} {pages pages' : List ImslpPage} {page : ImslpPage} {work : IMSLPWork Char}

theorem pageWork_some (h : pageWork page = some work) :
    page.ns = 0 ∧ page.missing = [] ∧ validIMSLPWorkURL work.url = true := by
  obtain ⟨name, -, h⟩ := Option.bind_eq_some_iff.mp h
  split_ifs at h with hpage
  rw [not_or, not_not, not_not] at hpage
  obtain ⟨workURL, hurl, rfl⟩ := Option.map_eq_some_iff.mp h
  exact ⟨hpage.1, hpage.2, (canonicalIMSLPWorkURL_ok hurl).1⟩

/-- The works of a reply are those of the chosen pages, in their order, and every page that
is a work stands behind a chosen page with its link, or is chosen. -/
structure ReadsReply (q : SearchQuery) (pages chosen : List ImslpPage) (works : List (IMSLPWork Char)) :
    Prop where
  chosen_subset : ∀ p ∈ chosen, p ∈ pages
  outputs : chosen.map pageWork = works.map some
  shown : ∀ p ∈ chosen, p.ns = 0 ∧ p.missing = []
  urls : ∀ w ∈ works, validIMSLPWorkURL w.url = true
  distinct : (works.map IMSLPWork.url).Nodup
  ordered : chosen.Pairwise q.Before
  first : ∀ p ∈ pages, ∀ w, pageWork p = some w →
    ∃ c ∈ chosen, ∃ w', pageWork c = some w' ∧ w'.url = w.url ∧ (c = p ∨ q.Before c p)

theorem key_inj (hdistinct : (pages.map ImslpPage.title).Nodup) :
    ∀ p ∈ pages, ∀ p' ∈ pages, q.key p = q.key p' → p = p' := by
  intro p hp p' hp' h
  have htitle : p.title = p'.title := congrArg Prod.snd (congrArg ofLex h)
  exact List.inj_on_of_nodup_map hdistinct hp hp' htitle

theorem sorted_before (hdistinct : (pages.map ImslpPage.title).Nodup) :
    (pages.mergeSort fun p p' => !q.less p' p).Pairwise q.Before := by
  have hnodup : (pages.mergeSort fun p p' => !q.less p' p).Nodup :=
    (List.mergeSort_perm pages _).nodup_iff.mpr hdistinct.of_map
  have hsorted : (pages.mergeSort fun p p' => !q.less p' p).Pairwise
      fun p p' => (!q.less p' p) = true :=
    List.pairwise_mergeSort notAfter_trans notAfter_total pages
  refine (hsorted.and hnodup).imp_of_mem fun {a b} ha hb hab => ?_
  rw [before_iff_key]
  refine lt_of_le_of_ne (notAfter_iff.mp hab.1) fun heq => hab.2 ?_
  exact key_inj hdistinct a (List.mem_mergeSort.mp ha) b (List.mem_mergeSort.mp hb) heq

theorem works_reads (hdistinct : (pages.map ImslpPage.title).Nodup) :
    ∃ chosen, ReadsReply q pages chosen (q.works pages) := by
  obtain ⟨chosen, h⟩ := firsts_selects pageWork IMSLPWork.url []
    (pages.mergeSort fun p p' => !q.less p' p)
  have hsorted := sorted_before (q := q) hdistinct
  have hpage : ∀ p ∈ chosen, ∃ w ∈ q.works pages, pageWork p = some w := by
    intro p hp
    have hmem : pageWork p ∈ (q.works pages).map some := by
      rw [SearchQuery.works, ← h.outputs]
      exact List.mem_map_of_mem hp
    obtain ⟨w, hw, heq⟩ := List.mem_map.mp hmem
    exact ⟨w, hw, heq.symm⟩
  refine ⟨chosen, fun p hp => List.mem_mergeSort.mp (h.sublist.subset hp), h.outputs, ?_, ?_,
    h.distinct, hsorted.sublist h.sublist, ?_⟩
  · intro p hp
    obtain ⟨w, -, hw⟩ := hpage p hp
    exact ⟨(pageWork_some hw).1, (pageWork_some hw).2.1⟩
  · intro w hw
    have hmem : some w ∈ chosen.map pageWork := by
      rw [h.outputs]
      exact List.mem_map_of_mem hw
    obtain ⟨p, -, hp⟩ := List.mem_map.mp hmem
    exact (pageWork_some hp).2.2
  · intro p hp w hw
    obtain ⟨c, hc, w', hw', hurl, hbefore⟩ :=
      h.first p (List.mem_mergeSort.mpr hp) w hw List.not_mem_nil
    exact ⟨c, hc, w', hw', hurl,
      hbefore.imp_right fun hsub => List.pairwise_iff_forall_sublist.mp hsorted hsub⟩

/-- The works do not depend on the order of the pages. -/
theorem works_perm (hdistinct : (pages.map ImslpPage.title).Nodup) (h : pages.Perm pages') :
    q.works pages = q.works pages' := by
  rw [SearchQuery.works, SearchQuery.works, mergeSort_congr h notAfter_trans notAfter_total]
  intro a ha b hb hab hba
  exact key_inj hdistinct a ha b hb (le_antisymm (notAfter_iff.mp hab) (notAfter_iff.mp hba))

end Works

section Replies

def Pages.list : Pages → Option (List ImslpPage)
  | .array pages => some pages
  | .object byID => some (byID.map Prod.snd)
  | .absent => none
  | .invalid => none

theorem parseIMSLPSearch_list {q : SearchQuery} {pages : List ImslpPage}
    (h : q.pages.list = some pages) :
    parseIMSLPSearch (some ⟨[], some q⟩) = .ok (q.works pages) := by
  obtain ⟨search, redirects, raw⟩ := q
  cases raw with
  | absent => simp [Pages.list] at h
  | array => simp [parseIMSLPSearch, ← Option.some.inj h]
  | object => simp [parseIMSLPSearch, ← Option.some.inj h]
  | invalid => simp [Pages.list] at h

/-- A reply with pages of distinct titles is read to the same works in whatever shape and
order the pages come: those of its work pages, the first of each link, by rank and title. -/
theorem parseIMSLPSearch_reads (q : SearchQuery) (pages : List ImslpPage)
    (hpages : q.pages.list = some pages) (hdistinct : (pages.map ImslpPage.title).Nodup) :
    ∃ works, parseIMSLPSearch (some ⟨[], some q⟩) = .ok works ∧
      (∃ chosen, ReadsReply q pages chosen works) ∧
      ∀ raw pages', raw.list = some pages' → pages.Perm pages' →
        parseIMSLPSearch (some ⟨[], some { q with pages := raw }⟩) = .ok works := by
  refine ⟨q.works pages, parseIMSLPSearch_list hpages, works_reads hdistinct, ?_⟩
  intro raw pages' hraw hperm
  have hother : (SearchQuery.mk q.search q.redirects raw).pages.list = some pages' := hraw
  rw [parseIMSLPSearch_list hother, works_perm hdistinct hperm]
  rfl

def unrankedPage : ImslpPage where
  ns := 0
  title := "A (B, C)".toList
  index := 0
  fullURL := "//imslp.org/wiki/A".toList
  missing := []

def lastPage : ImslpPage where
  ns := 0
  title := "D (B, C)".toList
  index := 9223372036854775807
  fullURL := "//imslp.org/wiki/D".toList
  missing := []

def twoPages : SearchQuery where
  search := ["D (B, C)".toList]
  redirects := []
  pages := .array [unrankedPage, lastPage]

theorem parseIMSLPSearch_reads_two :
    parseIMSLPSearch (some ⟨[], some twoPages⟩) =
      parseIMSLPSearch (some ⟨[], some { twoPages with
        pages := .object [("2".toList, lastPage), ("1".toList, unrankedPage)] }⟩) := by
  obtain ⟨works, hworks, -, hall⟩ :=
    parseIMSLPSearch_reads twoPages [unrankedPage, lastPage] rfl (by decide)
  rw [hworks, hall _ [lastPage, unrankedPage] rfl (List.Perm.swap ..)]

/-- A page without an index or a hit can come before one with an index: the greatest
integer stands for no rank. -/
theorem not_unranked_last :
    parseIMSLPSearch (some ⟨[], some { twoPages with search := [] }⟩) =
      .ok [⟨"A".toList, "B, C".toList, "https://imslp.org/wiki/A".toList⟩,
        ⟨"D".toList, "B, C".toList, "https://imslp.org/wiki/D".toList⟩] ∧
      ¬ 0 < unrankedPage.index ∧ 0 < lastPage.index := by
  refine ⟨?_, by decide, by decide⟩
  have hsorted : [unrankedPage, lastPage].mergeSort
      (fun p p' => !SearchQuery.less { twoPages with search := [] } p' p) =
        [unrankedPage, lastPage] :=
    List.mergeSort_of_pairwise (by decide +kernel)
  have hworks : firsts pageWork IMSLPWork.url [] [unrankedPage, lastPage] =
      [⟨"A".toList, "B, C".toList, "https://imslp.org/wiki/A".toList⟩,
        ⟨"D".toList, "B, C".toList, "https://imslp.org/wiki/D".toList⟩] := by
    decide +kernel
  have hlist : (SearchQuery.mk [] [] twoPages.pages).pages.list =
      some [unrankedPage, lastPage] := rfl
  rw [← hworks, ← hsorted]
  exact parseIMSLPSearch_list hlist

end Replies

end Noted.Imslp
