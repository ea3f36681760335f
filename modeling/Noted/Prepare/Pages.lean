import Noted.Library.Runs
import Noted.Prepare.Edges

/-!
# The page editor (prepare.component.ts, prepare.component.html)

The draft that the page shows, with the state of its controls. An event is the use of
a control; the template offers it, and the method behind it has checks of its own.
`busy` closes every control while a file is uploaded, so an upload is one event. An
edit that a page does not have is its zero value.
-/

namespace Noted.PageEditor

open Library

section Ranges

def digits (text : Text) : Nat := text.foldl (fun n c => 10 * n + (c.toNat - '0'.toNat)) 0

/-- `part.trim().match(/^(\d+)(?:-(\d+))?$/)`, with the last number the first one where
it is left out. -/
def rangePart (part : Text) : Option (Nat × Nat) :=
  let part := jsTrim part
  let first := part.takeWhile Char.isDigit
  match first, part.dropWhile Char.isDigit with
  | [], _ => none
  | _, [] => some (digits first, digits first)
  | _, c :: last =>
    if c = '-' ∧ last ≠ [] ∧ last.all Char.isDigit = true then some (digits first, digits last)
    else none

def rangePartPages (source : AssetRow) (part : Text) : Except String (List Nat) := do
  let (first, last) ← demand (rangePart part) "Enter page numbers such as 1-4, 7."
  refuse (first < 1 ∨ last < first ∨ source.pageCount < last ∨ maxPreparedPages ≤ last - first)
    "Choose a valid source range of at most 10 pages."
  pure (List.range' (first - 1) (last + 1 - first))

def rangePages (source : AssetRow) (rangeText : Text) : Except String (List Nat) := do
  let parts ← (rangeText.splitOn ',').mapM (rangePartPages source)
  refuse (parts.flatten = [] ∨ maxPreparedPages < parts.flatten.length) "Choose 1 to 10 pages."
  pure parts.flatten

end Ranges

structure Editor where
  sources : List AssetRow
  manifest : EditManifest
  selected : Int
  selectedIDs : List Text
  handles : Option EdgeMode
  pendingEdges : List (List Rat)
  edgeReady : Bool
  edgeResetRequired : Bool
  history : List EditManifest
  gesture : Bool
  error : String

inductive ArrowKey
  | left
  | right
  | up
  | down
  deriving DecidableEq

def ArrowKey.delta : ArrowKey → Rat × Rat
  | left => (-1 / 100, 0)
  | right => (1 / 100, 0)
  | up => (0, -1 / 100)
  | down => (0, 1 / 100)

def plainPage (p : PageEdit) : PageEdit := { PageEdit.fresh p.id p.sourceId 0 with page := p.page }

/-- What the server reads for `undefined` in the list of pages. -/
def hole : PageEdit := PageEdit.fresh [] 0 0

def pageAt (pages : List PageEdit) (index : Int) : PageEdit :=
  if index < 0 then hole else pages.getD index.toNat hole

def cropOf (p : PageEdit) : List Rat := if p.crop = [] then [0, 0, 1, 1] else p.crop

def startingEdges (p : PageEdit) : List (List Rat) :=
  if p.corners = [] then
    rectangle ((cropOf p).getD 0 0) ((cropOf p).getD 1 0) ((cropOf p).getD 2 0) ((cropOf p).getD 3 0)
  else p.corners

/-- The page with new edges, which replace the earlier crop, scale and position. -/
def withEdges (isPhoto : Bool) (points : List (List Rat)) (p : PageEdit) : PageEdit :=
  { p with
    crop :=
      if isPhoto then []
      else [coordinate points 0 0, coordinate points 0 1, coordinate points 2 0, coordinate points 2 1]
    corners := if isPhoto then points else []
    x := 0
    y := 0
    scale := 0
    outputWidth := 0
    outputHeight := 0
    fitEdges := true }

namespace Editor

variable (σ : Editor)

def opened (d : ImportDraft) : Editor where
  sources := d.sources
  manifest := d.row.manifest
  selected := 0
  selectedIDs := []
  handles := none
  pendingEdges := []
  edgeReady := false
  edgeResetRequired := false
  history := []
  gesture := false
  error := ""

def page : Option PageEdit :=
  if σ.selected < 0 then none else σ.manifest.pages[σ.selected.toNat]?

def source (p : PageEdit) : Option AssetRow := σ.sources.find? fun a => a.id == p.sourceId

def isPhoto : Bool := (σ.page.bind σ.source).any fun a => a.mime != .pdf

def editingEdges : Bool := σ.handles.isSome

def withPages (pages : List PageEdit) : Editor :=
  { σ with manifest := { σ.manifest with pages := pages } }

/-- The history holds the last 30 manifests. -/
def remember : Editor :=
  let history := σ.history ++ [σ.manifest]
  { σ with history := if 30 < history.length then history.tail else history }

def startGesture : Editor := if σ.gesture then σ else { σ.remember with gesture := true }

def endGesture : Editor := { σ with gesture := false }

def editPage (f : PageEdit → PageEdit) : Editor :=
  match σ.page with
  | none => σ
  | some p => σ.withPages (σ.manifest.pages.set σ.selected.toNat (f p))

def changeMargin (index : Nat) (mm : Rat) : Editor :=
  if σ.page = none ∨ σ.editingEdges = true then σ
  else
    σ.startGesture.editPage fun p =>
      let margins := if p.margins = [] then [0, 0, 0, 0] else p.margins
      { p with margins := margins.set index (clamp 0 50 mm * 72 / (254 / 10)) }

/-- `change('angle', value)`: the controls change no other field with it. -/
def changeAngle (value : Rat) : Editor :=
  if σ.page = none ∨ σ.editingEdges = true then σ
  else
    σ.startGesture.editPage fun p =>
      { p with
        angle := clamp (-10) 10 value
        fitEdges := p.fitEdges ||
          (p.outputWidth == 0 && p.x == 0 && p.y == 0 && (p.scale == 0 || p.scale == 1)) }

def rotate : Editor :=
  if σ.page = none ∨ σ.editingEdges = true then σ
  else (σ.remember.editPage fun p => { p with rotation := (p.rotation + 90) % 360 }).endGesture

def changePaperStrength (value : Rat) : Editor :=
  if σ.page = none ∨ σ.isPhoto = false ∨ σ.editingEdges = true then σ
  else
    σ.startGesture.editPage fun p => { p with paperCleanupStrength := some (clamp 0 100 value / 100) }

def undo : Editor :=
  match σ.history.getLast? with
  | none => σ.endGesture
  | some m =>
    { σ.endGesture with
      history := σ.history.dropLast
      manifest := m
      selected := min σ.selected (m.pages.length - 1) }

def resetPage : Editor :=
  if σ.page = none then σ else { σ.remember.editPage plainPage with handles := none }

def resetAll : Editor := { σ.remember with manifest := ⟨1, σ.manifest.pages.map plainPage⟩ }

def choose (index : Nat) : Editor :=
  if σ.editingEdges = true then σ else { σ.endGesture with selected := index, handles := none }

def move (delta : Int) : Editor :=
  let pages := σ.manifest.pages
  let other := σ.selected + delta
  if other < 0 ∨ pages.length ≤ other then σ
  else
    { σ.remember.withPages ((pages.set σ.selected.toNat (pageAt pages other)).set other.toNat
        (pageAt pages σ.selected)) with selected := other }

def remove : Editor :=
  if σ.page = none then σ
  else
    let pages := σ.manifest.pages.eraseIdx σ.selected.toNat
    { σ.remember.withPages pages with selected := max 0 (min σ.selected (pages.length - 1)) }

def toggle (id : Text) : Editor :=
  { σ with selectedIDs := if id ∈ σ.selectedIDs then σ.selectedIDs.erase id else id :: σ.selectedIDs }

def keepSelected : Editor :=
  if σ.selectedIDs = [] then σ
  else
    { σ.remember.withPages (σ.manifest.pages.filter fun p => σ.selectedIDs.contains p.id) with
      selected := 0 }

def beginEdges : Editor :=
  match σ.page with
  | none => σ
  | some p =>
    { σ.endGesture with
      edgeReady := false
      edgeResetRequired := decide (p.corners ≠ [] ∧ p.crop ≠ [])
      pendingEdges := startingEdges p
      handles := some (if σ.isPhoto then .corners else .crop) }

def setEdge (index : Nat) (x y : Rat) (asRectangle : Bool) : Editor :=
  match σ.handles with
  | none => σ
  | some mode =>
    if σ.edgeReady = false ∨ σ.edgeResetRequired = true then σ
    else
      match moveEdgeCorner σ.pendingEdges mode index x y asRectangle with
      | none => σ
      | some next => { σ with pendingEdges := next }

def nudgeCorner (index : Nat) (key : ArrowKey) (shift : Bool) : Editor :=
  σ.setEdge index (coordinate σ.pendingEdges index 0 + key.delta.1)
    (coordinate σ.pendingEdges index 1 + key.delta.2) shift

def resetPendingEdges : Editor :=
  { σ with pendingEdges := rectangle 0 0 1 1, edgeResetRequired := false }

def cancelEdges : Editor := { σ with handles := none, pendingEdges := [] }

def applyEdges : Editor :=
  if σ.page = none ∨ σ.edgeReady = false ∨ σ.edgeResetRequired = true then σ
  else
    { σ.remember.editPage (withEdges σ.isPhoto σ.pendingEdges) with
      handles := none
      pendingEdges := [] }

/-- `ids` are the UUIDs that the browser generates. -/
def useRange (rangeSourceId : Id) (rangeText : Text) (ids : List Text) : Editor :=
  match σ.sources.find? fun a => a.id == rangeSourceId with
  | none => σ
  | some source =>
    match rangePages source rangeText with
    | .error message => { σ with error := message }
    | .ok pages =>
      { σ.remember with
        manifest := ⟨1, List.zipWith (fun id page => PageEdit.fresh id source.id page) ids pages⟩
        selected := 0 }

/-- `uploadFiles` for one file: the draft is saved, and the server appends pages of
the new source to it. With `replace` they make way for the first one, in the place of
the selected page. -/
def upload (validUUID : Text → Bool) (incoming : AssetRow) (pageIds : List Text)
    (replace : Bool) : Editor :=
  match validateManifest validUUID σ.manifest σ.sources true with
  | .error _ => σ
  | .ok _ =>
    let next := attachedManifest σ.manifest ⟨incoming.id, incoming.id, pageIds⟩ incoming.pageCount
    let uploaded := { σ.remember with sources := σ.sources ++ [incoming], manifest := next }
    let oldCount : Int := σ.manifest.pages.length
    match if replace then σ.page else none with
    | none => { uploaded with selected := min oldCount (next.pages.length - 1) }
    | some replaced =>
      match next.pages.findIdx? fun p => p.id == replaced.id with
      | none => { uploaded with error := "Replacement source was not received." ++
          " Pages already added remain in this draft." }
      | some target =>
        let pages := (next.pages.filter fun p => p.sourceId != incoming.id).set target
          (PageEdit.fresh replaced.id incoming.id 0)
        { uploaded.withPages pages with selected := min oldCount (pages.length - 1) }

end Editor

inductive Event
  | startGesture
  | endGesture
  | changeMargin (index : Fin 4) (mm : Rat)
  | changeAngle (value : Rat)
  | rotate
  | changePaperStrength (value : Rat)
  | undo
  | resetPage
  | resetAll
  | choose (index : Nat)
  | moveEarlier
  | moveLater
  | remove
  | toggle (id : Text)
  | keepSelected
  | beginEdges
  | edgesReady
  | dragCorner (index : Fin 4) (x y : Rat) (shift : Bool)
  | nudgeCorner (index : Fin 4) (key : ArrowKey) (shift : Bool)
  | resetPendingEdges
  | cancelEdges
  | applyEdges
  | useRange (rangeSourceId : Id) (rangeText : Text) (ids : List Text)
  | upload (incoming : AssetRow) (pageIds : List Text) (replace : Bool)

namespace Editor

variable (validUUID : Text → Bool) (σ : Editor)

/-- The controls that the template shows and has not disabled. Those of one page are
shown with it; while edges are edited, only their own are enabled. -/
def offers : Event → Bool
  | .changeMargin _ _ | .changeAngle _ | .rotate | .undo | .resetPage | .remove | .beginEdges
  | .startGesture => σ.page.isSome && !σ.editingEdges
  | .changePaperStrength _ => σ.page.isSome && σ.isPhoto && !σ.editingEdges
  | .choose index => !σ.editingEdges && decide (index < σ.manifest.pages.length)
  | .moveEarlier => !σ.editingEdges && decide (0 < σ.selected)
  | .moveLater => !σ.editingEdges && decide (σ.selected < σ.manifest.pages.length - 1)
  | .toggle _ | .useRange _ _ _ => !σ.editingEdges
  | .keepSelected => !σ.editingEdges && !σ.selectedIDs.isEmpty
  | .dragCorner _ _ _ _ | .nudgeCorner _ _ _ =>
    σ.editingEdges && σ.edgeReady && !σ.edgeResetRequired
  | .resetPendingEdges => σ.editingEdges && σ.edgeResetRequired
  | .cancelEdges => σ.editingEdges
  | .applyEdges => σ.editingEdges && σ.edgeReady && !σ.edgeResetRequired
  | .upload _ _ replace => !σ.editingEdges && (!replace || σ.page.isSome)
  | .endGesture | .resetAll | .edgesReady => true

def Generates (ids : List Text) : Prop :=
  ids.length = maxPreparedPages ∧ ids.Nodup ∧ ∀ id ∈ ids, validUUID id = true

/-- What the browser and the server add to an event: new UUIDs, and for an upload a
source that the server accepted, which has a page. -/
def Grants : Event → Prop
  | .useRange _ _ ids => Generates validUUID ids
  | .upload incoming pageIds _ =>
    Generates validUUID pageIds ∧ (∀ p ∈ σ.manifest.pages, p.id ∉ pageIds) ∧
      (∀ a ∈ σ.sources, a.id ≠ incoming.id) ∧ 1 ≤ incoming.pageCount
  | _ => True

instance (ids : List Text) : Decidable (Generates validUUID ids) :=
  inferInstanceAs (Decidable (_ ∧ _ ∧ _))

instance (e : Event) : Decidable (σ.Grants validUUID e) :=
  match e with
  | .useRange _ _ ids => inferInstanceAs (Decidable (Generates validUUID ids))
  | .upload _ _ _ => inferInstanceAs (Decidable (_ ∧ _ ∧ _ ∧ _))
  | .startGesture | .endGesture | .changeMargin _ _ | .changeAngle _ | .rotate
  | .changePaperStrength _ | .undo | .resetPage | .resetAll | .choose _ | .moveEarlier
  | .moveLater | .remove | .toggle _ | .keepSelected | .beginEdges | .edgesReady
  | .dragCorner _ _ _ _ | .nudgeCorner _ _ _ | .resetPendingEdges | .cancelEdges
  | .applyEdges => inferInstanceAs (Decidable True)

def handle : Event → Editor
  | .startGesture => σ.startGesture
  | .endGesture => σ.endGesture
  | .changeMargin index mm => σ.changeMargin index mm
  | .changeAngle value => σ.changeAngle value
  | .rotate => σ.rotate
  | .changePaperStrength value => σ.changePaperStrength value
  | .undo => σ.undo
  | .resetPage => σ.resetPage
  | .resetAll => σ.resetAll
  | .choose index => σ.choose index
  | .moveEarlier => σ.move (-1)
  | .moveLater => σ.move 1
  | .remove => σ.remove
  | .toggle id => σ.toggle id
  | .keepSelected => σ.keepSelected
  | .beginEdges => σ.beginEdges
  | .edgesReady => { σ with edgeReady := true }
  | .dragCorner index x y shift => σ.setEdge index x y shift
  | .nudgeCorner index key shift => σ.nudgeCorner index key shift
  | .resetPendingEdges => σ.resetPendingEdges
  | .cancelEdges => σ.cancelEdges
  | .applyEdges => σ.applyEdges
  | .useRange rangeSourceId rangeText ids => σ.useRange rangeSourceId rangeText ids
  | .upload incoming pageIds replace => σ.upload validUUID incoming pageIds replace

def step (e : Event) : Option (Unit × Editor) :=
  if σ.offers e = true ∧ σ.Grants validUUID e then some ((), σ.handle validUUID e) else none

section Invariants

structure Sound : Prop where
  sources : (σ.sources.map AssetRow.id).Nodup
  manifest : σ.manifest.Valid validUUID (assetsOf σ.sources)
  history : ∀ m ∈ σ.history, m.Valid validUUID (assetsOf σ.sources)
  selected : σ.manifest.pages ≠ [] → 0 ≤ σ.selected ∧ σ.selected < σ.manifest.pages.length

def edgeMode (a : AssetRow) : EdgeMode := if a.mime = .pdf then .crop else .corners

/-- Edges are edited for the selected page, and fit it. -/
def EdgesFit : Prop :=
  ∀ mode ∈ σ.handles, ∃ p a, σ.page = some p ∧ assetsOf σ.sources p.sourceId = some a ∧
    mode = edgeMode a ∧ Fits mode σ.pendingEdges

end Invariants

section Methods

variable {validUUID : Text → Bool} {σ σ' : Editor} {p : PageEdit} {a : AssetRow}

theorem page_eq_some :
    σ.page = some p ↔ 0 ≤ σ.selected ∧ σ.manifest.pages[σ.selected.toNat]? = some p := by
  unfold page
  split
  · rename_i hneg
    simp only [reduceCtorEq, false_iff, not_and]
    omega
  · rename_i hneg
    rw [and_iff_right (by omega)]

theorem Sound.source (h : σ.Sound validUUID) (p : PageEdit) :
    σ.source p = assetsOf σ.sources p.sourceId := by
  apply Option.ext
  intro a
  rw [assetsOf_eq_some h.sources, Editor.source]
  constructor
  · intro ha
    exact ⟨List.mem_of_find?_eq_some ha, by simpa using List.find?_some ha⟩
  · intro ha
    obtain ⟨hmem, hid⟩ := ha
    cases hfind : σ.sources.find? fun a => a.id == p.sourceId with
    | none =>
      have hnone := List.find?_eq_none.mp hfind a hmem
      simp [hid] at hnone
    | some b =>
      have hb : b.id = p.sourceId := by simpa using List.find?_some hfind
      rw [List.inj_on_of_nodup_map h.sources (List.mem_of_find?_eq_some hfind) hmem
        (hb.trans hid.symm)]

theorem Sound.page (h : σ.Sound validUUID) (hp : σ.page = some p) :
    ∃ a, assetsOf σ.sources p.sourceId = some a ∧ (0 ≤ p.page ∧ p.page < a.pageCount) ∧
      p.Adjusted a := by
  have hmem := List.mem_of_getElem? (page_eq_some.mp hp).2
  exact validatePage_eq_ok.mp (h.manifest.pages p hmem)

theorem Sound.isPhoto (h : σ.Sound validUUID) (hp : σ.page = some p)
    (ha : assetsOf σ.sources p.sourceId = some a) : σ.isPhoto = true ↔ a.mime ≠ .pdf := by
  simp [Editor.isPhoto, hp, h.source, ha]

theorem Sound.keep (h : σ.Sound validUUID) (hsources : σ'.sources = σ.sources)
    (hhistory : ∀ m ∈ σ'.history, m ∈ σ.history ∨ m = σ.manifest)
    (hmanifest : σ'.manifest.Valid validUUID (assetsOf σ.sources))
    (hselected : σ'.manifest.pages ≠ [] →
      0 ≤ σ'.selected ∧ σ'.selected < σ'.manifest.pages.length) : σ'.Sound validUUID := by
  refine ⟨?_, ?_, ?_, hselected⟩
  · rw [hsources]
    exact h.sources
  · rw [hsources]
    exact hmanifest
  · intro m hm
    rw [hsources]
    obtain hm | rfl := hhistory m hm
    · exact h.history m hm
    · exact h.manifest

theorem remember_history {m : EditManifest} (hm : m ∈ σ.remember.history) :
    m ∈ σ.history ∨ m = σ.manifest := by
  have hmem : m ∈ σ.history ++ [σ.manifest] := by
    simp only [remember] at hm
    split at hm
    · exact List.mem_of_mem_tail hm
    · exact hm
  rw [List.mem_append, List.mem_singleton] at hmem
  exact hmem

theorem Sound.remember (h : σ.Sound validUUID) : σ.remember.Sound validUUID :=
  h.keep rfl (fun _ => remember_history) h.manifest h.selected

theorem Sound.startGesture (h : σ.Sound validUUID) : σ.startGesture.Sound validUUID := by
  unfold Editor.startGesture
  split
  · exact h
  · exact h.remember.keep rfl (fun _ hm => Or.inl hm) h.manifest h.selected

@[simp] theorem startGesture_page : σ.startGesture.page = σ.page := by
  unfold startGesture
  split <;> rfl

@[simp] theorem startGesture_sources : σ.startGesture.sources = σ.sources := by
  unfold startGesture
  split <;> rfl

@[simp] theorem startGesture_handles : σ.startGesture.handles = σ.handles := by
  unfold startGesture
  split <;> rfl

@[simp] theorem editPage_handles (f : PageEdit → PageEdit) :
    (σ.editPage f).handles = σ.handles := by
  unfold editPage
  split <;> rfl

theorem Sound.editPage (h : σ.Sound validUUID) {f : PageEdit → PageEdit}
    (hid : ∀ p, (f p).id = p.id ∧ (f p).sourceId = p.sourceId ∧ (f p).page = p.page)
    (hadjusted : ∀ p a, σ.page = some p → assetsOf σ.sources p.sourceId = some a → p.Adjusted a →
      (f p).Adjusted a) : (σ.editPage f).Sound validUUID := by
  unfold Editor.editPage
  split
  · exact h
  · rename_i p hp
    obtain ⟨a, ha, hpage, hadj⟩ := h.page hp
    obtain ⟨hids, hsource, hnumber⟩ := hid p
    refine h.keep rfl ?_ ?_ ?_
    · intro m hm
      exact Or.inl hm
    · apply h.manifest.set (page_eq_some.mp hp).2 hids
      rw [validatePage_eq_ok, hsource, hnumber]
      exact ⟨a, ha, hpage, hadjusted p a hp ha hadj⟩
    · intro hne
      simp only [withPages, List.length_set]
      apply h.selected
      rintro hnil
      simp [withPages, hnil] at hne

theorem abs_le {x bound : Rat} (h : -bound ≤ x ∧ x ≤ bound) : x.abs ≤ bound := by
  unfold Rat.abs
  split <;> linarith [h.1, h.2]

theorem clamp_mem {lowest highest : Rat} (hle : lowest ≤ highest) (value : Rat) :
    lowest ≤ clamp lowest highest value ∧ clamp lowest highest value ≤ highest :=
  ⟨le_max_left lowest _, max_le hle (min_le_left highest _)⟩

theorem Sound.changeMargin (h : σ.Sound validUUID) (index : Nat) (mm : Rat) :
    (σ.changeMargin index mm).Sound validUUID := by
  unfold Editor.changeMargin
  split
  · exact h
  · apply h.startGesture.editPage
    · intro p
      exact ⟨rfl, rfl, rfl⟩
    · intro p a hp ha hadj
      have hfour : (if p.margins = [] then [0, 0, 0, 0] else p.margins).length = 4 := by
        split
        · rfl
        · rename_i hne
          exact hadj.margins_length hne
      refine { hadj with margins_length := ?_, margins := ?_ }
      · intro hne
        rw [List.length_set, hfour]
      · intro margin hmargin
        obtain hmargin | rfl := List.mem_or_eq_of_mem_set hmargin
        · split at hmargin
          · obtain rfl : margin = 0 := by simpa using hmargin
            norm_num
          · exact hadj.margins margin hmargin
        · obtain ⟨hlow, hhigh⟩ := clamp_mem (by norm_num : (0 : Rat) ≤ 50) mm
          constructor <;> linarith

theorem Sound.changeAngle (h : σ.Sound validUUID) (value : Rat) :
    (σ.changeAngle value).Sound validUUID := by
  unfold Editor.changeAngle
  split
  · exact h
  · apply h.startGesture.editPage
    · intro p
      exact ⟨rfl, rfl, rfl⟩
    · intro p a hp ha hadj
      exact { hadj with angle := abs_le (clamp_mem (by norm_num) value) }

theorem Sound.rotate (h : σ.Sound validUUID) : σ.rotate.Sound validUUID := by
  unfold Editor.rotate
  split
  · exact h
  · have hedit : (σ.remember.editPage fun p =>
        { p with rotation := (p.rotation + 90) % 360 }).Sound validUUID := by
      apply h.remember.editPage
      · intro p
        exact ⟨rfl, rfl, rfl⟩
      · intro p a hp ha hadj
        refine { hadj with rotation := ?_ }
        obtain ⟨hquarter, hlow, hhigh⟩ := hadj.rotation
        simp only
        omega
    exact hedit.keep rfl (fun _ => Or.inl) hedit.manifest hedit.selected

theorem Sound.changePaperStrength (h : σ.Sound validUUID) (value : Rat) :
    (σ.changePaperStrength value).Sound validUUID := by
  unfold Editor.changePaperStrength
  split
  · exact h
  · rename_i hphoto
    simp only [not_or, Bool.not_eq_false] at hphoto
    apply h.startGesture.editPage
    · intro p
      exact ⟨rfl, rfl, rfl⟩
    · intro p a hp ha hadj
      rw [startGesture_page] at hp
      rw [startGesture_sources] at ha
      refine { hadj with strength := ?_, cleanup := ?_ }
      · intro strength hs
        obtain rfl : clamp 0 100 value / 100 = strength := by simpa using hs
        obtain ⟨hlow, hhigh⟩ := clamp_mem (by norm_num : (0 : Rat) ≤ 100) value
        constructor <;> linarith
      · intro _
        exact (h.isPhoto hp ha).mp hphoto.2.1

theorem Sound.undo (h : σ.Sound validUUID) (hp : σ.page.isSome = true) :
    σ.undo.Sound validUUID := by
  obtain ⟨p, hp⟩ := Option.isSome_iff_exists.mp hp
  obtain ⟨hselected, hget⟩ := page_eq_some.mp hp
  unfold Editor.undo
  split
  · exact h.keep rfl (fun _ => Or.inl) h.manifest h.selected
  · rename_i m hm
    refine h.keep rfl ?_ (h.history m (List.mem_of_getLast? hm)) ?_
    · intro m' hm'
      exact Or.inl (List.mem_of_mem_dropLast hm')
    · intro hne
      have hpos := List.length_pos_iff.mpr hne
      simp only at hpos ⊢
      omega

theorem plainPage_adjusted : (plainPage p).Adjusted a := by
  constructor <;> simp [plainPage, PageEdit.fresh]

theorem Sound.resetPage (h : σ.Sound validUUID) : σ.resetPage.Sound validUUID := by
  unfold Editor.resetPage
  split
  · exact h
  · have hedit : (σ.remember.editPage plainPage).Sound validUUID := by
      apply h.remember.editPage
      · intro p
        exact ⟨rfl, rfl, rfl⟩
      · intro p a _ _ _
        exact plainPage_adjusted
    exact hedit.keep rfl (fun _ => Or.inl) hedit.manifest hedit.selected

theorem Sound.resetAll (h : σ.Sound validUUID) : σ.resetAll.Sound validUUID := by
  have hids : (σ.manifest.pages.map plainPage).map PageEdit.id =
      σ.manifest.pages.map PageEdit.id := by
    rw [List.map_map]
    rfl
  refine h.remember.keep rfl (fun _ => Or.inl) ⟨rfl, ?_, ?_, ?_, ?_⟩ ?_
  · rw [Editor.resetAll, List.length_map]
    exact h.manifest.length
  · rw [Editor.resetAll, hids]
    exact h.manifest.ids
  · intro p hp
    obtain ⟨q, hq, rfl⟩ := List.mem_map.mp hp
    exact h.manifest.uuids q hq
  · intro p hp
    obtain ⟨q, hq, rfl⟩ := List.mem_map.mp hp
    obtain ⟨a, ha, hpage, hadj⟩ := validatePage_eq_ok.mp (h.manifest.pages q hq)
    exact validatePage_eq_ok.mpr ⟨a, ha, hpage, plainPage_adjusted⟩
  · intro hne
    simp only [Editor.resetAll, List.length_map]
    apply h.selected
    rintro hnil
    simp [Editor.resetAll, hnil] at hne

theorem Sound.choose (h : σ.Sound validUUID) {index : Nat}
    (hindex : index < σ.manifest.pages.length) : (σ.choose index).Sound validUUID := by
  unfold Editor.choose
  split
  · exact h
  · refine h.keep rfl (fun _ => Or.inl) h.manifest ?_
    intro _
    simp only [endGesture]
    omega

theorem pageAt_eq {pages : List PageEdit} {i : Int} (h : 0 ≤ i) (hlt : i.toNat < pages.length) :
    pageAt pages i = pages[i.toNat] := by
  rw [pageAt, if_neg (by omega), List.getD_eq_getElem _ _ hlt]

theorem Sound.move (h : σ.Sound validUUID) (delta : Int) : (σ.move delta).Sound validUUID := by
  unfold Editor.move
  simp only
  split
  · exact h
  · rename_i hother
    rw [not_or, not_lt, not_le] at hother
    obtain ⟨hlow, hhigh⟩ := hother
    have hne : σ.manifest.pages ≠ [] := by
      rintro hnil
      simp only [hnil, List.length_nil] at hhigh
      omega
    obtain ⟨hselected, hlength⟩ := h.selected hne
    have hlt : σ.selected.toNat < σ.manifest.pages.length := by omega
    have hlt' : (σ.selected + delta).toNat < σ.manifest.pages.length := by omega
    refine h.keep rfl (fun _ => remember_history) ?_ ?_
    · apply h.manifest.subperm
      rw [pageAt_eq hlow hlt', pageAt_eq hselected hlt]
      exact (List.set_set_perm hlt hlt').subperm
    · intro _
      simp only [withPages, List.length_set]
      exact ⟨hlow, hhigh⟩

theorem Sound.remove (h : σ.Sound validUUID) : σ.remove.Sound validUUID := by
  unfold Editor.remove
  split
  · exact h
  · refine h.keep rfl (fun _ => remember_history) ?_ ?_
    · exact h.manifest.subperm (List.eraseIdx_sublist _ _).subperm
    · intro hne
      have hpos := List.length_pos_iff.mpr hne
      simp only [withPages] at hpos ⊢
      omega

theorem Sound.keepSelected (h : σ.Sound validUUID) : σ.keepSelected.Sound validUUID := by
  unfold Editor.keepSelected
  split
  · exact h
  · refine h.keep rfl (fun _ => remember_history) ?_ ?_
    · exact h.manifest.subperm List.filter_sublist.subperm
    · intro hne
      have hpos := List.length_pos_iff.mpr hne
      simp only at hpos ⊢
      omega

theorem rangePart_pages {source : AssetRow} {part : Text} {pages : List Nat}
    (h : rangePartPages source part = .ok pages) : ∀ n ∈ pages, n < source.pageCount := by
  simp only [rangePartPages, bind_eq_ok, demand_eq_ok, refuse_eq_ok, exists_const, pure_eq_ok,
    Except.ok.injEq] at h
  obtain ⟨⟨first, last⟩, -, hrange, rfl⟩ := h
  intro n hn
  rw [List.mem_range'_1] at hn
  omega

theorem rangePages_eq_ok {source : AssetRow} {rangeText : Text} {pages : List Nat}
    (h : rangePages source rangeText = .ok pages) :
    pages ≠ [] ∧ pages.length ≤ maxPreparedPages ∧ ∀ n ∈ pages, n < source.pageCount := by
  simp only [rangePages, bind_eq_ok, refuse_eq_ok, exists_const, pure_eq_ok, Except.ok.injEq,
    not_or, not_lt] at h
  obtain ⟨parts, hparts, ⟨hne, hlength⟩, rfl⟩ := h
  refine ⟨hne, hlength, ?_⟩
  intro n hn
  obtain ⟨pages, hpages, hn⟩ := List.mem_flatten.mp hn
  obtain ⟨part, -, hpart⟩ := mem_of_mapM_eq_ok hparts hpages
  exact rangePart_pages hpart n hn

theorem zipWith_ids {source : Id} {ids : List Text} {pages : List Nat} :
    ((List.zipWith (fun id page => PageEdit.fresh id source page) ids pages).map
      PageEdit.id).Sublist ids := by
  induction ids generalizing pages with
  | nil => simp
  | cons id ids ih =>
    cases pages with
    | nil => simp
    | cons n pages => exact ih.cons_cons id

theorem Sound.useRange (h : σ.Sound validUUID) (rangeSourceId : Id) (rangeText : Text)
    {ids : List Text} (hids : Generates validUUID ids) :
    (σ.useRange rangeSourceId rangeText ids).Sound validUUID := by
  obtain ⟨hlength, hnodup, huuids⟩ := hids
  unfold Editor.useRange
  split
  · exact h
  · rename_i source hsource
    have ha : assetsOf σ.sources source.id = some source :=
      (assetsOf_eq_some h.sources).mpr ⟨List.mem_of_find?_eq_some hsource, rfl⟩
    split
    · exact h.keep rfl (fun _ => Or.inl) h.manifest h.selected
    · rename_i pages hpages
      obtain ⟨hne, hmax, hcount⟩ := rangePages_eq_ok hpages
      have hfresh : ∀ p ∈ List.zipWith (fun id page => PageEdit.fresh id source.id page) ids pages,
          ∃ id ∈ ids, ∃ n ∈ pages, p = PageEdit.fresh id source.id n := by
        intro p hp
        rw [← List.map_uncurry_zip_eq_zipWith] at hp
        obtain ⟨⟨id, n⟩, hmem, rfl⟩ := List.mem_map.mp hp
        exact ⟨id, (List.of_mem_zip hmem).1, n, (List.of_mem_zip hmem).2, rfl⟩
      refine h.keep rfl (fun _ => remember_history) ⟨rfl, ?_, ?_, ?_, ?_⟩ ?_
      · simp only [List.length_zipWith]
        omega
      · exact hnodup.sublist zipWith_ids
      · intro p hp
        obtain ⟨id, hid, n, hn, rfl⟩ := hfresh p hp
        exact huuids id hid
      · intro p hp
        obtain ⟨id, hid, n, hn, rfl⟩ := hfresh p hp
        exact validatePage_fresh ha (hcount n hn)
      · intro _
        have hpos := List.length_pos_iff.mpr hne
        simp only [List.length_zipWith, maxPreparedPages] at hlength ⊢
        omega

theorem Sound.sources_append (h : σ.Sound validUUID) (hnew : ∀ b ∈ σ.sources, b.id ≠ a.id) :
    ((σ.sources ++ [a]).map AssetRow.id).Nodup := by
  rw [List.map_append, List.nodup_append]
  refine ⟨h.sources, List.nodup_singleton _, ?_⟩
  intro id hid id' hid'
  obtain ⟨b, hb, rfl⟩ := List.mem_map.mp hid
  obtain rfl : id' = a.id := by simpa using hid'
  exact hnew b hb

theorem assetsOf_append (h : σ.Sound validUUID) (hnew : ∀ b ∈ σ.sources, b.id ≠ a.id) :
    assetsOf (σ.sources ++ [a]) a.id = some a ∧
      ∀ id b, assetsOf σ.sources id = some b → assetsOf (σ.sources ++ [a]) id = some b := by
  have hnodup := h.sources_append hnew
  constructor
  · exact (assetsOf_eq_some hnodup).mpr ⟨by simp, rfl⟩
  · intro id b hb
    obtain ⟨hmem, hid⟩ := (assetsOf_eq_some h.sources).mp hb
    exact (assetsOf_eq_some hnodup).mpr ⟨List.mem_append_left _ hmem, hid⟩

theorem findIdx_attached {pageIds : List Text} {target : Nat} (hp : p ∈ σ.manifest.pages)
    (htarget : (attachedManifest σ.manifest ⟨a.id, a.id, pageIds⟩ a.pageCount).pages.findIdx?
      (fun q => q.id == p.id) = some target) :
    ∃ q, σ.manifest.pages[target]? = some q ∧ q.id = p.id := by
  rw [attachedManifest, List.findIdx?_append] at htarget
  have hsome : (σ.manifest.pages.findIdx? fun q => q.id == p.id).isSome = true := by
    rw [List.findIdx?_isSome, List.any_eq_true]
    exact ⟨p, hp, by simp⟩
  obtain ⟨i, hi⟩ := Option.isSome_iff_exists.mp hsome
  obtain rfl : i = target := by simpa [hi] using htarget
  obtain ⟨hlt, hid, -⟩ := List.findIdx?_eq_some_iff_getElem.mp hi
  exact ⟨_, List.getElem?_eq_getElem hlt, by simpa using hid⟩

theorem filter_attached {pageIds : List Text}
    (hold : ∀ q ∈ σ.manifest.pages, q.sourceId ≠ a.id) :
    ((attachedManifest σ.manifest ⟨a.id, a.id, pageIds⟩ a.pageCount).pages.filter fun q =>
      q.sourceId != a.id) = σ.manifest.pages := by
  rw [attachedManifest, List.filter_append, List.filter_eq_self.mpr, List.filter_eq_nil_iff.mpr,
    List.append_nil]
  · intro q hq
    obtain ⟨id, -, n, -, rfl⟩ := freshPages_mem hq
    simp [PageEdit.fresh]
  · intro q hq
    simpa using hold q hq

theorem Sound.upload (h : σ.Sound validUUID) {incoming : AssetRow} {pageIds : List Text}
    {replace : Bool} (hgrants : σ.Grants validUUID (.upload incoming pageIds replace)) :
    (σ.upload validUUID incoming pageIds replace).Sound validUUID := by
  obtain ⟨⟨hlength, hnodup, huuids⟩, hnew, hsource, hcount⟩ := hgrants
  obtain ⟨ha, hmono⟩ := assetsOf_append h hsource
  have hvalid : ∀ m, EditManifest.Valid validUUID (assetsOf σ.sources) m →
      m.Valid validUUID (assetsOf (σ.sources ++ [incoming])) := by
    intro m hm
    apply hm.mono
    intro p hp a
    exact hmono p.sourceId a
  have hmanifest := hvalid _ h.manifest
  have hids : PageIds validUUID (Fresh.mk incoming.id incoming.id pageIds).pageIds :=
    ⟨hnodup, huuids⟩
  have hnext := hmanifest.attached ha rfl hids hnew
  have hhistory : ∀ m ∈ σ.remember.history, m.Valid validUUID (assetsOf (σ.sources ++ [incoming])) :=
    fun m hm => hvalid m (h.remember.history m hm)
  have hold : ∀ q ∈ σ.manifest.pages, q.sourceId ≠ incoming.id := by
    intro q hq
    obtain ⟨b, hb⟩ := validatePage_source (h.manifest.pages q hq)
    obtain ⟨hmem, hid⟩ := (assetsOf_eq_some h.sources).mp hb
    rw [← hid]
    exact hsource b hmem
  have hids := h.sources_append hsource
  unfold Editor.upload
  split
  · exact h
  · simp only
    split
    · refine ⟨hids, hnext, hhistory, ?_⟩
      intro hne
      have hpos := List.length_pos_iff.mpr hne
      simp only at hpos ⊢
      omega
    · rename_i p hp
      split at hp
      · have hmem := List.mem_of_getElem? (page_eq_some.mp hp).2
        split
        · rename_i hnone
          have hnot := List.findIdx?_eq_none_iff.mp hnone p (List.mem_append_left _ hmem)
          simp at hnot
        · rename_i target htarget
          obtain ⟨q, hq, hid⟩ := findIdx_attached hmem htarget
          rw [filter_attached hold]
          refine ⟨hids, ?_, hhistory, ?_⟩
          · exact hmanifest.set hq hid.symm (validatePage_fresh ha hcount)
          · intro hne
            have hpos := List.length_pos_iff.mpr hne
            simp only [withPages, List.length_set] at hpos ⊢
            omega
      · cases hp

end Methods

section Edges

variable {validUUID : Text → Bool} {σ σ' : Editor} {p : PageEdit} {a : AssetRow}

theorem EdgesFit.of_none (h : σ.handles = none) : σ.EdgesFit := by
  intro mode hmode
  rw [h] at hmode
  cases hmode

theorem EdgesFit.keep (h : σ.EdgesFit) (hsources : σ'.sources = σ.sources)
    (hpage : σ'.page = σ.page) (hhandles : σ'.handles = σ.handles)
    (hpending : σ'.pendingEdges = σ.pendingEdges) : σ'.EdgesFit := by
  intro mode hmode
  rw [hhandles] at hmode
  obtain ⟨p, a, hp, ha, heq, hfits⟩ := h mode hmode
  rw [hpage, hsources, hpending]
  exact ⟨p, a, hp, ha, heq, hfits⟩

theorem startingEdges_fit (h : p.Adjusted a) : Fits (edgeMode a) (startingEdges p) := by
  unfold startingEdges
  split
  · apply Fits.of_box
    unfold cropOf
    split
    · exact ⟨by simp, by simp, by simp, by simp, by norm_num, by norm_num⟩
    · rename_i hcrop
      exact box_of_cropBox (h.crop hcrop)
  · rename_i hcorners
    obtain ⟨hmime, hclockwise⟩ := h.corners hcorners
    rw [edgeMode, if_neg hmime]
    exact .corners hclockwise

/-- The server accepts edges that fit the page. -/
theorem withEdges_adjusted {points : List (List Rat)} {isPhoto : Bool} (h : p.Adjusted a)
    (hphoto : isPhoto = true ↔ a.mime ≠ .pdf) (hfits : Fits (edgeMode a) points) :
    (withEdges isPhoto points p).Adjusted a := by
  have hcrop : a.mime = .pdf → ∃ l t r b, Box l t r b ∧ points = rectangle l t r b := by
    intro hpdf
    rw [edgeMode, if_pos hpdf] at hfits
    cases hfits with
    | crop hbox => exact ⟨_, _, _, _, hbox, rfl⟩
  refine { h with scale := ?_, offset := ?_, output := ?_, crop := ?_, corners := ?_ }
  · simp [withEdges]
  · simp [withEdges]
  · simp [withEdges]
  · intro hne
    cases isPhoto with
    | true => exact absurd rfl hne
    | false =>
      obtain ⟨l, t, r, b, hbox, rfl⟩ := hcrop (by simpa using hphoto)
      exact hbox.cropBox
  · intro hne
    cases isPhoto with
    | true => exact ⟨hphoto.mp rfl, hfits.clockwise⟩
    | false => exact absurd rfl hne

theorem EdgesFit.beginEdges (h : σ.Sound validUUID) (hedges : σ.EdgesFit) :
    σ.beginEdges.EdgesFit := by
  unfold Editor.beginEdges
  split
  · exact hedges
  · rename_i p hp
    obtain ⟨a, ha, -, hadj⟩ := h.page hp
    intro mode hmode
    obtain rfl : (if σ.isPhoto then EdgeMode.corners else .crop) = mode := by simpa using hmode
    have hphoto := h.isPhoto hp ha
    have hmode' : (if σ.isPhoto then EdgeMode.corners else .crop) = edgeMode a := by
      cases hcase : σ.isPhoto <;> simp_all [edgeMode]
    refine ⟨p, a, hp, ha, hmode', ?_⟩
    rw [hmode']
    exact startingEdges_fit hadj

theorem EdgesFit.setEdge (h : σ.EdgesFit) (index : Nat) (x y : Rat) (asRectangle : Bool) :
    (σ.setEdge index x y asRectangle).EdgesFit := by
  unfold Editor.setEdge
  split
  · exact h
  · rename_i mode hmode
    split
    · exact h
    · split
      · exact h
      · rename_i next hnext
        intro mode' hmode'
        obtain rfl : mode = mode' := by simpa [hmode] using hmode'
        obtain ⟨p, a, hp, ha, heq, hfits⟩ := h mode hmode
        exact ⟨p, a, hp, ha, heq, hfits.moveEdgeCorner hnext⟩

theorem EdgesFit.resetPendingEdges (h : σ.EdgesFit) : σ.resetPendingEdges.EdgesFit := by
  intro mode hmode
  obtain ⟨p, a, hp, ha, heq, -⟩ := h mode hmode
  refine ⟨p, a, hp, ha, heq, .of_box ?_ mode⟩
  exact ⟨by norm_num, by norm_num, by norm_num, by norm_num, by norm_num, by norm_num⟩

theorem EdgesFit.resetAll (h : σ.EdgesFit) : σ.resetAll.EdgesFit := by
  intro mode hmode
  obtain ⟨p, a, hp, ha, heq, hfits⟩ := h mode hmode
  obtain ⟨hselected, hget⟩ := page_eq_some.mp hp
  refine ⟨plainPage p, a, page_eq_some.mpr ⟨hselected, ?_⟩, ha, heq, hfits⟩
  simp only [Editor.resetAll, List.getElem?_map]
  change (σ.manifest.pages[σ.selected.toNat]?).map plainPage = some (plainPage p)
  rw [hget, Option.map_some]

theorem Sound.beginEdges (h : σ.Sound validUUID) : σ.beginEdges.Sound validUUID := by
  unfold Editor.beginEdges
  split
  · exact h
  · exact h.keep rfl (fun _ => Or.inl) h.manifest h.selected

theorem Sound.setEdge (h : σ.Sound validUUID) (index : Nat) (x y : Rat) (asRectangle : Bool) :
    (σ.setEdge index x y asRectangle).Sound validUUID := by
  unfold Editor.setEdge
  split
  · exact h
  · split
    · exact h
    · split
      · exact h
      · exact h.keep rfl (fun _ => Or.inl) h.manifest h.selected

theorem Sound.applyEdges (h : σ.Sound validUUID) (hedges : σ.EdgesFit)
    (hhandles : σ.handles.isSome = true) : σ.applyEdges.Sound validUUID := by
  unfold Editor.applyEdges
  split
  · exact h
  · obtain ⟨mode, hmode⟩ := Option.isSome_iff_exists.mp hhandles
    obtain ⟨p, a, hp, ha, heq, hfits⟩ := hedges mode hmode
    have hphoto := h.isPhoto hp ha
    have hedit : (σ.remember.editPage (withEdges σ.isPhoto σ.pendingEdges)).Sound validUUID := by
      apply h.remember.editPage
      · intro p
        exact ⟨rfl, rfl, rfl⟩
      · intro p' a' hp' ha' hadj
        obtain rfl : p = p' := Option.some.inj (hp.symm.trans hp')
        obtain rfl : a = a' := Option.some.inj (ha.symm.trans ha')
        rw [heq] at hfits
        exact withEdges_adjusted hadj hphoto hfits
    exact hedit.keep rfl (fun _ => Or.inl) hedit.manifest hedit.selected

end Edges

section Steps

variable {s : Service} {validUUID : Text → Bool} {σ σ' : Editor} {e : Event} {r : Unit}

theorem handle_handles (h : σ.handles = none) (hbegin : e ≠ .beginEdges) :
    (σ.handle validUUID e).handles = none := by
  cases e with
  | beginEdges => exact absurd rfl hbegin
  | startGesture => simpa [handle] using h
  | endGesture | toggle _ | edgesReady | resetPendingEdges => exact h
  | resetAll => exact h
  | cancelEdges => rfl
  | changeMargin index mm =>
    simp only [handle, changeMargin]
    split <;> simp [h]
  | changeAngle value =>
    simp only [handle, changeAngle]
    split <;> simp [h]
  | rotate =>
    simp only [handle, rotate, endGesture]
    split <;> simp [h, remember]
  | changePaperStrength value =>
    simp only [handle, changePaperStrength]
    split <;> simp [h]
  | undo =>
    simp only [handle, undo]
    split <;> exact h
  | resetPage =>
    simp only [handle, resetPage]
    split
    · exact h
    · rfl
  | choose index =>
    simp only [handle, choose]
    split
    · exact h
    · rfl
  | moveEarlier | moveLater =>
    simp only [handle, move]
    split <;> exact h
  | remove =>
    simp only [handle, remove]
    split <;> exact h
  | keepSelected =>
    simp only [handle, keepSelected]
    split <;> exact h
  | dragCorner index x y shift =>
    simp only [handle, setEdge, h]
  | nudgeCorner index key shift =>
    simp only [handle, nudgeCorner, setEdge, h]
  | applyEdges =>
    simp only [handle, applyEdges]
    split
    · exact h
    · rfl
  | useRange rangeSourceId rangeText ids =>
    simp only [handle, useRange]
    split
    · exact h
    · split <;> exact h
  | upload incoming pageIds replace =>
    simp only [handle, upload]
    split
    · exact h
    · split
      · exact h
      · split <;> exact h

theorem handle_sound (h : σ.Sound validUUID) (hedges : σ.EdgesFit) (hoffers : σ.offers e = true)
    (hgrants : σ.Grants validUUID e) : (σ.handle validUUID e).Sound validUUID := by
  cases e with
  | startGesture => exact h.startGesture
  | changeMargin index mm => exact h.changeMargin index mm
  | changeAngle value => exact h.changeAngle value
  | rotate => exact h.rotate
  | changePaperStrength value => exact h.changePaperStrength value
  | undo =>
    simp only [offers, Bool.and_eq_true] at hoffers
    exact h.undo hoffers.1
  | resetPage => exact h.resetPage
  | resetAll => exact h.resetAll
  | choose index =>
    simp only [offers, Bool.and_eq_true, decide_eq_true_eq] at hoffers
    exact h.choose hoffers.2
  | moveEarlier => exact h.move (-1)
  | moveLater => exact h.move 1
  | remove => exact h.remove
  | keepSelected => exact h.keepSelected
  | applyEdges =>
    simp only [offers, Bool.and_eq_true] at hoffers
    exact h.applyEdges hedges hoffers.1.1
  | useRange rangeSourceId rangeText ids => exact h.useRange rangeSourceId rangeText hgrants
  | upload incoming pageIds replace => exact h.upload hgrants
  | dragCorner index x y shift => exact h.setEdge index x y shift
  | nudgeCorner index key shift => exact h.setEdge index _ _ shift
  | beginEdges => exact h.beginEdges
  | endGesture | toggle _ | edgesReady | resetPendingEdges | cancelEdges =>
    exact h.keep rfl (fun _ => Or.inl) h.manifest h.selected

theorem handle_edgesFit (h : σ.Sound validUUID) (hedges : σ.EdgesFit)
    (hoffers : σ.offers e = true) : (σ.handle validUUID e).EdgesFit := by
  cases hhandles : σ.handles with
  | none =>
    by_cases hbegin : e = .beginEdges
    · rw [hbegin]
      exact hedges.beginEdges h
    · exact .of_none (handle_handles hhandles hbegin)
  | some mode =>
    -- The template has disabled the other controls.
    have hediting : σ.editingEdges = true := by simp [editingEdges, hhandles]
    cases e with
    | dragCorner index x y shift => exact hedges.setEdge index x y shift
    | nudgeCorner index key shift => exact hedges.setEdge index _ _ shift
    | resetPendingEdges => exact hedges.resetPendingEdges
    | resetAll => exact hedges.resetAll
    | cancelEdges => exact .of_none rfl
    | applyEdges =>
      simp only [handle, applyEdges]
      split
      · exact hedges
      · exact .of_none rfl
    | endGesture | edgesReady => exact hedges.keep rfl rfl rfl rfl
    | _ => simp [offers, hediting] at hoffers

theorem step_eq_some : σ.step validUUID e = some (r, σ') ↔
    (σ.offers e = true ∧ σ.Grants validUUID e) ∧ σ.handle validUUID e = σ' := by
  simp [step]

theorem Sound.step (h : σ.Sound validUUID ∧ σ.EdgesFit) (hstep : σ.step validUUID e = some (r, σ')) :
    σ'.Sound validUUID ∧ σ'.EdgesFit := by
  obtain ⟨⟨hoffers, hgrants⟩, rfl⟩ := step_eq_some.mp hstep
  exact ⟨handle_sound h.1 h.2 hoffers hgrants, handle_edgesFit h.1 h.2 hoffers⟩

theorem Sound.opened {d : ImportDraft} (hsources : (d.sources.map AssetRow.id).Nodup)
    (h : d.row.manifest.Valid validUUID (assetsOf d.sources)) :
    (opened d).Sound validUUID := by
  refine ⟨hsources, h, by simp [Editor.opened], ?_⟩
  intro hne
  have hpos := List.length_pos_iff.mpr hne
  simp only [Editor.opened] at hpos ⊢
  omega

end Steps

end Editor

open Editor

/-- Whatever is done on the page, the server accepts the manifest. -/
theorem pages_accepted {s : Service} {owner id : Id} {now : Time} {db : Db} {d : ImportDraft}
    {t : List (Entry Editor Event Unit)} {σ : Editor} (hget : getImport s owner id now db = .ok d)
    (haccepted : validateManifest s.validUUID d.row.manifest d.sources true = .ok ⟨⟩)
    (hrun : Run (Editor.step s.validUUID) (opened d) t σ) :
    validateManifest s.validUUID σ.manifest σ.sources true = .ok ⟨⟩ := by
  have hsources : (d.sources.map AssetRow.id).Nodup := by
    rw [(Db.draftTx_eq_ok.mp hget).2.1]
    exact Db.nodup_draftAssets
  have hopened : (opened d).Sound s.validUUID :=
    .opened hsources (validateManifest_eq_ok.mp haccepted).1
  have hfit : (opened d).EdgesFit := .of_none rfl
  have hσ := hrun.invariant (P := fun σ => σ.Sound s.validUUID ∧ σ.EdgesFit) Sound.step
    ⟨hopened, hfit⟩
  exact validateManifest_eq_ok.mpr ⟨hσ.1.manifest, Or.inl rfl⟩

section Crop

def cropEvents : List Event :=
  [.beginEdges, .edgesReady, .dragCorner 0 (1 / 4) (1 / 3) false, .nudgeCorner 2 .left true,
    .applyEdges, .rotate, .changeMargin 0 80, .endGesture,
    .upload ⟨9, 1, 11, [], .pdf, 1, [], 1, 0, 0, 0⟩ (plainFresh 4).pageIds true, .undo]

def cropsTo (db : Db) (crop : List Rat) : Bool :=
  match getImport plainService 1 2 0 db with
  | .error _ => false
  | .ok d =>
    match validateManifest plainService.validUUID d.row.manifest d.sources true with
    | .error _ => false
    | .ok _ =>
      (replay (Editor.step plainService.validUUID) (opened d) cropEvents).any fun q =>
        q.2.manifest.pages.map PageEdit.crop == [crop]

theorem pages_accepted_cropped : ∃ db d t σ, getImport plainService 1 2 0 db = .ok d ∧
    Run (Editor.step plainService.validUUID) (opened d) t σ ∧
    σ.manifest.pages.map PageEdit.crop = [[1 / 4, 1 / 3, 99 / 100, 1]] ∧
    validateManifest plainService.validUUID σ.manifest σ.sources true = .ok ⟨⟩ := by
  obtain ⟨_, σ₀, -, hcrops⟩ : ∃ t₀ σ₀, Run (Sys.step plainService) emptyLibrary t₀ σ₀ ∧
      cropsTo σ₀.db [1 / 4, 1 / 3, 99 / 100, 1] = true :=
    exists_run (plainEvents.take 3) (by decide +kernel)
  unfold cropsTo at hcrops
  split at hcrops
  · cases hcrops
  · rename_i d hget
    split at hcrops
    · cases hcrops
    · rename_i u haccepted
      obtain ⟨t, σ, hrun, hcrop⟩ : ∃ t σ,
          Run (Editor.step plainService.validUUID) (opened d) t σ ∧
            (σ.manifest.pages.map PageEdit.crop == [[1 / 4, 1 / 3, 99 / 100, 1]]) = true :=
        exists_run cropEvents hcrops
      exact ⟨σ₀.db, d, t, σ, hget, hrun, beq_iff_eq.mp hcrop, pages_accepted hget haccepted hrun⟩

end Crop

end Noted.PageEditor
