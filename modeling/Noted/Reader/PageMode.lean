import Mathlib.Algebra.Order.Floor.Ring
import Mathlib.Algebra.Order.Field.Rat
import Mathlib.Tactic.Linarith
import Noted.Library.Since

/-!
# The page on the screen (reader.component.ts)

In page mode one page is drawn at a time, on a canvas of its own, and copied to the one on
the screen if it is still wanted when it is done. Turning the page, zooming, resizing,
switching the mode and loading the score again may all come while a page is drawn. The
template is refreshed in a step of its own, before a page that is being drawn is done and
before a score that is loading opens. A page of a score that was closed may be done without
having been drawn.
-/

namespace Noted.Reader

open Library

inductive ReaderMode
  | page
  | scroll
  deriving DecidableEq

structure Drawing where
  document : Nat
  page : Int
  width : Rat
  height : Rat
  deriving DecidableEq

inductive Shown
  | message
  | page (canvas : Nat) (drawn : Option Drawing)
  | scroll (first : Nat) (pages : Nat)
  deriving DecidableEq

/-- The steps of `load`: the piece and its state, then the PDF. -/
inductive LoadPhase
  | fetching
  | opening
  | done
  deriving DecidableEq

structure PageRender where
  canvas : Nat
  key : Int
  generation : Nat
  drawing : Drawing
  deriving DecidableEq

/-- The fields of the component that page mode reads or writes, the timeouts of `setMode`
and `load`, and whether the stage was resized and `ResizeObserver` has not yet said so. -/
structure PageReader where
  mode : ReaderMode
  currentPage : Int
  pages : Nat
  zoom : Rat
  load : LoadPhase
  error : Bool
  document : Nat
  clientWidth : Nat
  clientHeight : Nat
  resized : Bool
  shown : Shown
  canvases : Nat
  renderFrame : Bool
  scrollFrame : Bool
  timeouts : Nat
  pageRenderInFlight : Bool
  pageRenderPending : Bool
  renderGeneration : Nat
  renderedPage : Option (Int × Int)
  renders : List PageRender
  deriving DecidableEq

inductive PageEvent
  | turnPage (delta : Int)
  | changeZoom (delta : Rat)
  /-- `closest` is the page that `updateCurrentPage` finds closest to the top. -/
  | setMode (mode : ReaderMode) (closest : Nat)
  | scroll
  | scrollFrame (closest : Nat)
  | resize (clientWidth clientHeight : Nat)
  | observe
  | timeout
  | refresh
  | frame
  | drawn (render : PageRender)
  | failed (render : PageRender)
  | conflict
  | reload
  | fetched (mode : ReaderMode) (zoom : Rat)
  | opened (pages : Nat) (lastPage : Rat)
  | loadFailed
  deriving DecidableEq

def mathRound (x : Rat) : Int := (x + 1 / 2).floor

namespace PageReader

variable (σ : PageReader)

def loading : Bool := σ.load ≠ .done

def width : Rat := max 240 (((σ.clientWidth : Rat) - 24) * σ.zoom)

def height : Rat := max 240 (((σ.clientHeight : Rat) - 24) * σ.zoom)

def key : Int := mathRound (min σ.width σ.height)

/-- The template's branch is the one that the signals ask for. -/
def fresh : Bool :=
  if σ.loading || σ.error then σ.shown == .message
  else
    match σ.mode, σ.shown with
    | .page, .page _ _ => true
    | .scroll, .scroll _ pages => pages == σ.pages
    | _, _ => false

def first : Option Nat :=
  match σ.shown with
  | .message => none
  | .page canvas _ => some canvas
  | .scroll first pages => if pages = 0 then none else some first

def scheduleRender : PageReader :=
  if σ.renderFrame || σ.loading then σ else { σ with renderFrame := true }

def invalidate : PageReader :=
  { σ with renderGeneration := σ.renderGeneration + 1, renderedPage := none }

def clearVisiblePage : PageReader :=
  { σ with
    renderedPage := none
    shown :=
      match σ.mode, σ.shown with
      | .page, .page canvas _ => .page canvas none
      | _, shown => shown }

def updateCurrentPage (closest : Nat) : PageReader :=
  match σ.shown with
  | .scroll _ pages =>
    if 1 ≤ closest ∧ closest ≤ pages then { σ with currentPage := closest } else σ
  | _ => σ

def turnPage (delta : Int) : PageReader :=
  if σ.mode ≠ .page then σ
  else
    let next := min (σ.pages : Int) (max 1 (σ.currentPage + delta))
    if next = σ.currentPage then σ
    else { σ with currentPage := next }.clearVisiblePage.scheduleRender

def changeZoom (delta : Rat) : PageReader :=
  let next := min (5 / 2) (max (1 / 2) ((mathRound ((σ.zoom + delta) * 10) : Rat) / 10))
  if next = σ.zoom then σ else { σ with zoom := next }.invalidate.scheduleRender

def setMode (mode : ReaderMode) (closest : Nat) : PageReader :=
  if mode = σ.mode then σ
  else
    let σ := if σ.mode = .scroll then σ.updateCurrentPage closest else σ
    { σ.invalidate with mode := mode, timeouts := σ.timeouts + 1 }

/-- What the template becomes; canvases that come or go schedule a render. -/
def refresh : PageReader :=
  let shown : Shown :=
    if σ.loading || σ.error then .message
    else
      match σ.mode with
      | .page => .page σ.canvases none
      | .scroll => .scroll σ.canvases σ.pages
  { σ with shown := shown, canvases := σ.canvases + 1 }.scheduleRender

def drawing : Drawing := ⟨σ.document, σ.currentPage, σ.width, σ.height⟩

/-- `renderVisible`; its branch for scroll mode draws on the canvases of scroll mode. -/
def renderVisible : PageReader :=
  match σ.first with
  | none => σ
  | some canvas =>
    if σ.mode = .scroll then σ
    else if σ.pageRenderInFlight then { σ with pageRenderPending := true }
    else if σ.renderedPage = some (σ.currentPage, σ.key) then σ
    else
      let render := ⟨canvas, σ.key, σ.renderGeneration, σ.drawing⟩
      { σ.clearVisiblePage with
        pageRenderInFlight := true
        pageRenderPending := false
        renders := render :: σ.renders }

def wants (render : PageRender) : Bool :=
  σ.renderGeneration == render.generation && σ.mode == .page &&
    σ.currentPage == render.drawing.page && σ.key == render.key

def publish (render : PageRender) : PageReader :=
  if σ.wants render && σ.first == some render.canvas then
    { σ with
      shown := .page render.canvas (some render.drawing)
      renderedPage := some (render.drawing.page, render.key) }
  else σ

/-- The `finally` of `renderVisible`. -/
def finish (render : PageRender) : PageReader :=
  let σ := { σ with pageRenderInFlight := false, renders := σ.renders.erase render }
  if σ.pageRenderPending || !σ.wants render then
    { σ with pageRenderPending := false }.scheduleRender
  else σ

def step (σ : PageReader) (e : PageEvent) : Option (Unit × PageReader) :=
  match e with
  | .turnPage delta => some ((), σ.turnPage delta)
  | .changeZoom delta => some ((), σ.changeZoom delta)
  | .setMode mode closest => some ((), σ.setMode mode closest)
  | .scroll => some ((), if σ.mode = .scroll then { σ with scrollFrame := true } else σ)
  | .scrollFrame closest =>
    if σ.scrollFrame then
      some ((), ({ σ with scrollFrame := false }.updateCurrentPage closest).scheduleRender)
    else none
  | .resize clientWidth clientHeight =>
    some ((), { σ with clientWidth := clientWidth, clientHeight := clientHeight, resized := true })
  | .observe =>
    if σ.resized then some ((), { σ with resized := false }.invalidate.scheduleRender) else none
  | .timeout =>
    if 0 < σ.timeouts then some ((), { σ with timeouts := σ.timeouts - 1 }.scheduleRender)
    else none
  | .refresh => if σ.fresh then none else some ((), σ.refresh)
  | .frame =>
    if σ.renderFrame then some ((), { σ with renderFrame := false }.renderVisible) else none
  | .drawn render =>
    if render ∈ σ.renders ∧ σ.fresh then some ((), (σ.publish render).finish render) else none
  | .failed render =>
    if render ∈ σ.renders ∧ σ.fresh then some ((), σ.finish render) else none
  | .conflict => some ((), { σ with error := true })
  | .reload =>
    if σ.error && !σ.loading && σ.shown == .message then
      some ((), { σ.invalidate with load := .fetching, error := false })
    else none
  | .fetched mode zoom =>
    if σ.load = .fetching then
      some ((), { σ with load := .opening, mode := mode, zoom := min (5 / 2) (max (1 / 2) zoom) })
    else none
  | .opened pages lastPage =>
    if σ.load = .opening ∧ σ.fresh then
      some ((), { σ with
        load := .done
        document := σ.document + 1
        pages := pages
        currentPage := min (pages : Int) (max 1 (mathRound lastPage))
        timeouts := σ.timeouts + 1 })
    else none
  | .loadFailed =>
    if σ.loading then some ((), { σ with load := .done, error := true }) else none

/-- The component when `ngAfterViewInit` has begun its first load. -/
def opening (clientWidth clientHeight : Nat) : PageReader where
  mode := .page
  currentPage := 1
  pages := 0
  zoom := 1
  load := .fetching
  error := false
  document := 0
  clientWidth := clientWidth
  clientHeight := clientHeight
  resized := true
  shown := .message
  canvases := 0
  renderFrame := false
  scrollFrame := false
  timeouts := 0
  pageRenderInFlight := false
  pageRenderPending := false
  renderGeneration := 1
  renderedPage := none
  renders := []

/-- One page is drawn at a time, what is on the canvas is the current page, and what is
recorded as rendered, or would be published, is what is asked for now. -/
structure Sound : Prop where
  single : (σ.renders = [] ∧ σ.pageRenderInFlight = false ∧ σ.pageRenderPending = false) ∨
    ∃ render, σ.renders = [render] ∧ σ.pageRenderInFlight = true
  message : σ.loading = true → σ.shown = .message ∧ σ.renderedPage = none
  drawn : ∀ canvas d, σ.shown = .page canvas (some d) →
    d.page = σ.currentPage ∧ d.document = σ.document
  rendered : ∀ page key, σ.renderedPage = some (page, key) →
    σ.error = true ∨ σ.mode = .page ∧ ∃ canvas d, σ.shown = .page canvas (some d) ∧
      key = mathRound (min d.width d.height) ∧
        (σ.resized = true ∨ d.width = σ.width ∧ d.height = σ.height)
  current : ∀ render ∈ σ.renders, render.generation ≤ σ.renderGeneration ∧
    render.key = mathRound (min render.drawing.width render.drawing.height) ∧
      (render.generation = σ.renderGeneration → σ.loading = false ∧ σ.mode = .page ∧
        render.drawing.document = σ.document ∧
          (σ.resized = true ∨ render.drawing.width = σ.width ∧ render.drawing.height = σ.height))

variable {σ} {σ' : PageReader} {e : PageEvent} {render : PageRender}

theorem Sound.scheduleRender (h : σ.Sound) : σ.scheduleRender.Sound := by
  unfold PageReader.scheduleRender
  split
  · exact h
  · exact ⟨h.single, h.message, h.drawn, h.rendered, h.current⟩

theorem Sound.older (h : σ.Sound) (hrender : render ∈ σ.renders) :
    render.generation ≠ σ.renderGeneration + 1 :=
  Nat.ne_of_lt (Nat.lt_succ_of_le (h.current render hrender).1)

theorem Sound.stale (h : σ.Sound) (hloading : σ.loading = true) (hrender : render ∈ σ.renders) :
    render.generation ≠ σ.renderGeneration := by
  intro hsame
  obtain ⟨hidle, -⟩ := (h.current render hrender).2.2 hsame
  exact absurd (hloading.symm.trans hidle) (by simp)

theorem Sound.invalidate (h : σ.Sound) : σ.invalidate.Sound where
  single := h.single
  message hloading := ⟨(h.message hloading).1, rfl⟩
  drawn := h.drawn
  rendered page key hrendered := by cases hrendered
  current render hrender := by
    obtain ⟨hle, hkey, -⟩ := h.current render hrender
    exact ⟨Nat.le_succ_of_le hle, hkey, fun hsame => absurd hsame (h.older hrender)⟩

theorem clearVisiblePage_shown (hmode : σ.mode = .page) :
    σ.clearVisiblePage.shown = .message ∧ σ.shown = .message ∨
      (∃ canvas drawn, σ.clearVisiblePage.shown = .page canvas none ∧
        σ.shown = .page canvas drawn) ∨
      ∃ first pages, σ.clearVisiblePage.shown = .scroll first pages ∧
        σ.shown = .scroll first pages := by
  unfold clearVisiblePage
  rw [hmode]
  cases hshown : σ.shown with
  | message => exact Or.inl ⟨rfl, rfl⟩
  | page canvas drawn => exact Or.inr (Or.inl ⟨canvas, drawn, rfl, rfl⟩)
  | scroll first pages => exact Or.inr (Or.inr ⟨first, pages, rfl, rfl⟩)

theorem Sound.clear (h : σ.Sound) (hmode : σ.mode = .page) (page : Int) :
    ({ σ with currentPage := page }.clearVisiblePage).Sound where
  single := h.single
  message hloading := by
    refine ⟨?_, rfl⟩
    obtain ⟨hshown, -⟩ | ⟨canvas, drawn, -, hshown⟩ | ⟨first, pages, -, hshown⟩ :=
      clearVisiblePage_shown (σ := { σ with currentPage := page }) hmode
    · exact hshown
    · exact absurd ((h.message hloading).1.symm.trans hshown) (by simp)
    · exact absurd ((h.message hloading).1.symm.trans hshown) (by simp)
  drawn canvas d hd := by
    obtain ⟨hshown, -⟩ | ⟨canvas, drawn, hshown, -⟩ | ⟨first, pages, hshown, -⟩ :=
      clearVisiblePage_shown (σ := { σ with currentPage := page }) hmode
    · exact absurd (hshown.symm.trans hd) (by simp)
    · exact absurd (hshown.symm.trans hd) (by simp)
    · exact absurd (hshown.symm.trans hd) (by simp)
  rendered page key hrendered := by cases hrendered
  current := h.current

theorem Sound.turnPage (h : σ.Sound) (delta : Int) : (σ.turnPage delta).Sound := by
  unfold PageReader.turnPage
  split
  · exact h
  · rename_i hmode
    dsimp only
    split
    · exact h
    · exact (h.clear (not_not.mp hmode) _).scheduleRender

theorem Sound.changeZoom (h : σ.Sound) (delta : Rat) : (σ.changeZoom delta).Sound := by
  unfold PageReader.changeZoom
  dsimp only
  split
  · exact h
  · refine Sound.scheduleRender ⟨h.single, ?_, h.drawn, ?_, ?_⟩
    · exact fun hloading => ⟨(h.message hloading).1, rfl⟩
    · exact fun page key hrendered => by cases hrendered
    · intro render hrender
      obtain ⟨hle, hkey, hnew⟩ := h.invalidate.current render hrender
      exact ⟨hle, hkey, fun hsame => absurd hsame (h.older hrender)⟩

theorem Sound.updateCurrentPage (h : σ.Sound) (closest : Nat) :
    (σ.updateCurrentPage closest).Sound := by
  unfold PageReader.updateCurrentPage
  split
  · rename_i first pages hshown
    split
    · refine ⟨h.single, h.message, ?_, h.rendered, h.current⟩
      intro canvas d hd
      exact absurd (hshown.symm.trans hd) (by simp)
    · exact h
  · exact h

theorem Sound.setMode (h : σ.Sound) (mode : ReaderMode) (closest : Nat) :
    (σ.setMode mode closest).Sound := by
  have hset : ∀ {τ : PageReader}, τ.Sound →
      ({ τ.invalidate with mode := mode, timeouts := τ.timeouts + 1 } : PageReader).Sound := by
    intro τ hτ
    refine ⟨hτ.single, hτ.invalidate.message, hτ.drawn, fun page key hp => (by cases hp), ?_⟩
    exact fun render hrender => ⟨Nat.le_succ_of_le (hτ.current render hrender).1,
      (hτ.current render hrender).2.1, fun hsame => absurd hsame (hτ.older hrender)⟩
  unfold PageReader.setMode
  split
  · exact h
  · dsimp only
    split
    · exact hset (h.updateCurrentPage closest)
    · exact hset h

theorem Sound.refresh (h : σ.Sound) (hfresh : σ.fresh = false) : σ.refresh.Sound := by
  have hrendered : σ.error = false → σ.renderedPage = none := by
    intro herror
    cases hpage : σ.renderedPage with
    | none => rfl
    | some page =>
      obtain herr | ⟨hmode, canvas, d, hshown, -⟩ := h.rendered page.1 page.2 hpage
      · rw [herror] at herr
        cases herr
      · have hloading : σ.loading = false := by
          cases hl : σ.loading with
          | false => rfl
          | true =>
            rw [(h.message hl).2] at hpage
            cases hpage
        simp [fresh, hloading, herror, hmode, hshown] at hfresh
  refine Sound.scheduleRender ⟨h.single, ?_, ?_, ?_, h.current⟩
  · intro hloading
    have hloading' : σ.loading = true := hloading
    exact ⟨by simp [hloading'], (h.message hloading).2⟩
  · intro canvas d hd
    dsimp only at hd
    split at hd
    · cases hd
    · cases hmode : σ.mode with
      | page => simp [hmode] at hd
      | scroll => simp [hmode] at hd
  · intro page key hpage
    cases herror : σ.error with
    | true => exact Or.inl rfl
    | false =>
      rw [show σ.renderedPage = some (page, key) from hpage] at hrendered
      cases hrendered herror

theorem page_of_not_scroll (h : ¬σ.mode = .scroll) : σ.mode = .page := by
  cases hmode : σ.mode with
  | page => rfl
  | scroll => exact absurd hmode h

theorem Sound.idle (h : σ.Sound) (hflight : ¬σ.pageRenderInFlight = true) : σ.renders = [] := by
  obtain ⟨hnone, -⟩ | ⟨render, -, hon⟩ := h.single
  · exact hnone
  · exact absurd hon hflight

theorem Sound.renderVisible (h : σ.Sound) : σ.renderVisible.Sound := by
  unfold PageReader.renderVisible
  split
  · exact h
  · rename_i canvas hfirst
    split
    · exact h
    · rename_i hmode
      split
      · rename_i hflight
        refine ⟨?_, h.message, h.drawn, h.rendered, h.current⟩
        obtain ⟨-, hidle, -⟩ | ⟨render, hrender, -⟩ := h.single
        · rw [hflight] at hidle
          cases hidle
        · exact Or.inr ⟨render, hrender, hflight⟩
      · rename_i hflight
        split
        · exact h
        · have hpage := page_of_not_scroll hmode
          have hidle := h.idle hflight
          have hloading : σ.loading = false := by
            cases hl : σ.loading with
            | false => rfl
            | true =>
              rw [first, (h.message hl).1] at hfirst
              cases hfirst
          have hclear := h.clear hpage σ.currentPage
          refine ⟨Or.inr ⟨_, by rw [hidle], rfl⟩, hclear.message, hclear.drawn, hclear.rendered, ?_⟩
          intro render hrender
          obtain rfl | hold := List.mem_cons.mp hrender
          · exact ⟨Nat.le_refl _, rfl, fun _ => ⟨hloading, hpage, rfl, Or.inr ⟨rfl, rfl⟩⟩⟩
          · exact h.current render hold

theorem wants_iff : σ.wants render = true ↔ σ.renderGeneration = render.generation ∧
    σ.mode = .page ∧ σ.currentPage = render.drawing.page ∧ σ.key = render.key := by
  simp [wants, and_assoc]

theorem Sound.publish (h : σ.Sound) (hrender : render ∈ σ.renders) : (σ.publish render).Sound := by
  unfold PageReader.publish
  split
  · rename_i hcond
    rw [Bool.and_eq_true, wants_iff] at hcond
    obtain ⟨⟨hgeneration, hmode, hpage, -⟩, -⟩ := hcond
    obtain ⟨-, hkey, hcurrent⟩ := h.current render hrender
    obtain ⟨hloading, -, hdocument, hsize⟩ := hcurrent hgeneration.symm
    refine ⟨h.single, ?_, ?_, ?_, h.current⟩
    · intro hl
      exact absurd (hloading.symm.trans hl) (by simp)
    · intro canvas d hd
      obtain ⟨-, heq⟩ := Shown.page.inj hd
      obtain rfl := Option.some.inj heq
      exact ⟨hpage.symm, hdocument⟩
    · intro page key hp
      obtain ⟨-, rfl⟩ := Prod.mk.inj (Option.some.inj hp)
      exact Or.inr ⟨hmode, _, _, rfl, hkey, hsize⟩
  · exact h

theorem publish_renders : (σ.publish render).renders = σ.renders := by
  unfold publish
  split
  · rfl
  · rfl

theorem Sound.erase (h : σ.Sound) (hrender : render ∈ σ.renders) : σ.renders.erase render = [] := by
  obtain ⟨hno, -⟩ | ⟨only, honly, -⟩ := h.single
  · rw [hno] at hrender
    cases hrender
  · rw [honly] at hrender ⊢
    obtain rfl := List.mem_singleton.mp hrender
    simp

theorem Sound.finish (h : σ.Sound) (hrender : render ∈ σ.renders) : (σ.finish render).Sound := by
  have hnone := h.erase hrender
  unfold PageReader.finish
  dsimp only
  rw [hnone]
  split
  · refine Sound.scheduleRender ⟨Or.inl ⟨rfl, rfl, rfl⟩, h.message, h.drawn, h.rendered, ?_⟩
    intro r hr
    cases hr
  · rename_i hcond
    simp only [Bool.or_eq_true, not_or, Bool.not_eq_true] at hcond
    refine ⟨Or.inl ⟨rfl, rfl, hcond.1⟩, h.message, h.drawn, h.rendered, ?_⟩
    intro r hr
    cases hr

theorem Sound.step {r : Unit} (h : σ.Sound) (hstep : σ.step e = some (r, σ')) : σ'.Sound := by
  cases e with
  | turnPage delta =>
    obtain ⟨-, rfl⟩ := Prod.mk.inj (Option.some.inj hstep)
    exact h.turnPage delta
  | changeZoom delta =>
    obtain ⟨-, rfl⟩ := Prod.mk.inj (Option.some.inj hstep)
    exact h.changeZoom delta
  | setMode mode closest =>
    obtain ⟨-, rfl⟩ := Prod.mk.inj (Option.some.inj hstep)
    exact h.setMode mode closest
  | scroll =>
    obtain ⟨-, rfl⟩ := Prod.mk.inj (Option.some.inj hstep)
    split
    · exact ⟨h.single, h.message, h.drawn, h.rendered, h.current⟩
    · exact h
  | scrollFrame closest =>
    simp only [PageReader.step] at hstep
    split at hstep
    · obtain ⟨-, rfl⟩ := Prod.mk.inj (Option.some.inj hstep)
      have hcleared : ({ σ with scrollFrame := false } : PageReader).Sound :=
        ⟨h.single, h.message, h.drawn, h.rendered, h.current⟩
      exact (hcleared.updateCurrentPage closest).scheduleRender
    · cases hstep
  | resize clientWidth clientHeight =>
    obtain ⟨-, rfl⟩ := Prod.mk.inj (Option.some.inj hstep)
    refine ⟨h.single, h.message, h.drawn, ?_, ?_⟩
    · intro page key hp
      obtain herror | ⟨hmode, canvas, d, hshown, hkey, -⟩ := h.rendered page key hp
      · exact Or.inl herror
      · exact Or.inr ⟨hmode, canvas, d, hshown, hkey, Or.inl rfl⟩
    · intro render hrender
      obtain ⟨hle, hkey, hcurrent⟩ := h.current render hrender
      refine ⟨hle, hkey, fun hsame => ?_⟩
      obtain ⟨hloading, hmode, hdocument, -⟩ := hcurrent hsame
      exact ⟨hloading, hmode, hdocument, Or.inl rfl⟩
  | observe =>
    simp only [PageReader.step] at hstep
    split at hstep
    · obtain ⟨-, rfl⟩ := Prod.mk.inj (Option.some.inj hstep)
      refine Sound.scheduleRender ⟨h.single, h.invalidate.message, h.drawn, ?_, ?_⟩
      · rintro page key ⟨⟩
      · intro render hrender
        obtain ⟨hle, hkey, -⟩ := h.invalidate.current render hrender
        exact ⟨hle, hkey, fun hsame => absurd hsame (h.older hrender)⟩
    · cases hstep
  | timeout =>
    simp only [PageReader.step] at hstep
    split at hstep
    · obtain ⟨-, rfl⟩ := Prod.mk.inj (Option.some.inj hstep)
      exact Sound.scheduleRender ⟨h.single, h.message, h.drawn, h.rendered, h.current⟩
    · cases hstep
  | refresh =>
    simp only [PageReader.step] at hstep
    split at hstep
    · cases hstep
    · rename_i hfresh
      obtain ⟨-, rfl⟩ := Prod.mk.inj (Option.some.inj hstep)
      exact h.refresh (Bool.not_eq_true _ ▸ hfresh)
  | frame =>
    simp only [PageReader.step] at hstep
    split at hstep
    · obtain ⟨-, rfl⟩ := Prod.mk.inj (Option.some.inj hstep)
      exact Sound.renderVisible ⟨h.single, h.message, h.drawn, h.rendered, h.current⟩
    · cases hstep
  | drawn render =>
    simp only [PageReader.step] at hstep
    split at hstep
    · rename_i hcond
      obtain ⟨-, rfl⟩ := Prod.mk.inj (Option.some.inj hstep)
      refine (h.publish hcond.1).finish ?_
      rw [publish_renders]
      exact hcond.1
    · cases hstep
  | failed render =>
    simp only [PageReader.step] at hstep
    split at hstep
    · rename_i hcond
      obtain ⟨-, rfl⟩ := Prod.mk.inj (Option.some.inj hstep)
      exact h.finish hcond.1
    · cases hstep
  | conflict =>
    obtain ⟨-, rfl⟩ := Prod.mk.inj (Option.some.inj hstep)
    exact ⟨h.single, h.message, h.drawn, fun _ _ _ => Or.inl rfl, h.current⟩
  | reload =>
    simp only [PageReader.step] at hstep
    split at hstep
    · rename_i hcond
      obtain ⟨-, rfl⟩ := Prod.mk.inj (Option.some.inj hstep)
      rw [Bool.and_eq_true, beq_iff_eq] at hcond
      refine ⟨h.single, fun _ => ⟨hcond.2, rfl⟩, h.drawn, by rintro page key ⟨⟩, ?_⟩
      intro render hrender
      obtain ⟨hle, hkey, -⟩ := h.invalidate.current render hrender
      exact ⟨hle, hkey, fun hsame => absurd hsame (h.older hrender)⟩
    · cases hstep
  | fetched mode zoom =>
    simp only [PageReader.step] at hstep
    split at hstep
    · rename_i hload
      obtain ⟨-, rfl⟩ := Prod.mk.inj (Option.some.inj hstep)
      have hloading : σ.loading = true := by simp [loading, hload]
      obtain ⟨hshown, hnone⟩ := h.message hloading
      refine ⟨h.single, fun _ => ⟨hshown, hnone⟩, ?_, ?_, ?_⟩
      · intro canvas d hd
        exact absurd (hshown.symm.trans hd) (by simp)
      · intro page key hp
        exact absurd (hnone.symm.trans hp) (by simp)
      · intro render hrender
        obtain ⟨hle, hkey, -⟩ := h.current render hrender
        exact ⟨hle, hkey, fun hsame => absurd hsame (h.stale hloading hrender)⟩
    · cases hstep
  | opened pages lastPage =>
    simp only [PageReader.step] at hstep
    split at hstep
    · rename_i hcond
      obtain ⟨-, rfl⟩ := Prod.mk.inj (Option.some.inj hstep)
      have hloading : σ.loading = true := by simp [loading, hcond.1]
      obtain ⟨hshown, hnone⟩ := h.message hloading
      refine ⟨h.single, fun _ => ⟨hshown, hnone⟩, ?_, ?_, ?_⟩
      · intro canvas d hd
        exact absurd (hshown.symm.trans hd) (by simp)
      · intro page key hp
        exact absurd (hnone.symm.trans hp) (by simp)
      · intro render hrender
        obtain ⟨hle, hkey, -⟩ := h.current render hrender
        exact ⟨hle, hkey, fun hsame => absurd hsame (h.stale hloading hrender)⟩
    · cases hstep
  | loadFailed =>
    simp only [PageReader.step] at hstep
    split at hstep
    · rename_i hloading
      obtain ⟨-, rfl⟩ := Prod.mk.inj (Option.some.inj hstep)
      refine ⟨h.single, by rintro ⟨⟩, h.drawn, fun _ _ _ => Or.inl rfl, ?_⟩
      intro render hrender
      obtain ⟨hle, hkey, -⟩ := h.current render hrender
      exact ⟨hle, hkey, fun hsame => absurd hsame (h.stale hloading hrender)⟩
    · cases hstep

/-- A render whose canvas is no longer the first will be followed by another. -/
def Placed (σ : PageReader) : Prop :=
  ∀ render ∈ σ.renders, render.generation = σ.renderGeneration →
    σ.error = true ∨ ∃ canvas, σ.first = some canvas ∧
      (canvas = render.canvas ∨ σ.renderFrame = true ∨ σ.pageRenderPending = true)

theorem Placed.mono (h : σ.Placed) (hrenders : σ'.renders ⊆ σ.renders)
    (hgeneration : σ'.renderGeneration = σ.renderGeneration)
    (herror : σ.error = true → σ'.error = true) (hfirst : σ'.first = σ.first)
    (hframe : σ.renderFrame = true → σ'.renderFrame = true)
    (hpending : σ'.pageRenderPending = σ.pageRenderPending) : σ'.Placed := by
  intro render hrender hsame
  obtain herr | ⟨canvas, hc, hkept⟩ := h render (hrenders hrender) (hsame.trans hgeneration)
  · exact Or.inl (herror herr)
  · refine Or.inr ⟨canvas, hfirst.trans hc, ?_⟩
    rw [hpending]
    exact hkept.imp_right (Or.imp_left hframe)

theorem Sound.placed (h : σ.Sound) (hrenders : σ'.renders = σ.renders)
    (hgeneration : σ'.renderGeneration = σ.renderGeneration + 1) : σ'.Placed := by
  intro render hrender hsame
  rw [hrenders] at hrender
  exact absurd (hsame.trans hgeneration) (h.older hrender)

theorem Placed.scheduleRender (h : σ.Placed) : σ.scheduleRender.Placed := by
  unfold PageReader.scheduleRender
  split
  · exact h
  · exact h.mono (List.Subset.refl _) rfl id rfl (fun _ => rfl) rfl

theorem first_clear (hmode : σ.mode = .page) (page : Int) :
    ({ σ with currentPage := page }.clearVisiblePage).first = σ.first := by
  obtain ⟨hnew, hold⟩ | ⟨canvas, drawn, hnew, hold⟩ | ⟨head, pages, hnew, hold⟩ :=
    clearVisiblePage_shown (σ := { σ with currentPage := page }) hmode
  · rw [first, first, hnew, show σ.shown = .message from hold]
  · rw [first, first, hnew, show σ.shown = .page canvas drawn from hold]
  · rw [first, first, hnew, show σ.shown = .scroll head pages from hold]

theorem updateCurrentPage_cases (closest : Nat) :
    σ.updateCurrentPage closest = σ ∨ ∃ page : Int,
      σ.updateCurrentPage closest = { σ with currentPage := page } := by
  unfold updateCurrentPage
  split
  · split
    · exact Or.inr ⟨_, rfl⟩
    · exact Or.inl rfl
  · exact Or.inl rfl

theorem Placed.updateCurrentPage (h : σ.Placed) (closest : Nat) :
    (σ.updateCurrentPage closest).Placed := by
  obtain heq | ⟨page, heq⟩ := updateCurrentPage_cases (σ := σ) closest
  · rwa [heq]
  · rw [heq]
    exact h

/-- The frame that was to place it anew finds a render under way, and asks for another. -/
theorem placed_renderVisible (hsound : σ.Sound)
    (h : ∀ render ∈ σ.renders, render.generation = σ.renderGeneration →
      σ.error = true ∨ σ.first ≠ none) : σ.renderVisible.Placed := by
  unfold PageReader.renderVisible
  split
  · rename_i hfirst
    exact fun render hrender hsame => (h render hrender hsame).imp id fun hsome =>
      absurd hfirst hsome
  · rename_i canvas hfirst
    split
    · rename_i hmode
      intro render hrender hsame
      have hpage := ((hsound.current render hrender).2.2 hsame).2.1
      exact absurd (hpage.symm.trans hmode) (by simp)
    · rename_i hmode
      split
      · exact fun render hrender hsame => Or.inr ⟨canvas, hfirst, Or.inr (Or.inr rfl)⟩
      · rename_i hflight
        have hnone := hsound.idle hflight
        split
        · intro render hrender
          rw [hnone] at hrender
          cases hrender
        · intro render hrender hsame
          rw [hnone] at hrender
          obtain rfl := List.mem_singleton.mp hrender
          refine Or.inr ⟨canvas, ?_, Or.inl rfl⟩
          exact (first_clear (page_of_not_scroll hmode) σ.currentPage).trans hfirst

theorem Placed.finish (hsound : σ.Sound) (hrender : render ∈ σ.renders) :
    (σ.finish render).Placed := by
  intro other hother
  have hnone := hsound.erase hrender
  unfold PageReader.finish PageReader.scheduleRender at hother
  rw [hnone] at hother
  dsimp only at hother
  split at hother
  · split at hother
    · cases hother
    · cases hother
  · cases hother

theorem scheduleRender_frame (h : σ.scheduleRender.renderFrame = false) : σ.loading = true := by
  unfold scheduleRender at h
  split at h
  · rename_i hcond
    rw [Bool.or_eq_true] at hcond
    obtain hframe | hloading := hcond
    · rw [hframe] at h
      cases h
    · exact hloading
  · cases h

theorem scheduleRender_loading : σ.scheduleRender.loading = σ.loading := by
  unfold scheduleRender
  split
  · rfl
  · rfl

theorem Placed.refresh (hsound : σ.Sound) : σ.refresh.Placed := by
  intro render hrender hsame
  have hframe : ∀ {τ : PageReader}, τ.loading = false → τ.scheduleRender.renderFrame = true := by
    intro τ hτ
    cases hf : τ.scheduleRender.renderFrame with
    | true => rfl
    | false => exact absurd (hτ.symm.trans (scheduleRender_frame hf)) (by simp)
  have hkept : ∀ τ : PageReader, τ.scheduleRender.renders = τ.renders ∧
      τ.scheduleRender.renderGeneration = τ.renderGeneration ∧
        τ.scheduleRender.error = τ.error ∧ τ.scheduleRender.first = τ.first := by
    intro τ
    unfold PageReader.scheduleRender
    split
    · exact ⟨rfl, rfl, rfl, rfl⟩
    · exact ⟨rfl, rfl, rfl, rfl⟩
  unfold PageReader.refresh at hrender hsame ⊢
  dsimp only at hrender hsame ⊢
  obtain ⟨hr, hg, he, hf⟩ := hkept _
  rw [hr] at hrender
  rw [hg] at hsame
  rw [he, hf]
  obtain ⟨-, -, hcurrent⟩ := hsound.current render hrender
  obtain ⟨hloading, hmode, -⟩ := hcurrent hsame
  cases herror : σ.error with
  | true => exact Or.inl rfl
  | false =>
    refine Or.inr ⟨σ.canvases, ?_, Or.inr (Or.inl (hframe hloading))⟩
    simp [first, hloading, hmode]

theorem Placed.step {r : Unit} (hsound : σ.Sound) (h : σ.Placed) (hstep : σ.step e = some (r, σ')) :
    σ'.Placed := by
  cases e with
  | turnPage delta =>
    obtain ⟨-, rfl⟩ := Prod.mk.inj (Option.some.inj hstep)
    unfold PageReader.turnPage
    split
    · exact h
    · rename_i hmode
      dsimp only
      split
      · exact h
      · refine Placed.scheduleRender (h.mono (List.Subset.refl _) rfl id ?_ id rfl)
        exact first_clear (not_not.mp hmode) _
  | changeZoom delta =>
    obtain ⟨-, rfl⟩ := Prod.mk.inj (Option.some.inj hstep)
    unfold PageReader.changeZoom
    dsimp only
    split
    · exact h
    · exact Placed.scheduleRender (hsound.placed rfl rfl)
  | setMode mode closest =>
    obtain ⟨-, rfl⟩ := Prod.mk.inj (Option.some.inj hstep)
    unfold PageReader.setMode
    split
    · exact h
    · dsimp only
      split
      · exact (hsound.updateCurrentPage closest).placed rfl rfl
      · exact hsound.placed rfl rfl
  | scroll =>
    obtain ⟨-, rfl⟩ := Prod.mk.inj (Option.some.inj hstep)
    split
    · exact h
    · exact h
  | scrollFrame closest =>
    simp only [PageReader.step] at hstep
    split at hstep
    · obtain ⟨-, rfl⟩ := Prod.mk.inj (Option.some.inj hstep)
      have hcleared : ({ σ with scrollFrame := false } : PageReader).Placed := h
      exact (hcleared.updateCurrentPage closest).scheduleRender
    · cases hstep
  | resize clientWidth clientHeight =>
    obtain ⟨-, rfl⟩ := Prod.mk.inj (Option.some.inj hstep)
    exact h
  | observe =>
    simp only [PageReader.step] at hstep
    split at hstep
    · obtain ⟨-, rfl⟩ := Prod.mk.inj (Option.some.inj hstep)
      exact Placed.scheduleRender (hsound.placed rfl rfl)
    · cases hstep
  | timeout =>
    simp only [PageReader.step] at hstep
    split at hstep
    · obtain ⟨-, rfl⟩ := Prod.mk.inj (Option.some.inj hstep)
      have hcleared : ({ σ with timeouts := σ.timeouts - 1 } : PageReader).Placed := h
      exact hcleared.scheduleRender
    · cases hstep
  | refresh =>
    simp only [PageReader.step] at hstep
    split at hstep
    · cases hstep
    · obtain ⟨-, rfl⟩ := Prod.mk.inj (Option.some.inj hstep)
      exact Placed.refresh hsound
  | frame =>
    simp only [PageReader.step] at hstep
    split at hstep
    · obtain ⟨-, rfl⟩ := Prod.mk.inj (Option.some.inj hstep)
      refine placed_renderVisible
        ⟨hsound.single, hsound.message, hsound.drawn, hsound.rendered, hsound.current⟩ ?_
      intro render hrender hsame
      refine (h render hrender hsame).imp id fun hkept => ?_
      obtain ⟨canvas, hfirst, -⟩ := hkept
      exact fun hnone => absurd (hfirst.symm.trans hnone) (by simp)
    · cases hstep
  | drawn render =>
    simp only [PageReader.step] at hstep
    split at hstep
    · rename_i hcond
      obtain ⟨-, rfl⟩ := Prod.mk.inj (Option.some.inj hstep)
      refine Placed.finish (hsound.publish hcond.1) ?_
      rw [publish_renders]
      exact hcond.1
    · cases hstep
  | failed render =>
    simp only [PageReader.step] at hstep
    split at hstep
    · rename_i hcond
      obtain ⟨-, rfl⟩ := Prod.mk.inj (Option.some.inj hstep)
      exact Placed.finish hsound hcond.1
    · cases hstep
  | conflict =>
    obtain ⟨-, rfl⟩ := Prod.mk.inj (Option.some.inj hstep)
    exact fun _ _ _ => Or.inl rfl
  | reload =>
    simp only [PageReader.step] at hstep
    split at hstep
    · obtain ⟨-, rfl⟩ := Prod.mk.inj (Option.some.inj hstep)
      exact hsound.placed rfl rfl
    · cases hstep
  | fetched mode zoom =>
    simp only [PageReader.step] at hstep
    split at hstep
    · obtain ⟨-, rfl⟩ := Prod.mk.inj (Option.some.inj hstep)
      exact h
    · cases hstep
  | opened pages lastPage =>
    simp only [PageReader.step] at hstep
    split at hstep
    · obtain ⟨-, rfl⟩ := Prod.mk.inj (Option.some.inj hstep)
      exact h
    · cases hstep
  | loadFailed =>
    simp only [PageReader.step] at hstep
    split at hstep
    · obtain ⟨-, rfl⟩ := Prod.mk.inj (Option.some.inj hstep)
      exact fun _ _ _ => Or.inl rfl
    · cases hstep

/-- The score is open in page mode, and no page is drawn or about to be. -/
structure Rests (σ : PageReader) : Prop where
  mode : σ.mode = .page
  loading : σ.loading = false
  error : σ.error = false
  fresh : σ.fresh = true
  frame : σ.renderFrame = false
  timeouts : σ.timeouts = 0
  resized : σ.resized = false
  renders : σ.renders = []

/-- The current page is not drawn, and nothing will draw it. -/
structure Stalled (page key : Int) (σ : PageReader) : Prop extends Rests σ where
  asked : σ.currentPage = page ∧ σ.key = key
  rendered : σ.renderedPage ≠ some (page, key)

variable {page key : Int}

theorem not_stalled_scheduleRender : ¬Stalled page key σ.scheduleRender := by
  intro h
  have hloading := scheduleRender_frame h.frame
  rw [← scheduleRender_loading, h.loading] at hloading
  cases hloading

theorem not_stalled_renderVisible (hsound : σ.Sound) : ¬Stalled page key σ.renderVisible := by
  intro h
  unfold PageReader.renderVisible at h
  split at h
  · rename_i hfirst
    have hfresh := h.fresh
    simp only [fresh, h.loading, h.error, h.mode, Bool.or_self, Bool.false_eq_true,
      if_false] at hfresh
    cases hshown : σ.shown with
    | message => simp [hshown] at hfresh
    | page canvas drawn => simp [first, hshown] at hfirst
    | scroll head pages => simp [hshown] at hfresh
  · split at h
    · rename_i hmode
      exact absurd (h.mode.symm.trans hmode) (by simp)
    · split at h
      · rename_i hflight
        obtain ⟨-, hidle, -⟩ | ⟨render, hrender, -⟩ := hsound.single
        · exact absurd (hidle.symm.trans hflight) (by simp)
        · exact absurd (hrender.symm.trans h.renders) (by simp)
      · split at h
        · rename_i hrendered
          rw [h.asked.1, h.asked.2] at hrendered
          exact h.rendered hrendered
        · exact absurd h.renders (by simp)

theorem stalled_finish (h : Stalled page key (σ.finish render)) :
    σ.wants render = true ∧ σ.pageRenderPending = false ∧
      σ.finish render =
        { σ with pageRenderInFlight := false, renders := σ.renders.erase render } := by
  unfold PageReader.finish at h ⊢
  dsimp only at h ⊢
  split at h
  · exact absurd h not_stalled_scheduleRender
  · rename_i hcond
    rw [if_neg hcond]
    simp only [Bool.or_eq_true, not_or, Bool.not_eq_true, Bool.not_eq_false'] at hcond
    exact ⟨hcond.2, hcond.1, rfl⟩

theorem not_stalled_publish (hplaced : σ.Placed) (hrender : render ∈ σ.renders)
    (hwants : (σ.publish render).wants render = true)
    (hpending : (σ.publish render).pageRenderPending = false) :
    ¬Stalled page key { σ.publish render with
      pageRenderInFlight := false
      renders := (σ.publish render).renders.erase render } := by
  intro h
  obtain ⟨-, -, hpage, hkey⟩ := wants_iff.mp hwants
  unfold PageReader.publish at h hwants hpending hpage hkey
  split at h
  · rename_i hcond
    rw [if_pos hcond] at hpage hkey
    refine h.rendered ?_
    rw [← h.asked.1, ← h.asked.2]
    exact congrArg some (Prod.ext hpage.symm hkey.symm)
  · rename_i hcond
    rw [if_neg hcond] at hwants hpending
    obtain ⟨hgeneration, -⟩ := wants_iff.mp hwants
    obtain herror | ⟨canvas, hfirst, rfl | hframe | hmore⟩ :=
      hplaced render hrender hgeneration.symm
    · exact absurd (h.error.symm.trans herror) (by simp)
    · simp [hwants, hfirst] at hcond
    · exact absurd (h.frame.symm.trans hframe) (by simp)
    · exact absurd (hpending.symm.trans hmore) (by simp)

theorem stalled_step {r : Unit} (hsound : σ.Sound) (hplaced : σ.Placed)
    (hstep : σ.step e = some (r, σ')) (h : Stalled page key σ') :
    (∃ render, e = .failed render ∧ render.drawing.page = page ∧ render.key = key) ∨
      Stalled page key σ := by
  cases e with
  | turnPage delta =>
    obtain ⟨-, rfl⟩ := Prod.mk.inj (Option.some.inj hstep)
    unfold PageReader.turnPage at h
    split at h
    · exact Or.inr h
    · dsimp only at h
      split at h
      · exact Or.inr h
      · exact absurd h not_stalled_scheduleRender
  | changeZoom delta =>
    obtain ⟨-, rfl⟩ := Prod.mk.inj (Option.some.inj hstep)
    unfold PageReader.changeZoom at h
    dsimp only at h
    split at h
    · exact Or.inr h
    · exact absurd h not_stalled_scheduleRender
  | setMode mode closest =>
    obtain ⟨-, rfl⟩ := Prod.mk.inj (Option.some.inj hstep)
    unfold PageReader.setMode at h
    split at h
    · exact Or.inr h
    · exact absurd h.timeouts (by simp)
  | scroll =>
    obtain ⟨-, rfl⟩ := Prod.mk.inj (Option.some.inj hstep)
    split at h
    · rename_i hmode
      exact absurd (h.mode.symm.trans hmode) (by simp)
    · exact Or.inr h
  | scrollFrame closest =>
    simp only [PageReader.step] at hstep
    split at hstep
    · obtain ⟨-, rfl⟩ := Prod.mk.inj (Option.some.inj hstep)
      exact absurd h not_stalled_scheduleRender
    · cases hstep
  | resize clientWidth clientHeight =>
    obtain ⟨-, rfl⟩ := Prod.mk.inj (Option.some.inj hstep)
    exact absurd h.resized (by simp)
  | observe =>
    simp only [PageReader.step] at hstep
    split at hstep
    · obtain ⟨-, rfl⟩ := Prod.mk.inj (Option.some.inj hstep)
      exact absurd h not_stalled_scheduleRender
    · cases hstep
  | timeout =>
    simp only [PageReader.step] at hstep
    split at hstep
    · obtain ⟨-, rfl⟩ := Prod.mk.inj (Option.some.inj hstep)
      exact absurd h not_stalled_scheduleRender
    · cases hstep
  | refresh =>
    simp only [PageReader.step] at hstep
    split at hstep
    · cases hstep
    · obtain ⟨-, rfl⟩ := Prod.mk.inj (Option.some.inj hstep)
      exact absurd h not_stalled_scheduleRender
  | frame =>
    simp only [PageReader.step] at hstep
    split at hstep
    · obtain ⟨-, rfl⟩ := Prod.mk.inj (Option.some.inj hstep)
      refine absurd h (not_stalled_renderVisible ?_)
      exact ⟨hsound.single, hsound.message, hsound.drawn, hsound.rendered, hsound.current⟩
    · cases hstep
  | drawn render =>
    simp only [PageReader.step] at hstep
    split at hstep
    · rename_i hcond
      obtain ⟨-, rfl⟩ := Prod.mk.inj (Option.some.inj hstep)
      obtain ⟨hwants, hpending, heq⟩ := stalled_finish h
      rw [heq] at h
      exact absurd h (not_stalled_publish hplaced hcond.1 hwants hpending)
    · cases hstep
  | failed render =>
    simp only [PageReader.step] at hstep
    split at hstep
    · obtain ⟨-, rfl⟩ := Prod.mk.inj (Option.some.inj hstep)
      obtain ⟨hwants, -, heq⟩ := stalled_finish h
      rw [heq] at h
      obtain ⟨-, -, hpage, hkey⟩ := wants_iff.mp hwants
      exact Or.inl ⟨render, rfl, hpage.symm.trans h.asked.1, hkey.symm.trans h.asked.2⟩
    · cases hstep
  | conflict =>
    obtain ⟨-, rfl⟩ := Prod.mk.inj (Option.some.inj hstep)
    exact absurd h.error (by simp)
  | reload =>
    simp only [PageReader.step] at hstep
    split at hstep
    · obtain ⟨-, rfl⟩ := Prod.mk.inj (Option.some.inj hstep)
      exact absurd h.loading (by simp [loading])
    · cases hstep
  | fetched mode zoom =>
    simp only [PageReader.step] at hstep
    split at hstep
    · obtain ⟨-, rfl⟩ := Prod.mk.inj (Option.some.inj hstep)
      exact absurd h.loading (by simp [loading])
    · cases hstep
  | opened pages lastPage =>
    simp only [PageReader.step] at hstep
    split at hstep
    · obtain ⟨-, rfl⟩ := Prod.mk.inj (Option.some.inj hstep)
      exact absurd h.timeouts (by simp)
    · cases hstep
  | loadFailed =>
    simp only [PageReader.step] at hstep
    split at hstep
    · obtain ⟨-, rfl⟩ := Prod.mk.inj (Option.some.inj hstep)
      exact absurd h.error (by simp)
    · cases hstep

theorem sound_opening (clientWidth clientHeight : Nat) :
    (opening clientWidth clientHeight).Sound where
  single := Or.inl ⟨rfl, rfl, rfl⟩
  message _ := ⟨rfl, rfl⟩
  drawn canvas d hd := by cases hd
  rendered page key hp := by cases hp
  current render hrender := by cases hrender

variable {clientWidth clientHeight : Nat} {t : List (Entry PageReader PageEvent Unit)}

theorem opening_kept :
    (opening clientWidth clientHeight).Sound ∧ (opening clientWidth clientHeight).Placed :=
  ⟨sound_opening _ _, fun _ hrender _ => by cases hrender⟩

theorem sound_run (h : Run step (opening clientWidth clientHeight) t σ) : σ.Sound ∧ σ.Placed :=
  h.invariant (P := fun τ => τ.Sound ∧ τ.Placed)
    (fun hkept hstep => ⟨hkept.1.step hstep, hkept.2.step hkept.1 hstep⟩) opening_kept

/-- At most one page is drawn at a time, what is on the canvas is the current page of the
score that is open, and where no page is drawn or about to be, it is drawn in the size that
is asked for now, unless drawing it has failed and not been tried again. -/
theorem page_shown (hrun : Run step (opening clientWidth clientHeight) t σ) :
    σ.renders.length ≤ 1 ∧
      (∀ canvas d, σ.shown = .page canvas (some d) →
        d.page = σ.currentPage ∧ d.document = σ.document) ∧
      (σ.Rests → (∃ canvas, σ.shown = .page canvas (some σ.drawing)) ∨
        Since (fun x => ∃ render, x.event = .failed render ∧
          render.drawing.page = σ.currentPage ∧ render.key = σ.key)
          (fun x => x.after.renders ≠ []) t) := by
  obtain ⟨hsound, -⟩ := sound_run hrun
  refine ⟨?_, hsound.drawn, fun hrests => ?_⟩
  · obtain ⟨hnone, -⟩ | ⟨render, hone, -⟩ := hsound.single
    · simp [hnone]
    · simp [hone]
  · by_cases hrendered : σ.renderedPage = some (σ.currentPage, σ.key)
    · obtain herror | ⟨-, canvas, d, hshown, -, hsize⟩ := hsound.rendered _ _ hrendered
      · exact absurd (hrests.error.symm.trans herror) (by simp)
      · obtain hresized | ⟨hwidth, hheight⟩ := hsize
        · exact absurd (hrests.resized.symm.trans hresized) (by simp)
        · obtain ⟨hpage, hdocument⟩ := hsound.drawn canvas d hshown
          have hd : d = σ.drawing := by
            cases d
            exact congr (congr (congr (congrArg Drawing.mk hdocument) hpage) hwidth) hheight
          exact Or.inl ⟨canvas, hd ▸ hshown⟩
    · refine Or.inr (hrun.since (I := fun τ => τ.Sound ∧ τ.Placed)
        (P := Stalled σ.currentPage σ.key) ?_ ?_ ?_ ?_ ⟨hrests, ⟨rfl, rfl⟩, hrendered⟩)
      · exact fun hkept hstep => ⟨hkept.1.step hstep, hkept.2.step hkept.1 hstep⟩
      · intro τ e r τ' hkept hstep hstalled
        refine (stalled_step hkept.1 hkept.2 hstep hstalled).imp id fun hbefore => ?_
        exact ⟨hbefore, fun hnew => hnew hstalled.renders⟩
      · exact opening_kept
      · exact fun hstalled => absurd hstalled.loading (by simp [loading, opening])

def turnedRender (page : Int) : PageRender := ⟨0, 600, 2, ⟨1, page, 800, 600⟩⟩

def turnedEvents : List PageEvent :=
  [.observe, .fetched .page 1, .opened 3 1, .refresh, .frame, .timeout, .turnPage 1, .frame,
    .drawn (turnedRender 1), .frame, .drawn (turnedRender 2)]

theorem page_shown_example : ∃ t σ, Run step (opening 824 624) t σ ∧ σ.Rests ∧
    σ.currentPage = 2 ∧ ((∃ canvas, σ.shown = .page canvas (some σ.drawing)) ∨
      Since (fun x => ∃ render, x.event = .failed render ∧
        render.drawing.page = σ.currentPage ∧ render.key = σ.key)
        (fun x => x.after.renders ≠ []) t) := by
  obtain ⟨t, σ, hrun, hp⟩ : ∃ t σ, Run step (opening 824 624) t σ ∧
      decide (σ.mode = .page ∧ σ.loading = false ∧ σ.error = false ∧ σ.fresh = true ∧
        σ.renderFrame = false ∧ σ.timeouts = 0 ∧ σ.resized = false ∧ σ.renders = [] ∧
          σ.currentPage = 2) = true :=
    exists_run turnedEvents (by decide +kernel)
  obtain ⟨hmode, hloading, herror, hfresh, hframe, htimeouts, hresized, hrenders, hpage⟩ :=
    of_decide_eq_true hp
  have hrests : σ.Rests :=
    ⟨hmode, hloading, herror, hfresh, hframe, htimeouts, hresized, hrenders⟩
  exact ⟨t, σ, hrun, hrests, hpage, (page_shown hrun).2.2 hrests⟩

end PageReader

end Noted.Reader
