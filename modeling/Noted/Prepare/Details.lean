import Noted.Imslp.Files
import Noted.Revisions

/-!
# The details of a draft (prepare-imslp.ts, prepare.component.ts)

The page holds a copy of the draft. It fills the title and the composer from a work
until the user edits them, saves the draft with its revision, and takes the
server's draft over after an upload. The server is the whole service, whose steps go
on between those of the page. The parser of `new URL` is a parameter.
-/

namespace Noted.Prepare

open Library

section Names

def decodeRunes : Nat → List UInt8 → Option Text
  | _, [] => some []
  | skip + 1, _ :: bytes => decodeRunes skip bytes
  | 0, b :: bytes => do
    let c ← decodeRune (b :: bytes)
    let rest ← decodeRunes (c.utf8Size - 1) bytes
    pure (c :: rest)

def decodeURIComponent (text : Text) : Option Text :=
  (Url.unescape .path text).bind (decodeRunes 0)

/-- `name.replace(/\s*\([^)]*\)$/, '')` -/
def workTitle (name : Text) : Text :=
  if name.getLast? = some ')' then
    let body := name.dropLast
    let last := (body.reverse.takeWhile (· ≠ ')')).reverse
    let before := body.take (body.length - last.length)
    if '(' ∈ last then (before ++ last.takeWhile (· ≠ '(')).rdropWhile jsSpace else name
  else name

def workComposer (name : Text) : Text :=
  match Url.cutLast '(' name with
  | none => []
  | some (_, rest) =>
    if rest.getLast? = some ')' ∧ Imslp.isComposerName rest.dropLast = true then rest.dropLast else []

structure WebURL where
  protocol : Text
  username : Text
  password : Text
  host : Text
  pathname : Text
  href : Text
  deriving DecidableEq

end Names

inductive Field
  | title
  | composer
  deriving DecidableEq

namespace Field

def get (f : Field) (m : PieceInput) : Text :=
  match f with
  | title => m.title
  | composer => m.composer

def set (f : Field) (value : Text) (m : PieceInput) : PieceInput :=
  match f with
  | title => { m with title := value }
  | composer => { m with composer := value }

def owned (f : Field) (p : IMSLPAutoFill) : Option Text :=
  match f with
  | title => p.title
  | composer => p.composer

def edited (f : Field) (p : IMSLPAutoFill) : Bool :=
  match f with
  | title => p.titleEdited
  | composer => p.composerEdited

def own (f : Field) (value : Option Text) (p : IMSLPAutoFill) : IMSLPAutoFill :=
  match f with
  | title => { p with title := value }
  | composer => { p with composer := value }

def markEdited (f : Field) (p : IMSLPAutoFill) : IMSLPAutoFill :=
  match f with
  | title => { p with titleEdited := true }
  | composer => { p with composerEdited := true }

end Field

section Metadata

def prefillIMSLPField (f : Field) (value : Text) (d : DraftMetadata) : DraftMetadata :=
  if f.edited d.provenance = true then d
  else if f.get d.input = [] ∨ f.owned d.provenance = some (f.get d.input) then
    { d with input := f.set value d.input, provenance := f.own (some value) d.provenance }
  else { d with provenance := f.own none d.provenance }

def isWorkURL (url : WebURL) : Bool :=
  url.protocol == "https:".toList &&
    (url.host == "imslp.org".toList || url.host == "www.imslp.org".toList) &&
    "/wiki/".toList.isPrefixOf url.pathname && url.username == [] && url.password == []

/-- The field is prefilled by another work, or when nobody has filled it yet. -/
def prefillLinked (changedWork : Bool) (f : Field) (value : Text) (d : DraftMetadata) :
    DraftMetadata :=
  if changedWork = true ∨ (f.get d.input = [] ∧ f.owned d.provenance = none) then
    prefillIMSLPField f value d
  else d

/-- The link is stored before its path is decoded, and stays when that throws. -/
def linkIMSLPWork (newURL : Text → Option WebURL) (link : Text) (d : DraftMetadata) :
    DraftMetadata × Option Text :=
  match newURL link with
  | none => (d, none)
  | some url =>
    if isWorkURL url = false then (d, none)
    else
      let changedWork := d.input.sourceURL != url.href
      let d := { d with input := { d.input with sourceURL := url.href } }
      match decodeURIComponent (url.pathname.drop 6) with
      | none => (d, none)
      | some name =>
        let name := name.map fun c => if c = '_' then ' ' else c
        (prefillLinked changedWork .composer (workComposer name)
          (prefillLinked changedWork .title (workTitle name) d), some url.href)

def selectWork (work : IMSLPWork Char) (d : DraftMetadata) : DraftMetadata :=
  prefillIMSLPField .composer work.composer
    (prefillIMSLPField .title work.title
      { d with input := { d.input with sourceURL := work.url } })

inductive Edit
  | name (f : Field) (value : Text)
  | favorite (value : Bool)
  | sourceURL (value : Text)
  | listeningURL (value : Text)
  | notes (value : Text)
  | opus (value : Text)
  | musicKey (value : Text)
  | status (value : Option Text)
  | aliases (value : Text)
  deriving DecidableEq

def Edit.apply (edit : Edit) (m : PieceInput) : PieceInput :=
  match edit with
  | name f value => f.set value m
  | favorite value => { m with favorite := value }
  | sourceURL value => { m with sourceURL := value }
  | listeningURL value => { m with listeningURL := value }
  | notes value => { m with notes := value }
  | opus value => { m with opus := value }
  | musicKey value => { m with musicKey := value }
  | status value => { m with status := value }
  | aliases value => { m with aliases := value }

def updateMetadata (edit : Edit) (d : DraftMetadata) : DraftMetadata :=
  { d with
    input := edit.apply d.input
    provenance :=
      match edit with
      | .name f _ => f.markEdited (f.own none d.provenance)
      | _ => d.provenance }

end Metadata

/-- The page's copy of the draft; while it uploads, its inputs are disabled. -/
structure Page where
  draft : DraftRow
  dirty : Bool
  uploading : Bool

def Page.request (p : Page) : UpdateImport :=
  ⟨p.draft.revision, p.draft.metadata.input, p.draft.metadata.provenance, p.draft.manifest⟩

def Page.mark (p : Page) (metadata : DraftMetadata) : Page :=
  { p with draft := { p.draft with metadata := metadata }, dirty := true }

structure Desk where
  server : Sys
  page : Option Page

inductive Event
  | server (e : Noted.Event)
  | load (id : Id)
  | updateMetadata (edit : Edit)
  | selectWork (work : IMSLPWork Char)
  | linkWork (link : Text)
  | changePages (manifest : EditManifest)
  | persist (fresh : Fresh)
  | beginUpload (filename : Text) (data : Bytes) (key : Key)
  | endUpload (f : Flight) (fresh : Fresh)
  | dropUpload

namespace Desk

variable (s : Service) (newURL : Text → Option WebURL) (owner : Id) (σ : Desk)

def idle : Option Page := σ.page.filter fun p => !p.uploading && !p.draft.finalized

def withPage (p : Page) : Desk := { σ with page := some p }

def load (id : Id) : Response × Desk :=
  match getImport s owner id σ.server.clock σ.server.db with
  | .error e => (.failed e, σ)
  | .ok d => (.done, σ.withPage ⟨d.row, false, false⟩)

/-- After `updateImport` the page has the new revision and its own details. -/
def saved (p : Page) (r : Response) (server : Sys) : Response × Desk :=
  match r, getImport s owner p.draft.id server.clock server.db with
  | .done, .ok d =>
    (.done, ⟨server, some { p with
      draft := { p.draft with revision := d.row.revision, updatedAt := d.row.updatedAt }
      dirty := false }⟩)
  | r, _ => (r, ⟨server, some p⟩)

def uploaded (p : Page) (r : Response) (server : Sys) : Response × Desk :=
  match r, getImport s owner p.draft.id server.clock server.db with
  | .done, .ok d => (.done, ⟨server, some ⟨d.row, false, false⟩⟩)
  | r, _ => (r, ⟨server, some { p with uploading := false }⟩)

def awaits (p : Page) (f : Flight) : Bool :=
  p.uploading && f.owner == owner &&
    match f.upload with
    | .attach id _ revision _ => id == p.draft.id && revision == p.draft.revision
    | .finalize _ _ _ => false

def step (σ : Desk) (e : Event) : Option (Response × Desk) :=
  match e with
  | .server e => do
    let (r, server) ← Sys.step s σ.server e
    pure (r, { σ with server := server })
  | .load id => some (σ.load s owner id)
  | .updateMetadata edit => do
    let p ← σ.idle
    pure (.done, σ.withPage (p.mark (Prepare.updateMetadata edit p.draft.metadata)))
  | .selectWork work => do
    let p ← σ.idle
    pure (.done, σ.withPage (p.mark (Prepare.selectWork work p.draft.metadata)))
  | .linkWork link => do
    let p ← σ.idle
    match linkIMSLPWork newURL link p.draft.metadata with
    | (metadata, some _) => pure (.done, σ.withPage (p.mark metadata))
    | (metadata, none) =>
      pure (.failed (.invalid "Use an HTTPS work link from imslp.org/wiki/."),
        σ.withPage { p with draft := { p.draft with metadata := metadata } })
  | .changePages manifest => do
    let p ← σ.idle
    pure (.done, σ.withPage { p with draft := { p.draft with manifest := manifest }, dirty := true })
  | .persist fresh => do
    let p ← σ.idle
    if p.dirty = false then pure (.done, σ)
    else
      let (r, server) ← Sys.step s σ.server (.call (.updateImport owner p.draft.id p.request) fresh)
      pure (saved s owner p r server)
  | .beginUpload filename data key => do
    let p ← σ.idle
    if p.dirty = true then none
    else
      let (r, server) ← Sys.step s σ.server
        (.beginAttach owner p.draft.id filename p.draft.revision data key)
      pure (r, ⟨server, some { p with uploading := r == .done }⟩)
  | .endUpload f fresh => do
    let p ← σ.page
    if awaits owner p f = false then none
    else
      let (r, server) ← Sys.step s σ.server (.commit f fresh)
      pure (uploaded s owner p r server)
  | .dropUpload => do
    let p ← σ.page
    pure (.failed .database, σ.withPage { p with uploading := false })

end Desk

namespace Field

variable (f g : Field) (value : Text) (m : PieceInput) (p : IMSLPAutoFill)

theorem get_set : f.get (g.set value m) = if f = g then value else f.get m := by
  cases f <;> cases g <;> rfl

theorem owned_own (value : Option Text) :
    f.owned (g.own value p) = if f = g then value else f.owned p := by
  cases f <;> cases g <;> rfl

@[simp] theorem edited_own (value : Option Text) : f.edited (g.own value p) = f.edited p := by
  cases f <;> cases g <;> rfl

theorem edited_markEdited : f.edited (g.markEdited p) = if f = g then true else f.edited p := by
  cases f <;> cases g <;> rfl

@[simp] theorem owned_markEdited : f.owned (g.markEdited p) = f.owned p := by
  cases f <;> cases g <;> rfl

end Field

section Ownership

variable {d d' : DraftMetadata} {f g : Field} {value v : Text}

/-- A value that IMSLP gave is the field's, and the user has not edited it. -/
def Owned (d : DraftMetadata) : Prop :=
  ∀ f v, Field.owned f d.provenance = some v → v = f.get d.input ∧ f.edited d.provenance = false

structure Typed (f : Field) (v : Text) (d : DraftMetadata) : Prop where
  edited : f.edited d.provenance = true
  value : f.get d.input = v

structure Agrees (d d' : DraftMetadata) : Prop where
  provenance : d.provenance = d'.provenance
  fields : ∀ f : Field, f.get d.input = f.get d'.input

theorem Agrees.typed (h : Agrees d d') (ht : Typed f v d') : Typed f v d :=
  ⟨h.provenance ▸ ht.edited, (h.fields f).trans ht.value⟩

theorem Owned.of_agrees (h : Owned d) (hagrees : Agrees d' d) : Owned d' := by
  intro f v hv
  rw [hagrees.provenance] at hv ⊢
  rw [hagrees.fields]
  exact h f v hv

theorem prefill_owned (h : Owned d) : Owned (prefillIMSLPField f value d) := by
  unfold prefillIMSLPField
  split_ifs with hedited hfree
  · exact h
  · intro g v hv
    simp only [Field.owned_own, Field.get_set, Field.edited_own] at hv ⊢
    split_ifs at hv ⊢ with hg
    · subst hg
      exact ⟨(Option.some.inj hv).symm, Bool.eq_false_of_not_eq_true hedited⟩
    · exact h g v hv
  · intro g v hv
    simp only [Field.owned_own, Field.edited_own] at hv ⊢
    split_ifs at hv with hg
    exact h g v hv

theorem prefill_typed (h : Typed g v d) : Typed g v (prefillIMSLPField f value d) := by
  unfold prefillIMSLPField
  split_ifs with hedited hfree
  · exact h
  · have hg : g ≠ f := by
      rintro rfl
      exact hedited h.edited
    refine ⟨by simpa using h.edited, ?_⟩
    rw [Field.get_set, if_neg hg]
    exact h.value
  · exact ⟨by simpa using h.edited, h.value⟩

theorem prefillLinked_owned {changedWork : Bool} (h : Owned d) :
    Owned (prefillLinked changedWork f value d) := by
  unfold prefillLinked
  split_ifs
  · exact prefill_owned h
  · exact h

theorem prefillLinked_typed {changedWork : Bool} (h : Typed g v d) :
    Typed g v (prefillLinked changedWork f value d) := by
  unfold prefillLinked
  split_ifs
  · exact prefill_typed h
  · exact h

theorem agrees_sourceURL (url : Text) :
    Agrees { d with input := { d.input with sourceURL := url } } d := by
  refine ⟨rfl, ?_⟩
  intro f
  cases f <;> rfl

theorem selectWork_owned {work : IMSLPWork Char} (h : Owned d) : Owned (selectWork work d) :=
  prefill_owned (prefill_owned (h.of_agrees (agrees_sourceURL work.url)))

theorem selectWork_typed {work : IMSLPWork Char} (h : Typed g v d) : Typed g v (selectWork work d) :=
  prefill_typed (prefill_typed ((agrees_sourceURL work.url).typed h))

/-- A link changes the details as a work does, or not at all, or only the link. -/
theorem linkIMSLPWork_cases (newURL : Text → Option WebURL) (link : Text) (d : DraftMetadata) :
    ((linkIMSLPWork newURL link d).2 = none ∧ Agrees (linkIMSLPWork newURL link d).1 d) ∨
      ∃ url changedWork title composer, linkIMSLPWork newURL link d =
        (prefillLinked changedWork .composer composer (prefillLinked changedWork .title title
          { d with input := { d.input with sourceURL := url } }), some url) := by
  unfold linkIMSLPWork
  split
  · exact Or.inl ⟨rfl, rfl, fun _ => rfl⟩
  · rename_i url hurl
    split_ifs
    · exact Or.inl ⟨rfl, rfl, fun _ => rfl⟩
    · dsimp only
      split
      · exact Or.inl ⟨rfl, agrees_sourceURL url.href⟩
      · exact Or.inr ⟨_, _, _, _, rfl⟩

theorem linkIMSLPWork_owned {newURL : Text → Option WebURL} {link : Text} (h : Owned d) :
    Owned (linkIMSLPWork newURL link d).1 := by
  obtain ⟨-, hagrees⟩ | ⟨url, changedWork, title, composer, heq⟩ :=
    linkIMSLPWork_cases newURL link d
  · exact h.of_agrees hagrees
  · rw [heq]
    exact prefillLinked_owned (prefillLinked_owned (h.of_agrees (agrees_sourceURL url)))

theorem linkIMSLPWork_typed {newURL : Text → Option WebURL} {link : Text} (h : Typed g v d) :
    Typed g v (linkIMSLPWork newURL link d).1 := by
  obtain ⟨-, hagrees⟩ | ⟨url, changedWork, title, composer, heq⟩ :=
    linkIMSLPWork_cases newURL link d
  · exact hagrees.typed h
  · rw [heq]
    exact prefillLinked_typed (prefillLinked_typed ((agrees_sourceURL url).typed h))

theorem updateMetadata_owned {edit : Edit} (h : Owned d) : Owned (updateMetadata edit d) := by
  cases edit with
  | name f value =>
    intro g v hv
    simp only [updateMetadata, Edit.apply, Field.owned_markEdited, Field.owned_own, Field.get_set,
      Field.edited_markEdited, Field.edited_own] at hv ⊢
    split_ifs at hv ⊢ with hg
    exact h g v hv
  | _ =>
    apply h.of_agrees
    refine ⟨rfl, ?_⟩
    intro f
    cases f <;> rfl

theorem updateMetadata_typed {edit : Edit} (h : Typed g v d) (hedit : ∀ w, edit ≠ .name g w) :
    Typed g v (updateMetadata edit d) := by
  cases edit with
  | name f value =>
    have hg : g ≠ f := by
      rintro rfl
      exact hedit value rfl
    refine ⟨?_, ?_⟩
    · simp only [updateMetadata, Field.edited_markEdited, if_neg hg, Field.edited_own]
      exact h.edited
    · simp only [updateMetadata, Edit.apply, Field.get_set, if_neg hg]
      exact h.value
  | _ => exact ⟨h.edited, by rw [← h.value]; cases g <;> rfl⟩

theorem updateMetadata_name : Typed f v (updateMetadata (.name f v) d) := by
  refine ⟨?_, ?_⟩
  · simp [updateMetadata, Field.edited_markEdited]
  · simp [updateMetadata, Edit.apply, Field.get_set]

end Ownership

section Server

variable {s : Service} {d : DraftMetadata} {f : Field} {v : Text}

theorem newMetadata_owned (sourceURL : GoString) (work : Option IMSLPWork) :
    Owned (newMetadata sourceURL work) := by
  intro f v hv
  cases f with
  | title => exact ⟨by simp_all [newMetadata, Field.owned, Field.get], rfl⟩
  | composer => exact ⟨by simp_all [newMetadata, Field.owned, Field.get], rfl⟩

theorem updateChecks_owned {sources : List AssetRow} {input : UpdateImport} {base : Option PieceInput}
    (h : updateChecks s sources input = .ok ⟨⟩) :
    Owned ⟨input.metadata, input.imslpAutoFill, base⟩ := by
  simp only [updateChecks, bind_eq_ok, refuse_eq_ok, exists_const, validateIMSLPAutoFill_eq_ok] at h
  obtain ⟨-, -, -, -, -, -, -, htitle, hcomposer⟩ := h
  intro f v hv
  cases f with
  | title =>
    obtain ⟨hedited, -, hvalue⟩ := htitle v hv
    exact ⟨hvalue, hedited⟩
  | composer =>
    obtain ⟨hedited, -, hvalue⟩ := hcomposer v hv
    exact ⟨hvalue, hedited⟩

theorem attachedMetadata_owned {filename : Text} (h : Owned d) : Owned (attachedMetadata d filename) := by
  unfold attachedMetadata
  split_ifs with hfallback
  · intro f v hv
    cases f with
    | title => exact ⟨(Option.some.inj hv).symm, hfallback.2⟩
    | composer => exact h .composer v hv
  · exact h

theorem attachedMetadata_typed {filename : Text} (h : Typed f v d) :
    Typed f v (attachedMetadata d filename) := by
  unfold attachedMetadata
  split_ifs with hfallback
  · cases f with
    | title =>
      have hedited := h.edited
      rw [Field.edited, hfallback.2] at hedited
      cases hedited
    | composer => exact ⟨h.edited, h.value⟩
  · exact h

end Server

section Steps

variable {s : Service} {newURL : Text → Option WebURL} {owner : Id} {σ σ' : Desk} {e : Event}
  {r : Response}

inductive Stepped (s : Service) (newURL : Text → Option WebURL) (owner : Id) (σ : Desk) :
    Event → Desk → Prop
  | served (e : Noted.Event) (r : Response) (server : Sys)
      (h : Sys.step s σ.server e = some (r, server)) :
      Stepped s newURL owner σ (.server e) { σ with server := server }
  | loaded (id : Id) (d : ImportDraft)
      (hd : getImport s owner id σ.server.clock σ.server.db = .ok d) :
      Stepped s newURL owner σ (.load id) (σ.withPage ⟨d.row, false, false⟩)
  | notLoaded (id : Id) : Stepped s newURL owner σ (.load id) σ
  | edited (edit : Edit) (p : Page) (hp : σ.idle = some p) :
      Stepped s newURL owner σ (.updateMetadata edit)
        (σ.withPage (p.mark (updateMetadata edit p.draft.metadata)))
  | selected (work : IMSLPWork Char) (p : Page) (hp : σ.idle = some p) :
      Stepped s newURL owner σ (.selectWork work)
        (σ.withPage (p.mark (selectWork work p.draft.metadata)))
  | linked (link : Text) (p : Page) (hp : σ.idle = some p) :
      Stepped s newURL owner σ (.linkWork link)
        (σ.withPage (p.mark (linkIMSLPWork newURL link p.draft.metadata).1))
  | notLinked (link : Text) (p : Page) (hp : σ.idle = some p)
      (hthrown : (linkIMSLPWork newURL link p.draft.metadata).2 = none) :
      Stepped s newURL owner σ (.linkWork link) (σ.withPage { p with
        draft := { p.draft with metadata := (linkIMSLPWork newURL link p.draft.metadata).1 } })
  | changed (manifest : EditManifest) (p : Page) (hp : σ.idle = some p) :
      Stepped s newURL owner σ (.changePages manifest)
        (σ.withPage { p with draft := { p.draft with manifest := manifest }, dirty := true })
  | clean (fresh : Fresh) : Stepped s newURL owner σ (.persist fresh) σ
  | saved (fresh : Fresh) (p : Page) (hp : σ.idle = some p) (server : Sys) (d : ImportDraft)
      (h : Sys.step s σ.server (.call (.updateImport owner p.draft.id p.request) fresh) =
        some (.done, server))
      (hd : getImport s owner p.draft.id server.clock server.db = .ok d) :
      Stepped s newURL owner σ (.persist fresh) ⟨server, some { p with
        draft := { p.draft with revision := d.row.revision, updatedAt := d.row.updatedAt }
        dirty := false }⟩
  | notSaved (fresh : Fresh) (p : Page) (hp : σ.idle = some p) (r : Response) (server : Sys)
      (h : Sys.step s σ.server (.call (.updateImport owner p.draft.id p.request) fresh) =
        some (r, server)) : Stepped s newURL owner σ (.persist fresh) ⟨server, some p⟩
  | uploading (filename : Text) (data : Bytes) (key : Key) (p : Page) (hp : σ.idle = some p)
      (hclean : p.dirty = false) (r : Response) (server : Sys)
      (h : Sys.step s σ.server (.beginAttach owner p.draft.id filename p.draft.revision data key) =
        some (r, server)) :
      Stepped s newURL owner σ (.beginUpload filename data key)
        ⟨server, some { p with uploading := r == .done }⟩
  | uploaded (f : Flight) (fresh : Fresh) (p : Page) (hp : σ.page = some p)
      (hawaits : Desk.awaits owner p f = true) (server : Sys) (d : ImportDraft)
      (h : Sys.step s σ.server (.commit f fresh) = some (.done, server))
      (hd : getImport s owner p.draft.id server.clock server.db = .ok d) :
      Stepped s newURL owner σ (.endUpload f fresh) ⟨server, some ⟨d.row, false, false⟩⟩
  | notUploaded (f : Flight) (fresh : Fresh) (p : Page) (hp : σ.page = some p) (r : Response)
      (server : Sys) (h : Sys.step s σ.server (.commit f fresh) = some (r, server)) :
      Stepped s newURL owner σ (.endUpload f fresh) ⟨server, some { p with uploading := false }⟩
  | dropped (p : Page) (hp : σ.page = some p) :
      Stepped s newURL owner σ .dropUpload (σ.withPage { p with uploading := false })

theorem stepped (h : Desk.step s newURL owner σ e = some (r, σ')) :
    Stepped s newURL owner σ e σ' := by
  cases e with
  | server e =>
    obtain ⟨⟨r', server⟩, hserver, h⟩ := Option.bind_eq_some_iff.mp h
    obtain ⟨rfl, rfl⟩ := Prod.mk.inj (Option.some.inj h)
    exact .served e r' server hserver
  | load id =>
    simp only [Desk.step, Desk.load, Option.some.injEq] at h
    split at h
    · obtain ⟨rfl, rfl⟩ := Prod.mk.inj h
      exact .notLoaded id
    · rename_i d hd
      obtain ⟨rfl, rfl⟩ := Prod.mk.inj h
      exact .loaded id d hd
  | updateMetadata edit =>
    obtain ⟨p, hp, h⟩ := Option.bind_eq_some_iff.mp h
    obtain ⟨rfl, rfl⟩ := Prod.mk.inj (Option.some.inj h)
    exact .edited edit p hp
  | selectWork work =>
    obtain ⟨p, hp, h⟩ := Option.bind_eq_some_iff.mp h
    obtain ⟨rfl, rfl⟩ := Prod.mk.inj (Option.some.inj h)
    exact .selected work p hp
  | linkWork link =>
    obtain ⟨p, hp, h⟩ := Option.bind_eq_some_iff.mp h
    have hlinked : Stepped s newURL owner σ (.linkWork link) _ := .linked link p hp
    have hnot := fun hthrown =>
      (Stepped.notLinked link p hp hthrown : Stepped s newURL owner σ (.linkWork link) _)
    generalize linkIMSLPWork newURL link p.draft.metadata = result at h hlinked hnot
    obtain ⟨metadata, href⟩ := result
    cases href with
    | none =>
      obtain ⟨rfl, rfl⟩ := Prod.mk.inj (Option.some.inj h)
      exact hnot rfl
    | some href =>
      obtain ⟨rfl, rfl⟩ := Prod.mk.inj (Option.some.inj h)
      exact hlinked
  | changePages manifest =>
    obtain ⟨p, hp, h⟩ := Option.bind_eq_some_iff.mp h
    obtain ⟨rfl, rfl⟩ := Prod.mk.inj (Option.some.inj h)
    exact .changed manifest p hp
  | persist fresh =>
    obtain ⟨p, hp, h⟩ := Option.bind_eq_some_iff.mp h
    dsimp only at h
    split_ifs at h with hclean
    · obtain ⟨rfl, rfl⟩ := Prod.mk.inj (Option.some.inj h)
      exact .clean fresh
    · obtain ⟨⟨r', server⟩, hserver, h⟩ := Option.bind_eq_some_iff.mp h
      have h := Option.some.inj h
      unfold Desk.saved at h
      split at h
      · rename_i d hr hd
        obtain rfl : r' = .done := hr
        obtain ⟨rfl, rfl⟩ := Prod.mk.inj h
        exact .saved fresh p hp server d hserver hd
      · obtain ⟨rfl, rfl⟩ := Prod.mk.inj h
        exact .notSaved fresh p hp _ server hserver
  | beginUpload filename data key =>
    obtain ⟨p, hp, h⟩ := Option.bind_eq_some_iff.mp h
    dsimp only at h
    split_ifs at h with hdirty
    obtain ⟨⟨r', server⟩, hserver, h⟩ := Option.bind_eq_some_iff.mp h
    obtain ⟨rfl, rfl⟩ := Prod.mk.inj (Option.some.inj h)
    exact .uploading filename data key p hp (Bool.eq_false_of_not_eq_true hdirty) r' server hserver
  | endUpload f fresh =>
    obtain ⟨p, hp, h⟩ := Option.bind_eq_some_iff.mp h
    dsimp only at h
    split_ifs at h with hawaits
    obtain ⟨⟨r', server⟩, hserver, h⟩ := Option.bind_eq_some_iff.mp h
    have h := Option.some.inj h
    unfold Desk.uploaded at h
    split at h
    · rename_i d hr hd
      obtain rfl : r' = .done := hr
      obtain ⟨rfl, rfl⟩ := Prod.mk.inj h
      exact .uploaded f fresh p hp (Bool.eq_true_of_not_eq_false hawaits) server d hserver hd
    · obtain ⟨rfl, rfl⟩ := Prod.mk.inj h
      exact .notUploaded f fresh p hp _ server hserver
  | dropUpload =>
    obtain ⟨p, hp, h⟩ := Option.bind_eq_some_iff.mp h
    obtain ⟨rfl, rfl⟩ := Prod.mk.inj (Option.some.inj h)
    exact .dropped p hp

theorem idle_eq_some {p : Page} : σ.idle = some p ↔
    σ.page = some p ∧ p.uploading = false ∧ p.draft.finalized = false := by
  simp [Desk.idle, Option.filter_eq_some_iff]

end Steps

section Ownerships

variable {s : Service} {newURL : Text → Option WebURL} {owner : Id}

def OwnedDrafts (σ : Sys) : Prop := ∀ d ∈ σ.db.drafts, Owned d.metadata

theorem Starts.owned {owner : Id} {input : CreateImport} {work : Option IMSLPWork} {fresh : Fresh}
    {now : Time} {db db' : Db} {start : DraftStart}
    (h : Starts owner input work fresh now db start db') : Owned start.metadata := by
  have hnone : ∀ m base, Owned ⟨m, ⟨none, none, false, false⟩, base⟩ := by
    intro m base f v hv
    cases f <;> cases hv
  cases h with
  | new h => exact newMetadata_owned input.sourceURL work
  | _ => exact hnone _ _

theorem OwnedDrafts.step {σ σ' : Sys} {e : Noted.Event} {r : Response} (hσ : OwnedDrafts σ)
    (h : Sys.step s σ e = some (r, σ')) : OwnedDrafts σ' := by
  intro d' hd'
  cases (Sys.step_stepped h).draft_origin hd' with
  | kept hd => exact hσ d' hd
  | started owner input work fresh start db he hr hfresh hlink hcount hstart heq =>
    subst heq
    exact Starts.owned hstart
  | updated d hd input he hr hopen hrevision hrecent hchecks heq =>
    subst heq
    exact updateChecks_owned hchecks
  | attached d hd f hf fresh hfresh filename revision file he hr hupload hopen hrevision hrecent heq =>
    subst heq
    exact attachedMetadata_owned (hσ d hd)
  | finalized d hd he hunfinished pieceId htarget heq =>
    subst heq
    exact hσ d hd

/-- What a page knows of its draft: no later revision than the server's, and at the
server's revision its details, but for what it has not saved. -/
structure Synced (σ : Sys) (p : Page) : Prop where
  issued : p.draft.id ∈ σ.ids
  behind : ∀ d ∈ σ.db.drafts, d.id = p.draft.id → p.draft.revision ≤ d.revision
  agrees : p.dirty = false → ∀ d ∈ σ.db.drafts, d.id = p.draft.id →
    d.revision = p.draft.revision → Agrees d.metadata p.draft.metadata
  clean : p.uploading = true → p.dirty = false

theorem Synced.step {σ σ' : Sys} {p : Page} {e : Noted.Event} {r : Response} (hp : Synced σ p)
    (h : Sys.step s σ e = some (r, σ')) : Synced σ' p := by
  have hstepped := Sys.step_stepped h
  have hrow : ∀ d' ∈ σ'.db.drafts, d'.id = p.draft.id → p.draft.revision ≤ d'.revision ∧
      (p.dirty = false → d'.revision = p.draft.revision → Agrees d'.metadata p.draft.metadata) := by
    intro d' hd' hid'
    obtain ⟨d, hd, hsame, hrewritten⟩ := hstepped.rewritten hd' (hid' ▸ hp.issued)
    have hid : d.id = p.draft.id := hsame.trans hid'
    have hle := hp.behind d hd hid
    cases hrewritten with
    | kept heq =>
      subst heq
      exact ⟨hle, fun hclean => hp.agrees hclean d' hd hid⟩
    | saved metadata manifest hopen hbase heq =>
      subst heq
      simp only [savedDraft]
      exact ⟨by omega, fun _ heq => by omega⟩
    | finalized pieceId hunfinished htarget heq =>
      subst heq
      exact ⟨hle, fun hclean => hp.agrees hclean d hd hid⟩
  refine ⟨hstepped.ids hp.issued, ?_, ?_, hp.clean⟩
  · intro d' hd' hid
    exact (hrow d' hd' hid).1
  · intro hclean d' hd' hid
    exact (hrow d' hd' hid).2 hclean

theorem getImport_row {owner id : Id} {now : Time} {db : Db} {d : ImportDraft}
    (h : getImport s owner id now db = .ok d) : d.row ∈ db.drafts ∧ d.row.id = id := by
  obtain ⟨⟨hmem, hid, -⟩, -⟩ := Db.draftTx_eq_ok.mp h
  exact ⟨hmem, hid⟩

theorem Synced.of_row {σ : Sys} (hσ : Issued σ) {d : DraftRow} (hd : d ∈ σ.db.drafts) :
    Synced σ ⟨d, false, false⟩ := by
  have hsame : ∀ c ∈ σ.db.drafts, c.id = d.id → c = d := fun c hc hid => Table.eq_of_key hc hd hid
  refine ⟨hσ d hd, ?_, ?_, fun h => by cases h⟩
  · intro c hc hid
    rw [hsame c hc hid]
  · intro _ c hc hid _
    rw [hsame c hc hid]
    exact ⟨rfl, fun _ => rfl⟩

theorem Synced.edited {σ : Sys} {p p' : Page} (hp : Synced σ p) (hid : p'.draft.id = p.draft.id)
    (hrevision : p'.draft.revision = p.draft.revision) (hdirty : p'.dirty = true)
    (hidle : p'.uploading = false) : Synced σ p' := by
  refine ⟨hid ▸ hp.issued, ?_, ?_, ?_⟩
  · intro d hd hd'
    rw [hrevision]
    exact hp.behind d hd (hd'.trans hid)
  · intro hclean
    rw [hdirty] at hclean
    cases hclean
  · intro huploading
    rw [hidle] at huploading
    cases huploading

theorem Synced.saved {σ σ' : Sys} {p : Page} {fresh : Fresh} {d : ImportDraft}
    (hp : Synced σ p)
    (h : Sys.step s σ (.call (.updateImport owner p.draft.id p.request) fresh) = some (.done, σ'))
    (hd : getImport s owner p.draft.id σ'.clock σ'.db = .ok d) :
    Synced σ' { p with
      draft := { p.draft with revision := d.row.revision, updatedAt := d.row.updatedAt }
      dirty := false } := by
  obtain ⟨hmem, hid⟩ := getImport_row hd
  have hsame : ∀ c ∈ σ'.db.drafts, c.id = p.draft.id → c = d.row :=
    fun c hc hcid => Table.eq_of_key hc hmem (hcid.trans hid.symm)
  have hmetadata : Agrees d.row.metadata p.draft.metadata := by
    cases (Sys.step_stepped h) with
    | callDone c fresh db hfresh hrun =>
      obtain ⟨row, hrow, ⟨hrid, -, -⟩, -, -, rfl⟩ := updateImport_ok.mp hrun
      change d.row ∈ (σ.db.updateDraft p.draft.id _).drafts at hmem
      rw [← hrid] at hmem
      obtain ⟨-, hne⟩ | heq := mem_updateDraft_cases hrow hmem
      · exact absurd (hid.trans hrid.symm) hne
      · rw [heq]
        exact ⟨rfl, fun f => by cases f <;> rfl⟩
  refine ⟨(hp.step h).issued, ?_, ?_, fun _ => rfl⟩
  · intro c hc hcid
    rw [hsame c hc hcid]
  · intro _ c hc hcid _
    rw [hsame c hc hcid]
    exact hmetadata

theorem Synced.uploaded {σ σ' : Sys} {p : Page} {f : Flight} {fresh : Fresh} {d : ImportDraft}
    {field : Field} {v : Text} (hp : Synced σ p) (hawaits : Desk.awaits owner p f = true)
    (h : Sys.step s σ (.commit f fresh) = some (.done, σ'))
    (hd : getImport s owner p.draft.id σ'.clock σ'.db = .ok d)
    (htyped : Typed field v p.draft.metadata) : Typed field v d.row.metadata := by
  obtain ⟨hmem, hid⟩ := getImport_row hd
  simp only [Desk.awaits, Bool.and_eq_true] at hawaits
  obtain ⟨⟨huploading, -⟩, hflight⟩ := hawaits
  cases (Sys.step_stepped h) with
  | attached f fresh id filename revision file db hf hfresh hupload hrun =>
    simp only [hupload, Bool.and_eq_true, beq_iff_eq] at hflight
    obtain ⟨rfl, rfl⟩ := hflight
    obtain ⟨row, hrow, ⟨hrid, -, -⟩, ⟨-, hrevision⟩, -, hdrafts⟩ := attachSource_drafts hrun
    have hagrees := hp.agrees (hp.clean huploading) row hrow hrid (by omega)
    have hmem' : d.row ∈ db.drafts := hmem
    rw [hdrafts, ← hrid] at hmem'
    obtain ⟨-, hne⟩ | heq := mem_updateDraft_cases hrow hmem'
    · exact absurd (hid.trans hrid.symm) hne
    · rw [heq]
      exact attachedMetadata_typed (hagrees.typed htyped)

end Ownerships

section Runs

variable {s : Service} {newURL : Text → Option WebURL} {owner : Id} {σ σ' σ₀ : Desk} {e : Event}
  {r : Response} {f : Field} {v : Text} {t : List (Entry Desk Event Response)}

structure Sound (σ : Desk) : Prop where
  issued : Issued σ.server
  drafts : OwnedDrafts σ.server
  synced : ∀ p, σ.page = some p → Synced σ.server p
  owned : ∀ p, σ.page = some p → Owned p.draft.metadata

theorem Sound.of_server {server : Sys} {e : Noted.Event} {page : Option Page} (hσ : Sound σ)
    (h : Sys.step s σ.server e = some (r, server))
    (hpage : ∀ p, page = some p → Synced server p ∧ Owned p.draft.metadata) :
    Sound ⟨server, page⟩ :=
  ⟨hσ.issued.step h, hσ.drafts.step h, fun p hp => (hpage p hp).1, fun p hp => (hpage p hp).2⟩

theorem Sound.of_page {p : Page} (hσ : Sound σ) (hp : Synced σ.server p)
    (howned : Owned p.draft.metadata) : Sound (σ.withPage p) := by
  refine ⟨hσ.issued, hσ.drafts, ?_, ?_⟩
  · intro q hq
    obtain rfl : p = q := Option.some.inj hq
    exact hp
  · intro q hq
    obtain rfl : p = q := Option.some.inj hq
    exact howned

theorem Synced.stopped {server : Sys} {p : Page} (hp : Synced server p) :
    Synced server { p with uploading := false } :=
  ⟨hp.issued, hp.behind, hp.agrees, fun h => by cases h⟩

theorem Sound.step (hσ : Sound σ) (h : Desk.step s newURL owner σ e = some (r, σ')) :
    Sound σ' := by
  cases stepped h with
  | served e r server hserver =>
    refine hσ.of_server hserver ?_
    intro p hp
    exact ⟨(hσ.synced p hp).step hserver, hσ.owned p hp⟩
  | loaded id d hd =>
    have hmem := (getImport_row hd).1
    exact hσ.of_page (.of_row hσ.issued hmem) (hσ.drafts d.row hmem)
  | notLoaded id => exact hσ
  | edited edit p hp =>
    obtain ⟨hpage, hidle, -⟩ := idle_eq_some.mp hp
    exact hσ.of_page ((hσ.synced p hpage).edited rfl rfl rfl hidle)
      (updateMetadata_owned (hσ.owned p hpage))
  | selected work p hp =>
    obtain ⟨hpage, hidle, -⟩ := idle_eq_some.mp hp
    exact hσ.of_page ((hσ.synced p hpage).edited rfl rfl rfl hidle)
      (selectWork_owned (hσ.owned p hpage))
  | linked link p hp =>
    obtain ⟨hpage, hidle, -⟩ := idle_eq_some.mp hp
    exact hσ.of_page ((hσ.synced p hpage).edited rfl rfl rfl hidle)
      (linkIMSLPWork_owned (hσ.owned p hpage))
  | notLinked link p hp hthrown =>
    obtain ⟨hpage, hidle, -⟩ := idle_eq_some.mp hp
    have hsynced := hσ.synced p hpage
    refine hσ.of_page ⟨hsynced.issued, hsynced.behind, ?_, hsynced.clean⟩
      (linkIMSLPWork_owned (hσ.owned p hpage))
    intro hclean d hd hid hrevision
    have hagrees := hsynced.agrees hclean d hd hid hrevision
    obtain ⟨-, hlink⟩ | ⟨url, changedWork, title, composer, heq⟩ :=
      linkIMSLPWork_cases newURL link p.draft.metadata
    · exact ⟨hagrees.provenance.trans hlink.provenance.symm,
        fun f => (hagrees.fields f).trans (hlink.fields f).symm⟩
    · rw [heq] at hthrown
      cases hthrown
  | changed manifest p hp =>
    obtain ⟨hpage, hidle, -⟩ := idle_eq_some.mp hp
    exact hσ.of_page ((hσ.synced p hpage).edited rfl rfl rfl hidle) (hσ.owned p hpage)
  | clean fresh => exact hσ
  | saved fresh p hp server d hserver hd =>
    obtain ⟨hpage, -, -⟩ := idle_eq_some.mp hp
    refine hσ.of_server hserver ?_
    intro q hq
    obtain rfl := Option.some.inj hq
    exact ⟨(hσ.synced p hpage).saved hserver hd, hσ.owned p hpage⟩
  | notSaved fresh p hp r server hserver =>
    obtain ⟨hpage, -, -⟩ := idle_eq_some.mp hp
    refine hσ.of_server hserver ?_
    intro q hq
    obtain rfl := Option.some.inj hq
    exact ⟨(hσ.synced p hpage).step hserver, hσ.owned p hpage⟩
  | uploading filename data key p hp hclean r server hserver =>
    obtain ⟨hpage, -, -⟩ := idle_eq_some.mp hp
    refine hσ.of_server hserver ?_
    intro q hq
    obtain rfl := Option.some.inj hq
    have hsynced := (hσ.synced p hpage).step hserver
    exact ⟨⟨hsynced.issued, hsynced.behind, hsynced.agrees, fun _ => hclean⟩, hσ.owned p hpage⟩
  | uploaded flight fresh p hp hawaits server d hserver hd =>
    have hmem := (getImport_row hd).1
    refine hσ.of_server hserver ?_
    intro q hq
    obtain rfl := Option.some.inj hq
    exact ⟨.of_row (hσ.issued.step hserver) hmem, hσ.drafts.step hserver d.row hmem⟩
  | notUploaded flight fresh p hp r server hserver =>
    refine hσ.of_server hserver ?_
    intro q hq
    obtain rfl := Option.some.inj hq
    exact ⟨((hσ.synced p hp).step hserver).stopped, hσ.owned p hp⟩
  | dropped p hp => exact hσ.of_page (hσ.synced p hp).stopped (hσ.owned p hp)

/-- The event is neither a new page nor the user's own typing in the field. -/
def Event.keeps (f : Field) : Event → Bool
  | .load _ => false
  | .updateMetadata (.name g _) => g != f
  | _ => true

def Holds (f : Field) (v : Text) (σ : Desk) : Prop :=
  ∃ p, σ.page = some p ∧ Typed f v p.draft.metadata

theorem Holds.typed {p : Page} (h : Holds f v σ) (hp : σ.page = some p) :
    Typed f v p.draft.metadata := by
  obtain ⟨q, hq, htyped⟩ := h
  obtain rfl := Option.some.inj (hp.symm.trans hq)
  exact htyped

theorem Holds.step (hσ : Sound σ) (h : Holds f v σ) (hkeeps : e.keeps f = true)
    (hstep : Desk.step s newURL owner σ e = some (r, σ')) : Holds f v σ' := by
  cases stepped hstep with
  | served e r server hserver => exact h
  | loaded id d hd => cases hkeeps
  | notLoaded id => exact h
  | edited edit p hp =>
    have htyped := h.typed (idle_eq_some.mp hp).1
    refine ⟨_, rfl, updateMetadata_typed htyped ?_⟩
    intro w heq
    simp [heq, Event.keeps] at hkeeps
  | selected work p hp => exact ⟨_, rfl, selectWork_typed (h.typed (idle_eq_some.mp hp).1)⟩
  | linked link p hp => exact ⟨_, rfl, linkIMSLPWork_typed (h.typed (idle_eq_some.mp hp).1)⟩
  | notLinked link p hp hthrown =>
    exact ⟨_, rfl, linkIMSLPWork_typed (h.typed (idle_eq_some.mp hp).1)⟩
  | changed manifest p hp =>
    have htyped := h.typed (idle_eq_some.mp hp).1
    exact ⟨_, rfl, htyped⟩
  | clean fresh => exact h
  | saved fresh p hp server d hserver hd =>
    have htyped := h.typed (idle_eq_some.mp hp).1
    exact ⟨_, rfl, htyped⟩
  | notSaved fresh p hp r server hserver => exact ⟨_, rfl, h.typed (idle_eq_some.mp hp).1⟩
  | uploading filename data key p hp hclean r server hserver =>
    have htyped := h.typed (idle_eq_some.mp hp).1
    exact ⟨_, rfl, htyped⟩
  | uploaded flight fresh p hp hawaits server d hserver hd =>
    exact ⟨_, rfl, (hσ.synced p hp).uploaded hawaits hserver hd (h.typed hp)⟩
  | notUploaded flight fresh p hp r server hserver =>
    have htyped := h.typed hp
    exact ⟨_, rfl, htyped⟩
  | dropped p hp =>
    have htyped := h.typed hp
    exact ⟨_, rfl, htyped⟩

theorem Holds.run (hrun : Run (Desk.step s newURL owner) σ t σ') (hσ : Sound σ) (h : Holds f v σ)
    (hkeeps : ∀ x ∈ t, x.event.keeps f = true) : Holds f v σ' := by
  have hstep : ∀ {σ e r σ'}, Sound σ ∧ Holds f v σ → Event.keeps f e = true →
      Desk.step s newURL owner σ e = some (r, σ') → Sound σ' ∧ Holds f v σ' := by
    intro σ e r σ' h hkeeps hstep
    exact ⟨h.1.step hstep, h.2.step h.1 hkeeps hstep⟩
  exact (hrun.invariant_of hstep ⟨hσ, h⟩ hkeeps).2

theorem Sound.of_initial (h : Initial σ₀.server) (hpage : σ₀.page = none) : Sound σ₀ := by
  refine ⟨h.issued, ?_, ?_, ?_⟩
  · intro d hd
    rw [h.drafts] at hd
    exact absurd hd (Table.not_mem_empty d)
  · intro p hp
    rw [hpage] at hp
    cases hp
  · intro p hp
    rw [hpage] at hp
    cases hp

/-- On the server and on the page, what IMSLP gave a field is the field's value and
the user has not edited it. And what the user types in a field stays there through
works, links, saves and uploads, until the user types again or loads a page. -/
theorem details_owned (h₀ : Initial σ₀.server) (hpage : σ₀.page = none)
    (hrun : Run (Desk.step s newURL owner) σ₀ t σ) :
    (∀ d ∈ σ.server.db.drafts, Owned d.metadata) ∧
      (∀ p, σ.page = some p → Owned p.draft.metadata) ∧
      ∀ f v r σ₁ u σ₂, Desk.step s newURL owner σ (.updateMetadata (.name f v)) = some (r, σ₁) →
        Run (Desk.step s newURL owner) σ₁ u σ₂ → (∀ x ∈ u, x.event.keeps f = true) →
        ∃ p, σ₂.page = some p ∧ f.get p.draft.metadata.input = v := by
  have hσ : Sound σ := hrun.invariant Sound.step (.of_initial h₀ hpage)
  refine ⟨hσ.drafts, hσ.owned, ?_⟩
  intro f v r σ₁ u σ₂ hstep hlater hkeeps
  have hholds : Holds f v σ₁ := by
    cases stepped hstep with
    | edited edit p hp => exact ⟨_, rfl, updateMetadata_name⟩
  obtain ⟨p, hp, htyped⟩ := hholds.run hlater (hσ.step hstep) hkeeps
  exact ⟨p, hp, htyped.value⟩

end Runs

section Typing

def plainURL (link : Text) : Option WebURL :=
  if link = "https://imslp.org/wiki/Preludes_(Debussy,_Claude)".toList then
    some ⟨"https:".toList, [], [], "imslp.org".toList, "/wiki/Preludes_(Debussy,_Claude)".toList,
      link⟩
  else none

def emptyDesk : Desk := ⟨emptyLibrary, none⟩

def chosenEvents : List Event :=
  [.server (.call (.createImport 1 ⟨.absent, []⟩ none) (plainFresh 1)), .load 2,
    .selectWork ⟨"Suite".toList, "Debussy, Claude".toList,
      "https://imslp.org/wiki/Suite_(Debussy,_Claude)".toList⟩]

def laterEvents : List Event :=
  [.linkWork "https://imslp.org/wiki/Preludes_(Debussy,_Claude)".toList, .persist (plainFresh 2),
    .beginUpload "score.pdf".toList plainPDF 7, .endUpload (plainAttach 2 1 7) (plainFresh 3)]

theorem details_owned_typed : ∃ t σ u σ₂,
    Run (Desk.step plainService plainURL 1) emptyDesk t σ ∧
      (∀ d ∈ σ.server.db.drafts, Owned d.metadata) ∧ u.length = 4 ∧
      (∃ r σ₁, Desk.step plainService plainURL 1 σ
        (.updateMetadata (.name .title "Clair de lune".toList)) = some (r, σ₁) ∧
        Run (Desk.step plainService plainURL 1) σ₁ u σ₂) ∧
      ∃ p, σ₂.page = some p ∧ p.draft.metadata.input.title = "Clair de lune".toList := by
  obtain ⟨t, σ, hrun, hlater⟩ : ∃ t σ, Run (Desk.step plainService plainURL 1) emptyDesk t σ ∧
      ((Desk.step plainService plainURL 1 σ
        (.updateMetadata (.name .title "Clair de lune".toList))).any fun q =>
          (replay (Desk.step plainService plainURL 1) q.2 laterEvents).any fun q =>
            q.1.all (fun x => x.event.keeps .title) && q.1.length == 4) = true :=
    exists_run chosenEvents (by decide +kernel)
  obtain ⟨⟨r, σ₁⟩, hstep, hlater⟩ := (Option.any_eq_true _ _).mp hlater
  obtain ⟨u, σ₂, hu, hkeeps⟩ : ∃ u σ₂, Run (Desk.step plainService plainURL 1) σ₁ u σ₂ ∧
      (u.all (fun x => x.event.keeps .title) && u.length == 4) = true :=
    exists_run laterEvents hlater
  rw [Bool.and_eq_true, List.all_eq_true, beq_iff_eq] at hkeeps
  have howned := details_owned emptyLibrary_initial rfl hrun
  exact ⟨t, σ, u, σ₂, hrun, howned.1, hkeeps.2, ⟨r, σ₁, hstep, hu⟩,
    howned.2.2 .title "Clair de lune".toList r σ₁ u σ₂ hstep hu hkeeps.1⟩

end Typing

end Noted.Prepare
