import Noted.Composer
import Noted.Database

/-!
# Preparation drafts (internal/app/imports.go)

Every operation is its transaction as a function of the database it starts from:
an error means that nothing was committed. The owner's advisory lock is not in the
functions. `now()` and the UUIDs a call generates are arguments.

`attachSource` and `finalizeImport` save a file between their checks and their
writes. Their checks are functions of their own, `attachChecks` and
`finalizeChecks`, and the transaction as a whole is the checks and the writes.
-/

namespace Noted

open Library

/-- What the service is configured with and rests on: the Unicode tables,
`uuid.Parse`, the PDF and image decoders, SHA-256, the upload limit, the hash of a
composer selection, the Unicode collation, the database's order of `lower(text)`
and `word_similarity`. -/
structure Service where
  unicode : UnicodeTables
  validUUID : Text → Bool
  decoders : Decoders
  sha256 : Bytes → Text
  importLimit : Nat
  fingerprint : Id → Text → List Text → List (Id × Text) → Text
  collate : Text → Text → Ordering
  lowerOrder : Text → Text → Ordering
  wordSimilarity : Text → Text → Rat

structure Fresh where
  id : Id
  assetId : Id
  pageIds : List Text
  deriving DecidableEq

variable (s : Service)

section Drafts

def Db.draftTx (db : Db) (owner id : Id) (now : Time) : Except Error ImportDraft := do
  let row ← demand (db.drafts.find? fun d =>
    d.id == id && d.userId == owner && now < d.updatedAt + sevenDays) .notFound
  pure ⟨row, db.draftAssets owner id, s.importLimit⟩

def getImport (owner id : Id) (now : Time) (db : Db) : Except Error ImportDraft :=
  db.draftTx s owner id now

def PieceRow.draftInput (p : PieceRow) : PieceInput where
  opus := []
  musicKey := []
  title := p.title
  composer := p.composer
  favorite := p.favorite
  status := none
  sourceURL := p.sourceURL
  listeningURL := p.listeningURL
  notes := p.notes
  aliases := []

/-- What a draft takes of a work's title or composer: a value too long to save is left
out, by the length that it has before it becomes JSON. -/
def prefilled (value : GoString) : Option Text :=
  if value.len ≤ 300 then some (asText value) else none

/-- The metadata of a draft of a new piece, as JSON has it: a work gives the title and the
composer and owns them. -/
def newMetadata (sourceURL : GoString) (work : Option IMSLPWork) : DraftMetadata :=
  let title := work.bind fun w => prefilled w.title
  let composer := work.bind fun w => prefilled w.composer
  { input :=
      { opus := [], musicKey := [], title := title.getD [], composer := composer.getD []
        favorite := false, status := none, sourceURL := asText sourceURL, listeningURL := []
        notes := [], aliases := [] }
    provenance := ⟨title, composer, false, false⟩
    base := none }

def freshPages (ids : List Text) (sourceId : Id) (count : Nat) : List PageEdit :=
  (ids.take count).mapIdx fun n id => PageEdit.fresh id sourceId n

structure DraftStart where
  pieceId : Option Id
  baseRevision : Nat
  metadata : DraftMetadata
  manifest : EditManifest
  sources : List Id

def legacyAsset (owner : Id) (f : PdfRow) (assetId : Id) (now : Time) : AssetRow where
  id := assetId
  userId := owner
  storageKey := f.storageKey
  filename := f.originalFilename
  mime := .pdf
  size := f.sizeBytes
  checksum := f.checksumSHA256
  pageCount := f.pageCount
  width := 0
  height := 0
  createdAt := now

/-- The manifest and the sources a draft of a piece starts with: the saved ones, or
the pages of a legacy PDF, whose object is retained. -/
def pieceStart (owner : Id) (p : PieceRow) (fresh : Fresh) (now : Time) (db : Db) :
    Except Error (EditManifest × List Id × Db) :=
  match p.preparationManifest with
  | some saved => do
    refuse (maxPreparedPages < saved.pages.length) errTooManyPages
    pure (saved, saved.pages.map PageEdit.sourceId, db)
  | none =>
    match db.pdf? p.id with
    | none => pure (⟨1, []⟩, [], db)
    | some f => do
      refuse (maxPreparedPages < f.pageCount) errTooManyPages
      let (db, assetId) ← db.retainAsset (legacyAsset owner f fresh.assetId now)
      pure (⟨1, freshPages fresh.pageIds assetId f.pageCount⟩, [assetId], db)

def draftStart (owner : Id) (input : CreateImport) (work : Option IMSLPWork) (fresh : Fresh)
    (now : Time) (db : Db) : Except Error (DraftStart × Db) :=
  match input.pieceId with
  | .absent => pure (⟨none, 0, newMetadata input.sourceURL work, ⟨1, []⟩, []⟩, db)
  | .malformed => .error (.invalid "piece id must be a UUID")
  | .piece id => do
    let p ← demand (db.piece? owner id) .notFound
    let (manifest, sources, db) ← pieceStart owner p fresh now db
    pure (⟨some id, p.contentRevision,
      ⟨p.draftInput, ⟨none, none, false, false⟩, some p.draftInput⟩, manifest, sources⟩, db)

def startedDraft (owner : Id) (start : DraftStart) (id : Id) (now : Time) : DraftRow where
  id := id
  userId := owner
  pieceId := start.pieceId
  baseRevision := start.baseRevision
  revision := 0
  metadata := start.metadata
  manifest := start.manifest
  initialManifest := start.manifest
  finalized := false
  updatedAt := now

def createImport (owner : Id) (input : CreateImport) (work : Option IMSLPWork) (fresh : Fresh)
    (now : Time) (db : Db) : Except Error Db := do
  validateIMSLP input.sourceURL
  refuse (maxOpenDrafts ≤ db.openDrafts owner now) .draftLimit
  let (start, db) ← draftStart owner input work fresh now db
  let db ← db.insertDraft (startedDraft owner start fresh.id now)
  start.sources.foldlM (fun db assetId => db.keepDraftSource ⟨fresh.id, assetId⟩) db

/-- An empty title is allowed in a draft; it is checked under this one. -/
def titled (metadata : PieceInput) : PieceInput :=
  if trimSpace metadata.title = [] then { metadata with title := "Untitled score".toList }
  else metadata

def updateChecks (sources : List AssetRow) (input : UpdateImport) : Except Error Unit := do
  validateManifest s.validUUID input.manifest sources true
  let metadata := titled input.metadata
  let _ ← validatePiece metadata
  refuse (metadata.status ≠ none) (.invalid "a draft cannot set the piece status")
  refuse (metadata.opus ≠ [] ∨ metadata.musicKey ≠ [])
    (.invalid "a draft cannot set opus or music key")
  refuse (metadata.aliases ≠ []) (.invalid "a draft cannot set the piece aliases")
  validateIMSLPAutoFill input.metadata input.imslpAutoFill

def savedDraft (metadata : DraftMetadata) (manifest : EditManifest) (now : Time) :
    Db.DraftChange where
  apply d :=
    { d with metadata := metadata, manifest := manifest, revision := d.revision + 1, updatedAt := now }
  id_eq _ := rfl
  userId_eq _ := rfl

def updateImport (owner id : Id) (input : UpdateImport) (now : Time) (db : Db) :
    Except Error Db := do
  let d ← db.draftTx s owner id now
  refuse (d.row.finalized = true ∨ (d.row.revision : Int) ≠ input.revision) .conflict
  updateChecks s d.sources input
  pure (db.updateDraft id
    (savedDraft ⟨input.metadata, input.imslpAutoFill, d.row.metadata.base⟩ input.manifest now))

def attachChecks (owner id : Id) (revision : Int) (size : Nat) (now : Time) (db : Db) :
    Except Error ImportDraft := do
  let d ← db.draftTx s owner id now
  refuse (d.row.finalized = true ∨ (d.row.revision : Int) ≠ revision) .conflict
  refuse (200 * 2 ^ 20 < (d.sources.map AssetRow.size).sum + size) .importLimit
  pure d

def attachedAsset (owner : Id) (filename : Text) (file : ImportBytes) (object : Object)
    (assetId : Id) (now : Time) : AssetRow where
  id := assetId
  userId := owner
  storageKey := object.key
  filename := filename
  mime := file.mime
  size := object.size
  checksum := object.checksum
  pageCount := file.pages
  width := file.width
  height := file.height
  createdAt := now

def attachedManifest (manifest : EditManifest) (fresh : Fresh) (pages : Nat) : EditManifest :=
  { manifest with
    pages := manifest.pages ++ freshPages fresh.pageIds fresh.assetId
      (min pages (maxPreparedPages - manifest.pages.length)) }

def fileTitle (filename : Text) : Text :=
  if ".pdf".toList.isSuffixOf filename then filename.take (filename.length - 4) else filename

/-- The file name is the title of a draft that has none and whose title the user
did not edit, and owns it. -/
def attachedMetadata (metadata : DraftMetadata) (filename : Text) : DraftMetadata :=
  if metadata.input.title = [] ∧ metadata.provenance.titleEdited = false then
    { metadata with
      input := { metadata.input with title := fileTitle filename }
      provenance := { metadata.provenance with title := some (fileTitle filename) } }
  else metadata

def attachWrites (owner : Id) (d : ImportDraft) (filename : Text) (file : ImportBytes)
    (object : Object) (fresh : Fresh) (now : Time) (db : Db) : Except Error Db := do
  let db ← db.insertAsset (attachedAsset owner filename file object fresh.assetId now)
  let db ← db.insertDraftSource ⟨d.row.id, fresh.assetId⟩
  pure (db.updateDraft d.row.id (savedDraft (attachedMetadata d.row.metadata filename)
    (attachedManifest d.row.manifest fresh file.pages) now))

def attachSource (owner id : Id) (filename : Text) (revision : Int) (file : ImportBytes)
    (object : Object) (fresh : Fresh) (now : Time) (db : Db) : Except Error Db := do
  let d ← attachChecks s owner id revision object.size now db
  attachWrites owner d filename file object fresh now db

/-- `uploadImportSource`: the file is read and validated before the transaction. -/
def uploadedFile (data : Bytes) : Except Error ImportBytes := do
  refuse (s.importLimit < data.length) .importLimit
  validateImportBytes s.decoders data

def deleteImport (owner id : Id) (now : Time) (db : Db) : Except Error Db := do
  let d ← demand (db.draft? owner id) .notFound
  refuse (d.finalized = true) .conflict
  pure ((db.deleteDrafts fun d => d.id == id && d.userId == owner).collectOrphans now)

def importSource (owner draftId assetId : Id) (now : Time) (db : Db) : Except Error AssetRow :=
  demand (db.assets.find? fun a => a.id == assetId && a.userId == owner &&
    db.draftSources.rows.contains ⟨draftId, assetId⟩ &&
    db.drafts.rows.any fun d => d.id == draftId && d.userId == owner && !d.finalized &&
      now < d.updatedAt + sevenDays) .notFound

end Drafts

section Finalize

def mergeDraftMetadata (current base draft : PieceInput) : PieceInput :=
  let pick := fun current base draft : Text => if draft ≠ base then draft else current
  { opus := []
    musicKey := []
    title := pick current.title base.title draft.title
    composer := pick current.composer base.composer draft.composer
    favorite := if draft.favorite ≠ base.favorite then draft.favorite else current.favorite
    status := none
    sourceURL := pick current.sourceURL base.sourceURL draft.sourceURL
    listeningURL := pick current.listeningURL base.listeningURL draft.listeningURL
    notes := pick current.notes base.notes draft.notes
    aliases := [] }

def Db.toPiece (db : Db) (p : PieceRow) : Piece where
  opus := p.opus
  musicKey := p.musicKey
  id := p.id
  title := p.title
  composer := p.composer
  favorite := p.favorite
  status := p.status
  sourceURL := p.sourceURL
  listeningURL := p.listeningURL
  notes := p.notes
  createdAt := p.createdAt
  updatedAt := p.updatedAt
  pdf := (db.pdf? p.id).map fun f =>
    ⟨f.originalFilename, f.sizeBytes, f.checksumSHA256, f.pageCount, f.uploadedAt⟩
  lastPlayedAt := (db.reader? p.id).map ReaderRow.updatedAt
  aliases := p.aliases

/-- The owner's first other piece, by id, whose PDF has this checksum. -/
def Db.duplicate? (db : Db) (owner id : Id) (checksum : Text) : Option DuplicatePiece :=
  ((db.pieces.rows.filter fun p => p.userId == owner && p.id != id &&
    db.pdfs.rows.any fun f => f.pieceId == p.id && f.checksumSHA256 == checksum).mergeSort
      fun p q => p.id ≤ q.id).head?.map fun p => ⟨p.id, p.title⟩

def finalizedPiece (owner id : Id) (db : Db) : Except Error FinalizeResult := do
  let p ← demand (db.piece? owner id) .notFound
  pure ⟨db.toPiece p,
    (db.toPiece p).pdf.bind fun pdf => db.duplicate? owner id pdf.checksumSHA256⟩

/-- What `finalizeImport` has found when its checks pass: the draft, the metadata
to save, and the PDF it replaces. -/
structure FinalizePlan where
  draft : ImportDraft
  metadata : PieceInput
  old : Option PdfRow
  deriving DecidableEq

inductive Finalization
  | done (result : FinalizeResult)
  | save (plan : FinalizePlan)
  deriving DecidableEq

def mergedMetadata (current : PieceRow) (d : DraftRow) (metadata : PieceInput) :
    Except Error PieceInput := do
  refuse (current.contentRevision ≠ d.baseRevision) .pieceChanged
  match d.metadata.base with
  | some base =>
    let merged ← validatePiece (mergeDraftMetadata current.draftInput base metadata)
    pure { merged with
      aliases := current.aliases, opus := current.opus, musicKey := current.musicKey }
  | none =>
    refuse (metadata ≠ current.draftInput) .pieceChanged
    pure { metadata with
      aliases := current.aliases, opus := current.opus, musicKey := current.musicKey }

def finalizePlan (owner : Id) (d : ImportDraft) (metadata : PieceInput) (db : Db) :
    Except Error FinalizePlan :=
  match d.row.pieceId with
  | some pieceId => do
    let current ← demand (db.piece? owner pieceId) .notFound
    let metadata ← mergedMetadata current d.row metadata
    pure ⟨d, metadata, db.pdf? pieceId⟩
  | none => pure ⟨d, { metadata with aliases := [], opus := [], musicKey := [] }, none⟩

/-- The checks of `finalizeImport` before the file is saved, of which a retry of a
finalized draft is one. -/
def finalizeChecks (owner id : Id) (revision : Int) (data : Bytes) (now : Time) (db : Db) :
    Except Error Finalization := do
  let d ← db.draftTx s owner id now
  refuse ((d.row.revision : Int) ≠ revision) .conflict
  match d.row.finalized, d.row.pieceId with
  | true, some pieceId => return .done (← finalizedPiece owner pieceId db)
  | _, _ =>
    validateManifest s.validUUID d.row.manifest d.sources false
    let metadata ← validatePiece d.row.metadata.input
    refuse (s.importLimit < data.length) .importLimit
    let file ← validateImportBytes s.decoders data
    refuse (file.mime ≠ .pdf ∨ file.pages ≠ d.row.manifest.pages.length)
      (.invalid "output PDF must have exactly the prepared page count")
    return .save (← finalizePlan owner d metadata db)

/-- An unedited preparation keeps the original bytes. -/
def savedBytes (stored : Key → Option Bytes) (plan : FinalizePlan) (data : Bytes) :
    Except Error Bytes :=
  match plan.old with
  | some f =>
    if f.pageCount = plan.draft.row.manifest.pages.length ∧
        plan.draft.row.manifest = plan.draft.row.initialManifest then
      demand (stored f.storageKey) .assetStore
    else pure data
  | none => pure data

/-- `INSERT INTO pieces(id,user_id,title)`, with the columns' defaults. -/
def titledPiece (owner id : Id) (title : Text) (now : Time) : PieceRow where
  id := id
  userId := owner
  title := title
  composer := []
  favorite := false
  status := statusPlaying
  sourceURL := []
  listeningURL := []
  notes := []
  aliases := []
  opus := []
  musicKey := []
  searchText := []
  composerSort := []
  composerSortSource := []
  composerSortVersion := 0
  contentRevision := 0
  preparationManifest := none
  createdAt := now
  updatedAt := now

def finalizedChange (metadata : PieceInput) (manifest : EditManifest) (now : Time) :
    Db.PieceChange where
  apply p :=
    { p with
      title := metadata.title
      composer := metadata.composer
      favorite := metadata.favorite
      sourceURL := metadata.sourceURL
      listeningURL := metadata.listeningURL
      notes := metadata.notes
      preparationManifest := some manifest
      searchText := searchText s.unicode metadata
      composerSort := composerSortKey s.unicode metadata.composer
      composerSortSource := metadata.composer
      composerSortVersion := composerKeyVersion
      contentRevision := p.contentRevision + 1
      updatedAt := now }
  id_eq _ := rfl
  userId_eq _ := rfl

def finalizedDraft (pieceId : Id) (now : Time) : Db.DraftChange where
  apply d := { d with finalized := true, pieceId := some pieceId, updatedAt := now }
  id_eq _ := rfl
  userId_eq _ := rfl

def finalizedPdf (plan : FinalizePlan) (pieceId : Id) (object : Object) (now : Time) : PdfRow where
  pieceId := pieceId
  storageKey := object.key
  originalFilename := plan.metadata.title ++ ".pdf".toList
  sizeBytes := object.size
  checksumSHA256 := object.checksum
  pageCount := plan.draft.row.manifest.pages.length
  uploadedAt := now

/-- The piece to write to: the one the draft started from, or a new row. -/
def finalizeTarget (owner : Id) (plan : FinalizePlan) (newId : Id) (now : Time) (db : Db) :
    Except Error (Id × Db) :=
  match plan.draft.row.pieceId with
  | some pieceId => pure (pieceId, db)
  | none => do
    let db ← db.insertPiece (titledPiece owner newId plan.metadata.title now)
    pure (newId, db)

/-- The piece, its PDF and its sources; a new PDF resets the reading place. -/
def savePiece (owner : Id) (plan : FinalizePlan) (object : Object) (newId : Id) (now : Time)
    (db : Db) : Except Error (Id × Db) := do
  let manifest := plan.draft.row.manifest
  let (pieceId, db) ← finalizeTarget owner plan newId now db
  let db := db.updatePieces (fun p => p.id == pieceId) (finalizedChange s plan.metadata manifest now)
  let db ← db.upsertPdf (finalizedPdf plan pieceId object now)
  let db ← manifest.pages.foldlM (fun db p => db.keepPieceSource ⟨pieceId, p.sourceId⟩)
    (db.deletePieceSources pieceId)
  if (plan.old.map PdfRow.checksumSHA256).getD [] ≠ object.checksum then
    pure (pieceId, db.resetReader pieceId)
  else pure (pieceId, db)

/-- The draft is finalized and lets go of its sources and of the PDF it replaced. -/
def closeDraft (draftId pieceId : Id) (old : Option PdfRow) (now : Time) (db : Db) : Db :=
  let db := (db.updateDraft draftId (finalizedDraft pieceId now)).deleteDraftSources draftId
  (db.collectOrphans now).queueOld now old

def finalizeWrites (owner : Id) (plan : FinalizePlan) (object : Object) (newId : Id) (now : Time)
    (db : Db) : Except Error (Db × FinalizeResult) := do
  let (pieceId, db) ← savePiece s owner plan object newId now db
  let db := closeDraft plan.draft.row.id pieceId plan.old now db
  let result ← finalizedPiece owner pieceId db
  pure (db, result)

def finalizeImport (owner id : Id) (revision : Int) (data : Bytes) (object : Object)
    (newId : Id) (now : Time) (db : Db) : Except Error (Db × FinalizeResult) := do
  match ← finalizeChecks s owner id revision data now db with
  | .done result => pure (db, result)
  | .save plan => finalizeWrites s owner plan object newId now db

end Finalize

end Noted
