import Noted.Imports

/-!
# The library (internal/app/service.go)

The writers of a piece, and the queries of the library.
-/

namespace Noted

open Library Search

variable (s : Service)

section Writers

def createdPiece (owner id : Id) (input : PieceInput) (now : Time) : PieceRow where
  id := id
  userId := owner
  title := input.title
  composer := input.composer
  favorite := input.favorite
  status := input.status.getD []
  sourceURL := input.sourceURL
  listeningURL := input.listeningURL
  notes := input.notes
  aliases := input.aliases
  opus := input.opus
  musicKey := input.musicKey
  searchText := searchText s.unicode input
  composerSort := composerSortKey s.unicode input.composer
  composerSortSource := input.composer
  composerSortVersion := composerKeyVersion
  contentRevision := 0
  preparationManifest := none
  createdAt := now
  updatedAt := now

def createPiece (owner : Id) (input : PieceInput) (id : Id) (now : Time) (db : Db) :
    Except Error Db := do
  let input ← validatePiece { input with status := input.status.or (some statusPlaying) }
  db.insertPiece (createdPiece s owner id input now)

def PieceRow.input (p : PieceRow) : PieceInput where
  opus := p.opus
  musicKey := p.musicKey
  title := p.title
  composer := p.composer
  favorite := p.favorite
  status := some p.status
  sourceURL := p.sourceURL
  listeningURL := p.listeningURL
  notes := p.notes
  aliases := p.aliases

def patched (patch : PiecePatch) (input : PieceInput) : PieceInput where
  opus := patch.opus.getD input.opus
  musicKey := patch.musicKey.getD input.musicKey
  title := patch.title.getD input.title
  composer := patch.composer.getD input.composer
  favorite := patch.favorite.getD input.favorite
  status := patch.status.or input.status
  sourceURL := patch.sourceURL.getD input.sourceURL
  listeningURL := patch.listeningURL.getD input.listeningURL
  notes := patch.notes.getD input.notes
  aliases := patch.aliases.getD input.aliases

def updatedPiece (input : PieceInput) (now : Time) : Db.PieceChange where
  apply p :=
    { p with
      title := input.title
      composer := input.composer
      favorite := input.favorite
      sourceURL := input.sourceURL
      listeningURL := input.listeningURL
      notes := input.notes
      status := input.status.getD []
      aliases := input.aliases
      searchText := searchText s.unicode input
      composerSort := composerSortKey s.unicode input.composer
      composerSortSource := input.composer
      composerSortVersion := composerKeyVersion
      opus := input.opus
      musicKey := input.musicKey
      updatedAt := now }
  id_eq _ := rfl
  userId_eq _ := rfl

def updatePiece (owner id : Id) (patch : PiecePatch) (now : Time) (db : Db) : Except Error Db := do
  let current ← demand (db.piece? owner id) .notFound
  let input ← validatePiece (patched patch current.input)
  pure (db.updatePieces (fun p => p.id == id && p.userId == owner) (updatedPiece s input now))

def deletePiece (owner id : Id) (now : Time) (db : Db) : Except Error Db := do
  let p ← demand (db.piece? owner id) .notFound
  let old := db.pdf? p.id
  let db := db.deletePieces fun p => p.id == id && p.userId == owner
  pure ((db.collectOrphans now).queueOld now old)

def readerRow (id : Id) (state : ReaderState) (now : Time) : ReaderRow where
  pieceId := id
  mode := state.mode
  lastPage := state.lastPage
  scrollPosition := state.scrollPosition
  zoom := state.zoom
  scrollSpeed := state.scrollSpeed
  scrollPaused := state.scrollPaused
  updatedAt := now

def putReaderState (owner id : Id) (state : ReaderState) (now : Time) (db : Db) :
    Except Error Db := do
  validateReaderState state
  let p ← demand (db.piece? owner id) .notFound
  let f ← demand (db.pdf? p.id) .notFound
  refuse (f.checksumSHA256 ≠ state.pdfChecksumSHA256) .pdfChanged
  db.putReader (readerRow id state now)

end Writers

section Queries

def getPiece (owner id : Id) (db : Db) : Except Error Piece := do
  let p ← demand (db.piece? owner id) .notFound
  pure (db.toPiece p)

structure Joined where
  piece : PieceRow
  pdf : Option PdfRow
  reader : Option ReaderRow

def Db.join (db : Db) (p : PieceRow) : Joined := ⟨p, db.pdf? p.id, db.reader? p.id⟩

def titleOrder (a b : Joined) : Ordering :=
  (s.lowerOrder a.piece.title b.piece.title).then
    ((s.lowerOrder a.piece.composer b.piece.composer).then (compare a.piece.id b.piece.id))

def Joined.played (j : Joined) : Option Time := j.reader.map ReaderRow.updatedAt

def descNullsLast : Option Time → Option Time → Ordering
  | some a, some b => compare b a
  | some _, none => .lt
  | none, some _ => .gt
  | none, none => .eq

def ascNullsFirst (a b : Option Time) : Ordering := descNullsLast b a

def pieceOrders (order : PieceOrder) (a b : Joined) : Ordering :=
  match order with
  | .title | .composer => titleOrder s a b
  | .recent => (descNullsLast a.played b.played).then (titleOrder s a b)
  | .added => (compare b.piece.createdAt a.piece.createdAt).then (titleOrder s a b)
  | .fresh => (compare a.pdf.isNone b.pdf.isNone).then
      ((ascNullsFirst a.played b.played).then (titleOrder s a b))

def listWhere (owner : Id) (options : ListOptions) (p : PieceRow) : Bool :=
  p.userId == owner &&
    ((searchTerms s.unicode options.query).all fun term =>
      likeClause p.searchText term == some true) &&
    options.favorite.all (p.favorite == ·) && options.statuses.all (·.contains p.status)

def listRows (owner : Id) (options : ListOptions) (db : Db) : Except Error (List Joined) := do
  let order ← demand options.sort (.invalid "sort must be title, composer, recent, added or fresh")
  pure (((db.pieces.rows.filter (listWhere s owner options)).map db.join).mergeSort
    fun a b => pieceOrders s order a b != .gt)

/-- `sort.SliceStable` by the rank of a row's search text. -/
def rankSorted {α : Type*} (indexOf : α → Text) (query : Text) (rows : List α) : List α :=
  let terms := searchTerms s.unicode query
  if terms = [] then rows
  else rows.mergeSort fun a b => exactTermRank (indexOf a) terms ≤ exactTermRank (indexOf b) terms

def composerSorted {α : Type*} (composerOf : α → Text) (sort : Option PieceOrder) (rows : List α) :
    List α :=
  if sort = some .composer then sortByComposer s.unicode s.collate rows composerOf else rows

def Piece.searchText (piece : Piece) : Text :=
  Noted.searchText s.unicode
    { opus := piece.opus, musicKey := piece.musicKey, title := piece.title
      composer := piece.composer, favorite := false, status := none, sourceURL := []
      listeningURL := [], notes := piece.notes, aliases := piece.aliases }

def listPieces (owner : Id) (options : ListOptions) (db : Db) : Except Error (List Piece) := do
  let rows ← listRows s owner options db
  pure (rankSorted s (Piece.searchText s) options.query
    (composerSorted s Piece.composer options.sort (rows.map fun j => db.toPiece j.piece)))

def Joined.summary (j : Joined) : PieceSummary where
  id := j.piece.id
  title := j.piece.title
  composer := j.piece.composer
  aliases := j.piece.aliases
  favorite := j.piece.favorite
  status := j.piece.status
  listeningURL := j.piece.listeningURL
  pdfPages := j.pdf.map PdfRow.pageCount
  lastPlayedAt := j.played
  createdAt := j.piece.createdAt
  searchText := j.piece.searchText

def listPieceSummaries (owner : Id) (options : ListOptions) (db : Db) :
    Except Error (List PieceSummary) := do
  let rows ← listRows s owner options db
  pure (rankSorted s PieceSummary.searchText options.query
    (composerSorted s PieceSummary.composer options.sort (rows.map Joined.summary)))

def pdfSource (owner id : Id) (db : Db) : Except Error PdfRow := do
  let p ← demand (db.piece? owner id) .notFound
  demand (db.pdf? p.id) .notFound

def freshReaderState (checksum : Text) : ReaderState where
  pdfChecksumSHA256 := checksum
  mode := "page".toList
  lastPage := 1
  scrollPosition := 0
  zoom := 1
  scrollSpeed := 5
  scrollPaused := true

def getReaderState (owner id : Id) (db : Db) : Except Error (ReaderState × Option Time) := do
  let p ← demand (db.piece? owner id) .notFound
  let f ← demand (db.pdf? p.id) .notFound
  match db.reader? p.id with
  | some r =>
    pure (⟨f.checksumSHA256, r.mode, r.lastPage, r.scrollPosition, r.zoom, r.scrollSpeed,
      r.scrollPaused⟩, some r.updatedAt)
  | none => pure (freshReaderState f.checksumSHA256, none)

end Queries

end Noted
