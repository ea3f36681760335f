import Mathlib.Data.Rat.Defs
import Noted.GoString

/-!
# Rows, requests and results (internal/app/types.go, import_types.go)

A UUID is a number, as it is for the database, and a storage key is an opaque
number. Times are microseconds. The floating-point fields of an edit are exact
rationals, since JSON has no NaN and no infinity.
-/

namespace Noted

abbrev Id := Nat

abbrev Key := Nat

abbrev Time := Nat

/-- `now()-interval '7 days'` is this much before now. -/
def sevenDays : Time := 7 * 24 * 60 * 60 * 1000000

inductive Error
  | notFound
  | conflict
  | pieceChanged
  | importLimit
  | draftLimit
  | assetStore
  | pdfChanged
  | composerChanged
  | throttled
  | foldVersionAhead (version : Nat)
  | invalid (message : String)
  | database
  deriving DecidableEq

structure Object where
  key : Key
  size : Nat
  checksum : Text
  deriving DecidableEq

inductive Mime
  | pdf
  | jpeg
  | png
  deriving DecidableEq

def maxOpenDrafts : Nat := 20

def maxPreparedPages : Nat := 10

def errTooManyPages : Error :=
  .invalid "page editing supports scores of up to 10 pages, so a longer score's PDF cannot be changed in Noted"

structure PieceInput where
  opus : Text
  musicKey : Text
  title : Text
  composer : Text
  favorite : Bool
  status : Option Text
  sourceURL : Text
  listeningURL : Text
  notes : Text
  aliases : Text
  deriving DecidableEq

structure PiecePatch where
  opus : Option Text
  musicKey : Option Text
  title : Option Text
  composer : Option Text
  favorite : Option Bool
  status : Option Text
  sourceURL : Option Text
  listeningURL : Option Text
  notes : Option Text
  aliases : Option Text
  deriving DecidableEq

def statusLearning : Text := "learning".toList

def statusPlaying : Text := "playing".toList

def statusShelved : Text := "shelved".toList

structure IMSLPAutoFill where
  title : Option Text
  composer : Option Text
  titleEdited : Bool
  composerEdited : Bool
  deriving DecidableEq

/-- A work, of the strings that the wiki's answer has: of `Text` where it comes as JSON. -/
structure IMSLPWork (α : Type := Rune) where
  title : List α
  composer : List α
  url : List α
  deriving DecidableEq

/-- A `PageEdit` as the server reads it: what is absent is empty or zero. The browser's is
`Prepare.PhotoEdit`. -/
structure PageEdit where
  margins : List Rat
  fitEdges : Bool
  paperCleanupStrength : Option Rat
  paperCleanup : Bool
  id : Text
  sourceId : Id
  page : Int
  angle : Rat
  rotation : Int
  outputWidth : Rat
  outputHeight : Rat
  scale : Rat
  x : Rat
  y : Rat
  crop : List Rat
  corners : List (List Rat)
  deriving DecidableEq

def PageEdit.fresh (id : Text) (sourceId : Id) (page : Nat) : PageEdit where
  margins := []
  fitEdges := false
  paperCleanupStrength := none
  paperCleanup := false
  id := id
  sourceId := sourceId
  page := page
  angle := 0
  rotation := 0
  outputWidth := 0
  outputHeight := 0
  scale := 0
  x := 0
  y := 0
  crop := []
  corners := []

structure EditManifest where
  version : Int
  pages : List PageEdit
  deriving DecidableEq

structure DraftMetadata where
  input : PieceInput
  provenance : IMSLPAutoFill
  base : Option PieceInput
  deriving DecidableEq

/-- The piece a request names: nothing, text that is no UUID, or a UUID. -/
inductive PieceRef
  | absent
  | malformed
  | piece (id : Id)
  deriving DecidableEq

structure CreateImport where
  pieceId : PieceRef
  sourceURL : GoString
  deriving DecidableEq

structure UpdateImport where
  revision : Int
  metadata : PieceInput
  imslpAutoFill : IMSLPAutoFill
  manifest : EditManifest
  deriving DecidableEq

structure ReaderState where
  pdfChecksumSHA256 : Text
  mode : Text
  lastPage : Int
  scrollPosition : Rat
  zoom : Rat
  scrollSpeed : Rat
  scrollPaused : Bool
  deriving DecidableEq

structure ComposerMerge where
  spellings : List Text
  target : Text
  fingerprint : Text
  deriving DecidableEq

inductive PieceOrder
  | title
  | composer
  | recent
  | added
  | fresh
  deriving DecidableEq

/-- A sort of `none` is a text that names no sort. -/
structure ListOptions where
  query : Text
  favorite : Option Bool
  statuses : Option (List Text)
  sort : Option PieceOrder
  deriving DecidableEq

section Rows

structure PieceRow where
  id : Id
  userId : Id
  title : Text
  composer : Text
  favorite : Bool
  status : Text
  sourceURL : Text
  listeningURL : Text
  notes : Text
  aliases : Text
  opus : Text
  musicKey : Text
  searchText : Text
  composerSort : Text
  composerSortSource : Text
  composerSortVersion : Nat
  contentRevision : Nat
  preparationManifest : Option EditManifest
  createdAt : Time
  updatedAt : Time
  deriving DecidableEq

structure PdfRow where
  pieceId : Id
  storageKey : Key
  originalFilename : Text
  sizeBytes : Nat
  checksumSHA256 : Text
  pageCount : Nat
  uploadedAt : Time
  deriving DecidableEq

structure ReaderRow where
  pieceId : Id
  mode : Text
  lastPage : Int
  scrollPosition : Rat
  zoom : Rat
  scrollSpeed : Rat
  scrollPaused : Bool
  updatedAt : Time
  deriving DecidableEq

structure AssetRow where
  id : Id
  userId : Id
  storageKey : Key
  filename : Text
  mime : Mime
  size : Nat
  checksum : Text
  pageCount : Nat
  width : Nat
  height : Nat
  createdAt : Time
  deriving DecidableEq

structure DraftRow where
  id : Id
  userId : Id
  pieceId : Option Id
  baseRevision : Nat
  revision : Nat
  metadata : DraftMetadata
  manifest : EditManifest
  initialManifest : EditManifest
  finalized : Bool
  updatedAt : Time
  deriving DecidableEq

structure DraftSource where
  draftId : Id
  assetId : Id
  deriving DecidableEq

structure PieceSource where
  pieceId : Id
  assetId : Id
  deriving DecidableEq

structure QueueRow where
  storageKey : Key
  queuedAt : Time
  attempts : Nat
  deriving DecidableEq

end Rows

section Results

structure PDF where
  originalFilename : Text
  sizeBytes : Nat
  checksumSHA256 : Text
  pageCount : Nat
  uploadedAt : Time
  deriving DecidableEq

structure Piece where
  opus : Text
  musicKey : Text
  id : Id
  title : Text
  composer : Text
  favorite : Bool
  status : Text
  sourceURL : Text
  listeningURL : Text
  notes : Text
  createdAt : Time
  updatedAt : Time
  pdf : Option PDF
  lastPlayedAt : Option Time
  aliases : Text
  deriving DecidableEq

/-- A library row; the PDF's content URL is made of the id. -/
structure PieceSummary where
  id : Id
  title : Text
  composer : Text
  aliases : Text
  favorite : Bool
  status : Text
  listeningURL : Text
  pdfPages : Option Nat
  lastPlayedAt : Option Time
  createdAt : Time
  searchText : Text
  deriving DecidableEq

structure DuplicatePiece where
  id : Id
  title : Text
  deriving DecidableEq

structure FinalizeResult where
  piece : Piece
  duplicateOf : Option DuplicatePiece
  deriving DecidableEq

structure ImportDraft where
  row : DraftRow
  sources : List AssetRow
  maxFileBytes : Nat
  deriving DecidableEq

end Results

end Noted
