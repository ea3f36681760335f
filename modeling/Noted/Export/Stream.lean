import Noted.Export.Path
import Noted.Library.Failing
import Noted.Library.Paging
import Noted.Types

/-!
# Streaming the library (internal/app/export.go)

`streamLibrary` reads the owner's pieces page by page, three times over, and writes a
ZIP archive of a JSON file, a table and the scores. Everything outside (the database,
the store, the writer, the context) answers each call as it likes, by the number of
the calls before it, and the calls are logged. What is written to an entry is kept in
the pieces it is written in: texts, records that `encoding/json` writes out, rows that
`encoding/csv` does, and bytes.
-/

namespace Noted.Export

open Library

/-- An error of the code's own, one from outside, `io.EOF`, `io.ErrNoProgress`, or two
joined. A loop that runs out of turns has diverged. -/
inductive ExportError
  | new (message : String)
  | outside (code : Nat)
  | eof
  | noProgress
  | join (first second : ExportError)
  | diverged
  deriving DecidableEq

structure ExportPDF where
  path : Text
  originalFilename : Text
  sizeBytes : Int
  checksumSHA256 : Text
  pageCount : Int
  uploadedAt : Time
  deriving DecidableEq

structure ExportReaderState where
  mode : Text
  lastPage : Int
  scrollPosition : Rat
  zoom : Rat
  scrollSpeed : Rat
  scrollPaused : Bool
  updatedAt : Time
  deriving DecidableEq

structure ExportPiece where
  opus : Text
  musicKey : Text
  id : Text
  title : Text
  composer : Text
  aliases : Text
  favorite : Bool
  status : Text
  sourceURL : Text
  listeningURL : Text
  notes : Text
  createdAt : Time
  updatedAt : Time
  pdf : Option ExportPDF
  readerState : Option ExportReaderState
  deriving DecidableEq

structure ExportRecord where
  piece : ExportPiece
  key : Key
  deriving DecidableEq

/-- Functions of other packages: the format characters of Unicode, `uuid.Parse`,
`time.Format` in RFC 3339, `json.Marshal`, and SHA-256 in hexadecimal. -/
structure Packages where
  isFormat : Char → Bool
  parse : Text → Except Nat UUID
  formatTime : Time → Text
  marshal : ExportReaderState → Except Nat Text
  sha256 : Bytes → Text

inductive ReadError
  | eof
  | other (code : Nat)
  deriving DecidableEq

/-- What an open reader answers to its `k`-th read, into a buffer of `size` bytes. -/
structure Reader where
  read (k size : Nat) : Bytes × Option ReadError
  fits : ∀ k size, (read k size).1.length ≤ size

/-- A write that fails, and whether the writer has taken what it was given all the same,
as `exportResponse.Write` has when its `Flush` fails. -/
structure WriteFailure where
  code : Nat
  kept : Bool
  deriving DecidableEq

structure Outside where
  cancelled : Nat → Option Nat
  page : Nat → Option Nat
  openObject : Nat → Key → Except Nat Reader
  closeReader : Nat → Option Nat
  write : Nat → Option WriteFailure
  commit : Nat → Option Nat

inductive Part
  | text (t : Text)
  | piece (p : ExportPiece)
  | row (fields : List Text)
  | bytes (b : Bytes)
  deriving DecidableEq

structure ZipEntry where
  name : Text
  parts : List Part
  deriving DecidableEq

/-- The archive written so far: the entries that have ended, the one being written, and
whether there is anything of the central directory. -/
structure Archive where
  ended : List ZipEntry
  current : Option ZipEntry
  directory : Bool
  deriving DecidableEq

inductive Pass
  | manifest
  | table
  | scores
  deriving DecidableEq

structure Visit where
  pass : Pass
  ordinal : Nat
  id : Text
  deriving DecidableEq

inductive CallKind
  | context
  | page
  | openObject
  | read
  | closeReader
  | write
  | commit
  deriving DecidableEq

structure Called where
  kind : CallKind
  failed : Option Nat
  deriving DecidableEq

/-- The calls to the outside, the reads of the open reader, the archive, and the visits
of the walk. -/
structure World where
  log : List Called
  reads : Nat
  archive : Archive
  visits : List Visit
  deriving DecidableEq

def World.called (w : World) (kind : CallKind) (failed : Option Nat) : World :=
  { w with log := w.log ++ [⟨kind, failed⟩] }

abbrev Exporting (α : Type) : Type := Failing World ExportError α

/-- The owner's pieces with their PDFs and reader states, in the order of their ids. -/
structure Snapshot where
  rows : List ExportRecord
  sorted : rows.Pairwise fun a b => a.piece.id < b.piece.id

namespace Archive

variable (a : Archive)

def entries : List ZipEntry := a.ended ++ a.current.toList

def create (name : Text) : Archive := { a with ended := a.entries, current := some ⟨name, []⟩ }

def add (part : Part) : Archive :=
  { a with current := a.current.map fun entry => { entry with parts := entry.parts ++ [part] } }

end Archive

def call (kind : CallKind) (answer : Nat → Option Nat) : Exporting Unit :=
  Failing.looking fun w => do
    Failing.change fun w => w.called kind (answer w.log.length)
    match answer w.log.length with
    | none => pure ()
    | some code => Failing.fail (.outside code)

section Calls

variable (p : Packages) (o : Outside) (s : Snapshot)

def checkContext : Exporting Unit := call .context o.cancelled

def writing (f : Archive → Archive) : Exporting Unit :=
  Failing.looking fun w => do
    let failure := o.write w.log.length
    Failing.change fun w =>
      { w.called .write (failure.map (·.code)) with
        archive := if failure.all (·.kept) then f w.archive else w.archive }
    match failure with
    | none => pure ()
    | some failure => Failing.fail (.outside failure.code)

def createHeader (name : Text) : Exporting Unit := writing o fun a => a.create name

def write (part : Part) : Exporting Unit := writing o fun a => a.add part

/-- `Close` ends the last entry before it writes the central directory. -/
def close : Exporting Unit := do
  writing o id
  writing o fun a => { a with directory := true }

def exportPageSize : Nat := 100

/-- `pgExportSnapshot.page`; the empty text is no cursor. -/
def page (after : Text) : Exporting (List ExportRecord) := do
  call .page o.page
  pure (keysetPage (fun r : ExportRecord => r.piece.id) exportPageSize s.rows
    (if after = [] then none else some after))

def located (r : ExportRecord) (ordinal : Nat) : Except ExportError ExportRecord :=
  match r.piece.pdf with
  | none => pure r
  | some pdf => do
    let path ← exportScorePath p.isFormat (fun id => (p.parse id).mapError .outside)
      r.piece.title r.piece.id ordinal
    pure { r with piece := { r.piece with pdf := some { pdf with path := path } } }

end Calls

section Walk

variable {β : Type} (p : Packages) (o : Outside) (s : Snapshot) (pass : Pass)
  (visit : β → ExportRecord → Exporting β)

/-- The inner loop of `walk`; `b` is what `visit` keeps from one piece to the next. -/
def visitPage (ordinal : Nat) (b : β) : List ExportRecord → Exporting (Nat × β)
  | [] => pure (ordinal, b)
  | r :: rest => do
    checkContext o
    let r ← Failing.ofExcept (located p r (ordinal + 1))
    Failing.change fun w => { w with visits := w.visits ++ [⟨pass, ordinal + 1, r.piece.id⟩] }
    let b ← visit b r
    visitPage (ordinal + 1) b rest

/-- The outer loop of `walk`, with the turns that it has left. -/
def walkFrom : Nat → Nat → β → List ExportRecord → Exporting β
  | 0, _, _, _ => Failing.fail .diverged
  | turns + 1, ordinal, b, rows => do
    let (ordinal, b) ← visitPage p o pass visit ordinal b rows
    if rows.length < exportPageSize then pure b
    else do
      let next ← page o s ((rows.getLast?.map fun r => r.piece.id).getD [])
      walkFrom turns ordinal b next

/-- Every walk starts on the page that was fetched first. -/
def walk (first : List ExportRecord) (b : β) : Exporting β :=
  walkFrom p o s pass visit (s.rows.length + 1) 0 b first

end Walk

section Files

variable (p : Packages) (o : Outside)

def csvHeader : List Text :=
  ["id", "title", "composer", "aliases", "favorite", "status", "sourceUrl", "listeningUrl", "notes",
    "createdAt", "updatedAt", "pdfPath", "originalFilename", "sizeBytes", "checksumSha256",
    "pageCount", "uploadedAt", "readerState", "opus", "musicKey"].map String.toList

def pdfFields : Option ExportPDF → List Text
  | none => List.replicate 6 []
  | some f => [f.path, f.originalFilename, (toString f.sizeBytes).toList, f.checksumSHA256,
      (toString f.pageCount).toList, p.formatTime f.uploadedAt]

def stateField : Option ExportReaderState → Except ExportError Text
  | none => pure []
  | some state => (p.marshal state).mapError .outside

def csvFields (r : ExportRecord) : Except ExportError (List Text) := do
  let piece := r.piece
  let state ← stateField p piece.readerState
  pure (([piece.id, piece.title, piece.composer, piece.aliases,
      (if piece.favorite then "true".toList else "false".toList), piece.status, piece.sourceURL,
      piece.listeningURL, piece.notes, p.formatTime piece.createdAt,
      p.formatTime piece.updatedAt] ++
    pdfFields p piece.pdf ++ [state, piece.opus, piece.musicKey]).map exportCSVCell)

def isChecksum (t : Text) : Bool :=
  t.length == 64 && t.all fun c =>
    c.isDigit || ('a' ≤ c && c ≤ 'f') || ('A' ≤ c && c ≤ 'F')

def openObject (key : Key) : Exporting Reader :=
  Failing.looking fun w =>
    match o.openObject w.log.length key with
    | .ok reader => do
      Failing.change fun w => { w.called .openObject none with reads := 0 }
      pure reader
    | .error code => do
      Failing.change fun w => w.called .openObject (some code)
      Failing.fail (.outside code)

def read (reader : Reader) (size : Nat) : Exporting (Bytes × Option ReadError) :=
  Failing.looking fun w => do
    Failing.change fun w => { w.called .read none with reads := w.reads + 1 }
    pure (reader.read w.reads size)

def ReadError.toError : ReadError → ExportError
  | .eof => .eof
  | .other code => .outside code

def takeChunk (chunk : Bytes) (emptyReads : Nat) : Exporting Nat :=
  if chunk ≠ [] then do
    write o (.bytes chunk)
    pure 0
  else if 100 ≤ emptyReads + 1 then Failing.fail .noProgress
  else pure (emptyReads + 1)

/-- One turn of the loop that copies a score: what has been copied, and the reads
without a byte since; the third part says that the loop ends. -/
def copyTurn (reader : Reader) (size : Nat) (copied : Bytes) (emptyReads : Nat) :
    Exporting (Bytes × Nat × Bool) := do
  checkContext o
  let (chunk, readErr) ← read reader (min (32 * 1024) (size - copied.length))
  checkContext o
  let emptyReads ← takeChunk o chunk emptyReads
  match readErr with
  | none => pure (copied ++ chunk, emptyReads, false)
  | some e =>
    if e = .eof ∧ (copied ++ chunk).length = size then pure (copied ++ chunk, emptyReads, true)
    else Failing.fail (.join (.new "export asset read failed") e.toError)

def copyScore (reader : Reader) (size : Nat) : Nat → Bytes → Nat → Exporting Bytes
  | 0, _, _ => Failing.fail .diverged
  | turns + 1, copied, emptyReads =>
    if copied.length < size then do
      let (copied, emptyReads, ended) ← copyTurn o reader size copied emptyReads
      if ended then pure copied else copyScore reader size turns copied emptyReads
    else pure copied

def verifyEnd (reader : Reader) (checksum : Text) (copied : Bytes) : Nat → Exporting Unit
  | 0 => Failing.fail .noProgress
  | turns + 1 => do
    checkContext o
    let (chunk, readErr) ← read reader 1
    if chunk ≠ [] then Failing.fail (.new "export asset exceeds recorded size")
    else
      match readErr with
      | none => verifyEnd reader checksum copied turns
      | some .eof =>
        if p.sha256 copied ≠ checksum then Failing.fail (.new "export asset checksum changed")
        else checkContext o
      | some (.other code) => Failing.fail (.outside code)

/-- What is done while the reader is open. A score is copied in at most 100 turns for
each byte. -/
def scoreEntry (pdf : ExportPDF) (reader : Reader) : Exporting Unit := do
  createHeader o pdf.path
  let copied ← copyScore o reader pdf.sizeBytes.toNat (100 * (pdf.sizeBytes.toNat + 1)) [] 0
  verifyEnd p o reader pdf.checksumSHA256 copied 100

def writeExportScore (pdf : ExportPDF) (key : Key) : Exporting Unit := do
  if pdf.sizeBytes ≤ 0 then Failing.fail (.new "invalid export asset size")
  else if isChecksum pdf.checksumSHA256 = false then
    Failing.fail (.new "invalid export asset checksum")
  else do
    let reader ← openObject o key
    Failing.deferring (scoreEntry p o pdf reader) (call .closeReader o.closeReader) .join

end Files

def World.start : World := ⟨[], 0, ⟨[], none, false⟩, []⟩

end Noted.Export
