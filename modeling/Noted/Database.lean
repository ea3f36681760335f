import Noted.Library.Attempt
import Noted.Library.Table
import Noted.Types

/-!
# The database (migrations, and the SQL of internal/app)

The tables that the import, the library and the cleanup share, and the statements
that change them. A foreign key, a unique key or a primary key that a statement
would break makes it fail, as PostgreSQL does; `ON DELETE CASCADE` is part of the
delete. `CHECK` constraints are left out: the validators ask for more.
-/

namespace Noted

open Library

structure Db where
  pieces : Table PieceRow.id
  pdfs : Table PdfRow.pieceId
  readers : Table ReaderRow.pieceId
  drafts : Table DraftRow.id
  assets : Table AssetRow.id
  draftSources : Table fun s : DraftSource => s
  pieceSources : Table fun s : PieceSource => s
  queue : Table QueueRow.storageKey
  foldVersion : Nat

namespace Db

variable (db : Db)

section Queries

def piece? (owner id : Id) : Option PieceRow :=
  db.pieces.find? fun p => p.id == id && p.userId == owner

def pdf? (pieceId : Id) : Option PdfRow := db.pdfs.find? fun f => f.pieceId == pieceId

def reader? (pieceId : Id) : Option ReaderRow := db.readers.find? fun r => r.pieceId == pieceId

def draft? (owner id : Id) : Option DraftRow :=
  db.drafts.find? fun d => d.id == id && d.userId == owner

/-- The sources of a draft that its owner owns, `ORDER BY a.created_at,a.id`. -/
def draftAssets (owner draftId : Id) : List AssetRow :=
  (db.assets.rows.filter fun a =>
    a.userId == owner && db.draftSources.rows.contains ⟨draftId, a.id⟩).mergeSort
    fun a b => a.createdAt < b.createdAt || (a.createdAt == b.createdAt && a.id ≤ b.id)

def openDrafts (owner : Id) (now : Time) : Nat :=
  db.drafts.rows.countP fun d => d.userId == owner && !d.finalized && now < d.updatedAt + sevenDays

def hasPiece (id : Id) : Bool := db.pieces.rows.any fun p => p.id == id

def hasAsset (id : Id) : Bool := db.assets.rows.any fun a => a.id == id

def hasDraft (id : Id) : Bool := db.drafts.rows.any fun d => d.id == id

def pdfHolds (key : Key) : Bool := db.pdfs.rows.any fun f => f.storageKey == key

def assetHolds (key : Key) : Bool := db.assets.rows.any fun a => a.storageKey == key

def referenced (key : Key) : Bool := db.assetHolds key || db.pdfHolds key

end Queries

section Pieces

@[simps] def setPieces (pieces : Table PieceRow.id) : Db := { db with pieces := pieces }

def insertPiece (row : PieceRow) : Except Error Db := do
  let pieces ← demand (db.pieces.insert? row) .database
  pure (db.setPieces pieces)

structure PieceChange where
  apply : PieceRow → PieceRow
  id_eq : ∀ p, (apply p).id = p.id
  userId_eq : ∀ p, (apply p).userId = p.userId

@[simps] def updatePieces (where_ : PieceRow → Bool) (change : PieceChange) : Db :=
  { db with pieces := db.pieces.modify where_ change.apply change.id_eq }

/-- `piece_id UUID PRIMARY KEY`, `storage_key TEXT NOT NULL UNIQUE` -/
def upsertPdf (row : PdfRow) : Except Error Db := do
  refuse (db.hasPiece row.pieceId = false) .database
  refuse (db.pdfs.rows.any fun f => f.storageKey == row.storageKey && f.pieceId != row.pieceId)
    .database
  pure { db with pdfs := db.pdfs.put row }

def putReader (row : ReaderRow) : Except Error Db := do
  refuse (db.hasPiece row.pieceId = false) .database
  pure { db with readers := db.readers.put row }

/-- The reading place goes back to the start; `updated_at` stays. -/
@[simps] def resetReader (pieceId : Id) : Db :=
  { db with
    readers := db.readers.modify (fun r => r.pieceId == pieceId)
      (fun r => { r with lastPage := 1, scrollPosition := 0, zoom := 1, scrollPaused := true })
      fun _ => rfl }

end Pieces

section Drafts

def insertDraft (row : DraftRow) : Except Error Db := do
  refuse (row.pieceId.any fun id => !db.hasPiece id) .database
  let drafts ← demand (db.drafts.insert? row) .database
  pure { db with drafts := drafts }

structure DraftChange where
  apply : DraftRow → DraftRow
  id_eq : ∀ d, (apply d).id = d.id
  userId_eq : ∀ d, (apply d).userId = d.userId

@[simps] def updateDraft (id : Id) (change : DraftChange) : Db :=
  { db with drafts := db.drafts.modify (fun d => d.id == id) change.apply change.id_eq }

/-- With `ON DELETE CASCADE` to the draft's sources. -/
@[simps] def deleteDrafts (gone : DraftRow → Bool) : Db :=
  { db with
    drafts := db.drafts.delete gone
    draftSources := db.draftSources.delete fun s =>
      db.drafts.rows.any fun d => gone d && d.id == s.draftId }

def insertAsset (row : AssetRow) : Except Error Db := do
  refuse (db.assetHolds row.storageKey = true) .database
  let assets ← demand (db.assets.insert? row) .database
  pure { db with assets := assets }

/-- `ON CONFLICT(storage_key) DO UPDATE SET storage_key=excluded.storage_key
RETURNING id` -/
def retainAsset (row : AssetRow) : Except Error (Db × Id) :=
  match db.assets.find? fun a => a.storageKey == row.storageKey with
  | some a => pure (db, a.id)
  | none => do
    let db ← db.insertAsset row
    pure (db, row.id)

def insertDraftSource (s : DraftSource) : Except Error Db := do
  refuse (db.hasDraft s.draftId = false ∨ db.hasAsset s.assetId = false) .database
  let draftSources ← demand (db.draftSources.insert? s) .database
  pure { db with draftSources := draftSources }

def keepDraftSource (s : DraftSource) : Except Error Db := do
  refuse (db.hasDraft s.draftId = false ∨ db.hasAsset s.assetId = false) .database
  pure { db with draftSources := db.draftSources.put s }

@[simps] def deleteDraftSources (draftId : Id) : Db :=
  { db with draftSources := db.draftSources.delete fun s => s.draftId == draftId }

@[simps] def deletePieceSources (pieceId : Id) : Db :=
  { db with pieceSources := db.pieceSources.delete fun s => s.pieceId == pieceId }

def keepPieceSource (s : PieceSource) : Except Error Db := do
  refuse (db.hasPiece s.pieceId = false ∨ db.hasAsset s.assetId = false) .database
  pure { db with pieceSources := db.pieceSources.put s }

/-- With `ON DELETE CASCADE` to everything a piece has. -/
def deletePieces (gone : PieceRow → Bool) : Db :=
  let removed := fun id => db.pieces.rows.any fun p => gone p && p.id == id
  { db.deleteDrafts fun d => d.pieceId.any removed with
    pieces := db.pieces.delete gone
    pdfs := db.pdfs.delete fun f => removed f.pieceId
    readers := db.readers.delete fun r => removed r.pieceId
    pieceSources := db.pieceSources.delete fun s => removed s.pieceId }

end Drafts

section Queue

/-- `INSERT INTO asset_deletion_queue … ON CONFLICT DO NOTHING` -/
@[simps] def enqueue (now : Time) (key : Key) : Db :=
  { db with queue := db.queue.insertNew ⟨key, now, 0⟩ }

def queueKey (now : Time) (key : Key) : Db :=
  if db.referenced key then db else db.enqueue now key

def queueOld (now : Time) (old : Option PdfRow) : Db :=
  match old with
  | some f => db.queueKey now f.storageKey
  | none => db

def orphan (a : AssetRow) : Bool :=
  !(db.draftSources.rows.any fun s => s.assetId == a.id) &&
    !(db.pieceSources.rows.any fun s => s.assetId == a.id)

def collectOrphans (now : Time) : Db :=
  ((db.assets.rows.filter fun a => db.orphan a && !db.pdfHolds a.storageKey).map
    AssetRow.storageKey).foldl (fun db key => db.enqueue now key)
    { db with assets := db.assets.delete db.orphan }

@[simps] def dequeue (key : Key) : Db :=
  { db with queue := db.queue.delete fun q => q.storageKey == key }

@[simps] def countAttempt (key : Key) : Db :=
  { db with
    queue := db.queue.modify (fun q => q.storageKey == key)
      (fun q => { q with attempts := q.attempts + 1 }) fun _ => rfl }

end Queue

end Db

end Noted
