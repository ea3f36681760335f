import Noted.Pieces

/-!
# Composers and derived columns (internal/app/composers.go, search.go)

The composer list, the merge of composer spellings, the repair of filing keys and
the refold of the search text.
-/

namespace Noted

open Library

variable (s : Service)

structure ComposerPiece where
  id : Id
  title : Text
  composer : Text
  hasPDF : Bool
  deriving DecidableEq

structure ComposerEntry where
  name : Text
  key : Text
  group : Text
  count : Nat
  pieces : List ComposerPiece
  deriving DecidableEq

structure ComposerPreview where
  fingerprint : Text
  count : Nat
  pieces : List ComposerPiece
  deriving DecidableEq

section Listing

def Db.composerPiece (db : Db) (p : PieceRow) : ComposerPiece where
  id := p.id
  title := p.title
  composer := p.composer
  hasPDF := (db.pdf? p.id).isSome

def staleComposer (p : PieceRow) : Bool :=
  p.composerSortVersion != composerKeyVersion || p.composerSortSource != p.composer

def filingKey (p : PieceRow) : Text :=
  if staleComposer p then composerSortKey s.unicode p.composer else p.composerSort

def addComposer (db : Db) (entries : List ComposerEntry) (p : PieceRow) : List ComposerEntry :=
  if entries.any fun e => e.name == p.composer then
    entries.map fun e =>
      if e.name = p.composer then
        { e with count := e.count + 1, pieces := e.pieces ++ [db.composerPiece p] }
      else e
  else
    let key := filingKey s p
    entries ++ [⟨p.composer, key, key.takeWhile (· ≠ ' '), 1, [db.composerPiece p]⟩]

/-- `strings.Compare` on valid UTF-8 compares code points. -/
def compareText (a b : Text) : Ordering := if a < b then .lt else if b < a then .gt else .eq

def composerEntryOrder (a b : ComposerEntry) : Ordering :=
  if (a.group == []) != (b.group == []) then if a.group = [] then .gt else .lt
  else (compareText a.key b.key).then (compareText a.name b.name)

def listComposers (owner : Id) (db : Db) : List ComposerEntry :=
  let rows := (db.pieces.rows.filter fun p => p.userId == owner).mergeSort fun p q =>
    (s.lowerOrder p.title q.title).then (compare p.id q.id) != .gt
  (rows.foldl (addComposer s db) []).mergeSort fun a b => composerEntryOrder a b != .gt

end Listing

section Merge

def validateComposerMerge (input : ComposerMerge) : Except Error ComposerMerge := do
  refuse (input.spellings.length < 1 ∨ 100 < input.spellings.length)
    (.invalid "select between 1 and 100 composer spellings")
  let spellings := (input.spellings.mergeSort fun a b => compareText a b != .gt).destutter (· ≠ ·)
  refuse (spellings.any fun name => 300 < byteLen name) (.invalid "invalid composer spelling")
  let target := trimSpace input.target
  refuse (target = [] ∨ 300 < byteLen target)
    (.invalid "target composer must contain 1 to 300 characters")
  pure ⟨spellings, target, input.fingerprint⟩

def composerPreview (owner : Id) (input : ComposerMerge) (db : Db) :
    Except Error ComposerPreview := do
  let rows := (db.pieces.rows.filter fun p =>
    p.userId == owner && input.spellings.contains p.composer).mergeSort fun p q => p.id ≤ q.id
  refuse (((rows.map PieceRow.composer).dedup).length ≠ input.spellings.length) .composerChanged
  pure ⟨s.fingerprint owner input.target input.spellings (rows.map fun p => (p.id, p.composer)),
    rows.length, rows.map db.composerPiece⟩

def previewComposerMerge (owner : Id) (input : ComposerMerge) (db : Db) :
    Except Error ComposerPreview := do
  let input ← validateComposerMerge input
  composerPreview s owner input db

def mergedPiece (target : Text) (now : Time) : Db.PieceChange where
  apply p :=
    { p with
      composer := target
      composerSort := composerSortKey s.unicode target
      composerSortSource := target
      composerSortVersion := composerKeyVersion
      searchText := searchText s.unicode { p.input with composer := target }
      updatedAt := now }
  id_eq _ := rfl
  userId_eq _ := rfl

def mergeComposers (owner : Id) (input : ComposerMerge) (now : Time) (db : Db) :
    Except Error (Db × ComposerPreview) := do
  let input ← validateComposerMerge input
  refuse (byteLen input.fingerprint ≠ 64) (.invalid "a current merge preview is required")
  let preview ← composerPreview s owner input db
  refuse (input.fingerprint ≠ preview.fingerprint) .composerChanged
  pure (preview.pieces.foldl (fun db piece =>
    db.updatePieces (fun p => p.id == piece.id && p.userId == owner)
      (mergedPiece s input.target now)) db, preview)

end Merge

section Repair

def composerRepairBatch : Nat := 250

def repairedPiece : Db.PieceChange where
  apply p :=
    { p with
      composerSort := composerSortKey s.unicode p.composer
      composerSortSource := p.composer
      composerSortVersion := composerKeyVersion }
  id_eq _ := rfl
  userId_eq _ := rfl

def staleBatch (db : Db) : List PieceRow :=
  ((db.pieces.rows.filter staleComposer).mergeSort fun p q => p.id ≤ q.id).take composerRepairBatch

def repairComposerKeys (db : Db) : Db :=
  (staleBatch db).foldl (fun db stale =>
    db.updatePieces (fun p => p.id == stale.id && p.composer == stale.composer)
      (repairedPiece s)) db

def searchFoldVersion : Nat := 3

def refoldedPiece : Db.PieceChange where
  apply p := { p with searchText := searchText s.unicode p.input }
  id_eq _ := rfl
  userId_eq _ := rfl

def refoldSearchText (force : Bool) (db : Db) : Except Error Db := do
  refuse (searchFoldVersion < db.foldVersion) (.foldVersionAhead db.foldVersion)
  if db.foldVersion = searchFoldVersion ∧ force = false then pure db
  else pure { db.updatePieces (fun _ => true) (refoldedPiece s) with foldVersion := searchFoldVersion }

end Repair

section Cleanup

/-- The transaction of `cleanupImports`. -/
def expireDrafts (now : Time) (db : Db) : Db :=
  (db.deleteDrafts fun d => d.updatedAt + sevenDays < now).collectOrphans now

/-- `ORDER BY queued_at`, which leaves the order of rows queued at one time open. -/
def OrderedQueue (db : Db) (rows : List QueueRow) : Prop :=
  rows.Perm db.queue.rows ∧ rows.Pairwise fun p q => p.queuedAt ≤ q.queuedAt

instance (db : Db) (rows : List QueueRow) : Decidable (OrderedQueue db rows) :=
  inferInstanceAs (Decidable (_ ∧ _))

def queuedKeys (rows : List QueueRow) : List Key := (rows.take 100).map QueueRow.storageKey

end Cleanup

end Noted
