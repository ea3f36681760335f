import Noted.Library.Runs
import Noted.Composers

/-!
# The service under concurrency

A state is the database, the asset store, the clock and the work in progress. A
call without an upload is one transaction. `attachSource` and `finalizeImport` save
their file in one step, commit in another, and hand the object to `queueObject` in a
third when they do not commit; `cleanupImports` is its transaction, its read of the
queue, and three steps for each key. The steps of any number of calls interleave in
any order. The advisory lock of an owner would forbid some of these orders, and no
proof relies on it: a transaction checks what it checked before its upload once more
when it commits. A call that fails in the database changes nothing and is no step.

`now()` is the clock at the step. A generated UUID or storage key was not generated
before; the lists `ids` and `keys` say which were.
-/

namespace Noted

open Library

variable (s : Service)

inductive Call
  | createImport (owner : Id) (input : CreateImport) (work : Option IMSLPWork)
  | updateImport (owner id : Id) (input : UpdateImport)
  | deleteImport (owner id : Id)
  | createPiece (owner : Id) (input : PieceInput)
  | updatePiece (owner id : Id) (patch : PiecePatch)
  | deletePiece (owner id : Id)
  | putReaderState (owner id : Id) (state : ReaderState)
  | mergeComposers (owner : Id) (input : ComposerMerge)
  | repairComposerKeys
  | refoldSearchText (force : Bool)
  deriving DecidableEq

def Call.run (c : Call) (fresh : Fresh) (now : Time) (db : Db) : Except Error Db :=
  match c with
  | .createImport owner input work => Noted.createImport owner input work fresh now db
  | .updateImport owner id input => Noted.updateImport s owner id input now db
  | .deleteImport owner id => Noted.deleteImport owner id now db
  | .createPiece owner input => Noted.createPiece s owner input fresh.id now db
  | .updatePiece owner id patch => Noted.updatePiece s owner id patch now db
  | .deletePiece owner id => Noted.deletePiece owner id now db
  | .putReaderState owner id state => Noted.putReaderState owner id state now db
  | .mergeComposers owner input => Prod.fst <$> Noted.mergeComposers s owner input now db
  | .repairComposerKeys => pure (Noted.repairComposerKeys s db)
  | .refoldSearchText force => Noted.refoldSearchText s force db

inductive Upload
  | attach (id : Id) (filename : Text) (revision : Int) (file : ImportBytes)
  | finalize (id : Id) (revision : Int) (data : Bytes)
  deriving DecidableEq

structure Flight where
  owner : Id
  upload : Upload
  object : Object
  deriving DecidableEq

inductive Cleanup
  | reading
  | checking (keys : List Key)
  | deleting (key : Key) (rest : List Key)
  | recording (key : Key) (deleted : Bool) (rest : List Key)
  deriving DecidableEq

structure Sys where
  db : Db
  store : Key → Option Bytes
  clock : Time
  ids : List Id
  keys : List Key
  flights : List Flight
  unqueued : List Key
  cleanups : List Cleanup

inductive Event
  | tick (clock : Time)
  | call (c : Call) (fresh : Fresh)
  | beginAttach (owner id : Id) (filename : Text) (revision : Int) (data : Bytes) (key : Key)
  | beginFinalize (owner id : Id) (revision : Int) (data : Bytes) (key : Key)
  | commit (f : Flight) (fresh : Fresh)
  | abort (f : Flight)
  | queueObject (key : Key)
  | cleanupBegin
  | cleanupRead (rows : List QueueRow)
  | cleanupCheck (key : Key) (rest : List Key)
  | cleanupDelete (key : Key) (rest : List Key) (deleted : Bool)
  | cleanupRecord (key : Key) (deleted : Bool) (rest : List Key)
  | cleanupEnd (run : Cleanup)
  deriving DecidableEq

inductive Response
  | done
  | finalized (result : FinalizeResult)
  | failed (e : Error)
  deriving DecidableEq

namespace Sys

variable (σ : Sys)

/-- UUIDs that were not generated before, and page ids that no draft has. -/
def Grants (fresh : Fresh) : Prop :=
  fresh.id ≠ fresh.assetId ∧ fresh.id ∉ σ.ids ∧ fresh.assetId ∉ σ.ids ∧
    fresh.pageIds.length = maxPreparedPages ∧ fresh.pageIds.Nodup ∧
    (∀ id ∈ fresh.pageIds, s.validUUID id = true) ∧
    ∀ d ∈ σ.db.drafts.rows, ∀ p ∈ d.manifest.pages, p.id ∉ fresh.pageIds

instance (fresh : Fresh) : Decidable (σ.Grants s fresh) :=
  inferInstanceAs (Decidable (_ ∧ _ ∧ _ ∧ _ ∧ _ ∧ _ ∧ _))

def spend (fresh : Fresh) : Sys := { σ with ids := fresh.id :: fresh.assetId :: σ.ids }

def answer (result : Except Error Db) : Response × Sys :=
  match result with
  | .ok db => (.done, { σ with db := db })
  | .error e => (.failed e, σ)

def save (owner : Id) (upload : Upload) (key : Key) (data : Bytes) : Sys :=
  { σ with
    store := fun k => if k = key then some data else σ.store k
    keys := key :: σ.keys
    flights := ⟨owner, upload, ⟨key, data.length, s.sha256 data⟩⟩ :: σ.flights }

/-- The call has ended, and its object has no row. -/
def giveUp (f : Flight) : Sys :=
  { σ with flights := σ.flights.erase f, unqueued := f.object.key :: σ.unqueued }

def beginAttach (owner id : Id) (filename : Text) (revision : Int) (data : Bytes) (key : Key) :
    Response × Sys :=
  match (do
    let file ← uploadedFile s data
    let _ ← attachChecks s owner id revision data.length σ.clock σ.db
    pure file : Except Error ImportBytes) with
  | .error e => (.failed e, σ)
  | .ok file => (.done, σ.save s owner (.attach id filename revision file) key data)

def beginFinalize (owner id : Id) (revision : Int) (data : Bytes) (key : Key) : Response × Sys :=
  match finalizeChecks s owner id revision data σ.clock σ.db with
  | .error e => (.failed e, σ)
  | .ok (.done result) => (.finalized result, σ)
  | .ok (.save plan) =>
    match savedBytes σ.store plan data with
    | .error e => (.failed e, σ)
    | .ok bytes => (.done, σ.save s owner (.finalize id revision data) key bytes)

/-- The transaction of a call in flight. A retry that finds the draft finalized has
not used its object either. -/
def commit (f : Flight) (fresh : Fresh) : Response × Sys :=
  match f.upload with
  | .attach id filename revision file =>
    match attachSource s f.owner id filename revision file f.object fresh σ.clock σ.db with
    | .error e => (.failed e, σ.giveUp f)
    | .ok db => (.done, { σ with db := db, flights := σ.flights.erase f })
  | .finalize id revision data =>
    match finalizeChecks s f.owner id revision data σ.clock σ.db with
    | .error e => (.failed e, σ.giveUp f)
    | .ok (.done result) => (.finalized result, σ.giveUp f)
    | .ok (.save plan) =>
      match finalizeWrites s f.owner plan f.object fresh.id σ.clock σ.db with
      | .error e => (.failed e, σ.giveUp f)
      | .ok (db, result) => (.finalized result, { σ with db := db, flights := σ.flights.erase f })

def advance (before after : Cleanup) : Sys := { σ with cleanups := after :: σ.cleanups.erase before }

def step (σ : Sys) (e : Event) : Option (Response × Sys) :=
  match e with
  | .tick clock => if σ.clock ≤ clock then some (.done, { σ with clock := clock }) else none
  | .call c fresh =>
    if σ.Grants s fresh then some ((σ.spend fresh).answer (c.run s fresh σ.clock σ.db)) else none
  | .beginAttach owner id filename revision data key =>
    if key ∈ σ.keys then none else some (σ.beginAttach s owner id filename revision data key)
  | .beginFinalize owner id revision data key =>
    if key ∈ σ.keys then none else some (σ.beginFinalize s owner id revision data key)
  | .commit f fresh =>
    if f ∈ σ.flights ∧ σ.Grants s fresh then some ((σ.spend fresh).commit s f fresh) else none
  | .abort f => if f ∈ σ.flights then some (.failed .database, σ.giveUp f) else none
  | .queueObject key =>
    if key ∈ σ.unqueued then
      some (.done, { σ with db := σ.db.enqueue σ.clock key, unqueued := σ.unqueued.erase key })
    else none
  | .cleanupBegin =>
    some (.done, { σ with db := expireDrafts σ.clock σ.db, cleanups := .reading :: σ.cleanups })
  | .cleanupRead rows =>
    if .reading ∈ σ.cleanups ∧ OrderedQueue σ.db rows then
      some (.done, σ.advance .reading (.checking (queuedKeys rows)))
    else none
  | .cleanupCheck key rest =>
    if .checking (key :: rest) ∈ σ.cleanups then
      some (.done, σ.advance (.checking (key :: rest))
        (if σ.db.referenced key then .checking rest else .deleting key rest))
    else none
  | .cleanupDelete key rest deleted =>
    if .deleting key rest ∈ σ.cleanups then
      some (.done, { σ.advance (.deleting key rest) (.recording key deleted rest) with
        store := if deleted then fun k => if k = key then none else σ.store k else σ.store })
    else none
  | .cleanupRecord key deleted rest =>
    if .recording key deleted rest ∈ σ.cleanups then
      some (.done, { σ.advance (.recording key deleted rest) (.checking rest) with
        db := if deleted then σ.db.dequeue key else σ.db.countAttempt key })
    else none
  | .cleanupEnd run =>
    if run ∈ σ.cleanups then some (.done, { σ with cleanups := σ.cleanups.erase run }) else none

end Sys

/-- A library as it is before any preparation: valid pieces with PDFs whose keys
are in the store, and nothing else. -/
structure Initial (σ : Sys) : Prop where
  drafts : σ.db.drafts = ∅
  assets : σ.db.assets = ∅
  draftSources : σ.db.draftSources = ∅
  pieceSources : σ.db.pieceSources = ∅
  queue : σ.db.queue = ∅
  pieces : ∀ p ∈ σ.db.pieces, (trimPiece p.input).Valid ∧ p.preparationManifest = none ∧ p.id ∈ σ.ids
  pdfs : ∀ f ∈ σ.db.pdfs, ∃ p ∈ σ.db.pieces, p.id = f.pieceId
  readers : ∀ r ∈ σ.db.readers, ∃ p ∈ σ.db.pieces, p.id = r.pieceId
  pdfKeys : ∀ f ∈ σ.db.pdfs, ∀ g ∈ σ.db.pdfs, f.storageKey = g.storageKey → f = g
  stored : ∀ key, (σ.store key).isSome = true ↔ σ.db.pdfHolds key = true
  keys : ∀ f ∈ σ.db.pdfs, f.storageKey ∈ σ.keys
  flights : σ.flights = []
  unqueued : σ.unqueued = []
  cleanups : σ.cleanups = []

def Reachable (σ : Sys) : Prop := ∃ σ₀ t, Initial σ₀ ∧ Run (Sys.step s) σ₀ t σ

section Plain

/-- A small service, for runs that can be computed: its PDFs have one page, and it
reads no photos. -/
def plainService : Service where
  unicode := basicTables
  validUUID text := text.length == 36
  decoders :=
    { readAndValidate := fun _ => some ⟨false, none, 1⟩
      detectContentType := fun _ => none
      decodeConfig := fun _ => none
      decodes := fun _ => false }
  sha256 data := (toString data.sum).toList
  importLimit := 1000
  fingerprint _ _ _ _ := []
  collate := compareText
  lowerOrder := compareText
  wordSimilarity _ _ := 0

def emptyLibrary : Sys where
  db := ⟨∅, ∅, ∅, ∅, ∅, ∅, ∅, ∅, searchFoldVersion⟩
  store _ := none
  clock := 0
  ids := []
  keys := []
  flights := []
  unqueued := []
  cleanups := []

theorem emptyLibrary_initial : Initial emptyLibrary := by
  constructor <;> simp [emptyLibrary, Db.pdfHolds, Table.mem_rows]

def plainFresh (n : Nat) : Fresh :=
  ⟨2 * n, 2 * n + 1,
    (List.range maxPreparedPages).map fun k =>
      List.replicate 34 '0' ++ [Nat.digitChar n, Nat.digitChar k]⟩

def plainPDF : Bytes := utf8 "%PDF-".toList

def plainObject (key : Key) : Object := ⟨key, plainPDF.length, plainService.sha256 plainPDF⟩

def plainAttach (id : Id) (revision : Int) (key : Key) : Flight :=
  ⟨1, .attach id "score.pdf".toList revision ⟨.pdf, 1, 0, 0⟩, plainObject key⟩

def plainFinalize (id : Id) (revision : Int) (key : Key) : Flight :=
  ⟨1, .finalize id revision plainPDF, plainObject key⟩

def plainEvents : List Event :=
  [.call (.createImport 1 ⟨.absent, []⟩ none) (plainFresh 1),
    .beginAttach 1 2 "score.pdf".toList 0 plainPDF 7,
    .commit (plainAttach 2 0 7) (plainFresh 2),
    .beginFinalize 1 2 1 plainPDF 8,
    .commit (plainFinalize 2 1 8) (plainFresh 3)]

end Plain

end Noted
