import Noted.Search.Predicate

/-!
# Requests as transactions

Every request of a user is one atomic step here: a call with an upload saves its file
and commits at once, and a query changes nothing. The steps of the service's own work
are those of `System`. A query whose file is not in the store is a query of a missing
row, as `PDFSource` and `ImportSource` have it; the throttle of the suggestions lets a
query through or does not, and is not in the step.
-/

namespace Noted

open Library

variable (s : Service)

section Suggestions

open Search

/-- `$n <% p.search_text`, under the threshold that the transaction sets. -/
def similarText (spelling text : Text) : Bool := 3 / 5 ≤ s.wordSimilarity spelling text

def spellingScore (p : PieceRow) (spelling : Option Arg) : Rat :=
  match spelling with
  | some (.text t) => s.wordSimilarity t p.searchText
  | _ => 0

def termScore (p : PieceRow) (score : Score (Option Arg)) : Rat :=
  if score.exact.holds p then 1 else ((score.variants.map (spellingScore s p)).max?).getD 0

def suggestionScore (q : SuggestionQuery) (p : PieceRow) : Rat :=
  (q.scores.map fun score => termScore s p (score.map (argAt q.args))).sum

/-- `ORDER BY … DESC`, and then as a list by title. -/
def suggestionOrder (q : SuggestionQuery) (a b : Joined) : Ordering :=
  (compare (suggestionScore s q b.piece) (suggestionScore s q a.piece)).then (titleOrder s a b)

def rowLimit (q : SuggestionQuery) : Nat :=
  match argAt q.args q.limit with
  | some (.limit n) => n
  | _ => 0

def suggestedRows (q : SuggestionQuery) (db : Db) : List Joined :=
  (((db.pieces.rows.filter (q.selects (similarText s))).map db.join).mergeSort
    fun a b => suggestionOrder s q a b != .gt).take (rowLimit q)

def suggestPieces (owner : Id) (options : ListOptions) (db : Db) :
    Except Error (List PieceSummary) := do
  match ← suggestionQuery s.unicode owner options with
  | none => pure []
  | some q => pure ((suggestedRows s q db).map Joined.summary)

end Suggestions

section Queries

inductive Query
  | getPiece (id : Id)
  | listPieces (options : ListOptions)
  | listPieceSummaries (options : ListOptions)
  | getReaderState (id : Id)
  | pdfSource (id : Id)
  | getImport (id : Id)
  | importSource (draftId assetId : Id)
  | listComposers
  | previewComposerMerge (input : ComposerMerge)
  | suggestPieces (options : ListOptions)
  deriving DecidableEq

inductive Found
  | piece (p : Piece)
  | pieces (l : List Piece)
  | summaries (l : List PieceSummary)
  | readerState (state : ReaderState) (savedAt : Option Time)
  | pdf (f : PdfRow) (bytes : Bytes)
  | draft (d : ImportDraft)
  | source (a : AssetRow) (bytes : Bytes)
  | composers (l : List ComposerEntry)
  | preview (p : ComposerPreview)

def Query.run (q : Query) (owner : Id) (now : Time) (store : Key → Option Bytes) (db : Db) :
    Except Error Found :=
  match q with
  | .getPiece id => do
    let p ← Noted.getPiece owner id db
    pure (.piece p)
  | .listPieces options => do
    let l ← Noted.listPieces s owner options db
    pure (.pieces l)
  | .listPieceSummaries options => do
    let l ← Noted.listPieceSummaries s owner options db
    pure (.summaries l)
  | .getReaderState id => do
    let (state, savedAt) ← Noted.getReaderState owner id db
    pure (.readerState state savedAt)
  | .pdfSource id => do
    let f ← Noted.pdfSource owner id db
    let bytes ← demand (store f.storageKey) .notFound
    pure (.pdf f bytes)
  | .getImport id => do
    let d ← Noted.getImport s owner id now db
    pure (.draft d)
  | .importSource draftId assetId => do
    let a ← Noted.importSource owner draftId assetId now db
    let bytes ← demand (store a.storageKey) .notFound
    pure (.source a bytes)
  | .listComposers => pure (.composers (Noted.listComposers s owner db))
  | .previewComposerMerge input => do
    let p ← Noted.previewComposerMerge s owner input db
    pure (.preview p)
  | .suggestPieces options => do
    let l ← Noted.suggestPieces s owner options db
    pure (.summaries l)

end Queries

def Event.isWork : Event → Bool
  | .tick _ | .queueObject _ | .cleanupBegin | .cleanupRead _ | .cleanupCheck _ _ => true
  | .cleanupDelete _ _ _ | .cleanupRecord _ _ _ | .cleanupEnd _ => true
  | .call _ _ | .beginAttach _ _ _ _ _ _ | .beginFinalize _ _ _ _ _ | .commit _ _ | .abort _ => false

inductive Request
  | call (c : Call) (fresh : Fresh)
  | attachSource (owner id : Id) (filename : Text) (revision : Int) (data : Bytes) (key : Key)
      (fresh : Fresh)
  | finalizeImport (owner id : Id) (revision : Int) (data : Bytes) (key : Key) (fresh : Fresh)
  | query (owner : Id) (q : Query)
  | work (e : Event)
  deriving DecidableEq

inductive Answer
  | response (r : Response)
  | found (result : Except Error Found)

namespace Sys

def thenCommit (fresh : Fresh) (begun : Response × Sys) : Response × Sys :=
  match begun.1, begun.2.flights with
  | .done, f :: _ => (begun.2.spend fresh).commit s f fresh
  | _, _ => begun

def respond (p : Response × Sys) : Answer × Sys := (.response p.1, p.2)

def serve (σ : Sys) (request : Request) : Option (Answer × Sys) :=
  match request with
  | .call c fresh => (σ.step s (.call c fresh)).map respond
  | .attachSource owner id filename revision data key fresh =>
    if key ∉ σ.keys ∧ σ.Grants s fresh then
      some (respond (thenCommit s fresh (σ.beginAttach s owner id filename revision data key)))
    else none
  | .finalizeImport owner id revision data key fresh =>
    if key ∉ σ.keys ∧ σ.Grants s fresh then
      some (respond (thenCommit s fresh (σ.beginFinalize s owner id revision data key)))
    else none
  | .query owner q => some (.found (q.run s owner σ.clock σ.store σ.db), σ)
  | .work e => if e.isWork then (σ.step s e).map respond else none

end Sys

def Call.owner? : Call → Option Id
  | .createImport owner _ _ | .updateImport owner _ _ | .deleteImport owner _ => some owner
  | .createPiece owner _ | .updatePiece owner _ _ | .deletePiece owner _ => some owner
  | .putReaderState owner _ _ | .mergeComposers owner _ => some owner
  | .repairComposerKeys | .refoldSearchText _ => none

def Request.owner? : Request → Option Id
  | .call c _ => c.owner?
  | .attachSource owner _ _ _ _ _ _ | .finalizeImport owner _ _ _ _ _ => some owner
  | .query owner _ => some owner
  | .work _ => none

end Noted
