import Noted.Transactions
import Noted.Library.Runs

/-!
# The reading place and the PDF it belongs to (internal/app/service.go, imports.go)

`putReaderState` and `finalizeImport` write two rows of a piece: its PDF and its reading
place. First what each does to them as one transaction, and then the two as the
statements they run, under READ COMMITTED: what a transaction writes is its own until
it commits, and it holds the row lock of the piece from its `FOR UPDATE` to its end. A
locked row is read as it was last committed. The locks on the other rows are taken
under this one, and no proof needs them.
-/

namespace Noted

open Library Db

section Place

structure Place where
  pdf : Option PdfRow
  reader : Option ReaderRow
  deriving DecidableEq

def Db.place (db : Db) (id : Id) : Place := ⟨db.pdf? id, db.reader? id⟩

/-- Back to the start: the mode, the speed and the time of the last save stay. -/
def resetPlace (r : ReaderRow) : ReaderRow :=
  { r with lastPage := 1, scrollPosition := 0, zoom := 1, scrollPaused := true }

namespace Place

def checksum (p : Place) : Text := (p.pdf.map PdfRow.checksumSHA256).getD []

def kept (p : Place) (pdf : PdfRow) : Option ReaderRow :=
  if p.checksum ≠ pdf.checksumSHA256 then p.reader.map resetPlace else p.reader

def replace (p : Place) (pdf : PdfRow) : Place := ⟨some pdf, p.kept pdf⟩

def put (p : Place) (row : ReaderRow) : Place := { p with reader := some row }

end Place

variable {s : Service} {owner id : Id} {now : Time} {db db' : Db}

theorem pdf?_put {pdfs : Table PdfRow.pieceId} {f : PdfRow} (hf : f.pieceId = id) :
    (pdfs.put f).find? (fun f => f.pieceId == id) = some f := by
  rw [Table.find?_put fun _ => beq_iff_eq, if_pos hf]

theorem reader?_put {readers : Table ReaderRow.pieceId} {r : ReaderRow} :
    (readers.put r).find? (fun r => r.pieceId == id) =
      if r.pieceId = id then some r else readers.find? fun r => r.pieceId == id :=
  Table.find?_put fun _ => beq_iff_eq

theorem reader?_resetReader (db : Db) (pieceId : Id) :
    (db.resetReader pieceId).reader? pieceId = (db.reader? pieceId).map resetPlace := by
  have hmodify : (db.resetReader pieceId).reader? pieceId =
      (db.reader? pieceId).map fun r =>
        if (r.pieceId == pieceId) = true then resetPlace r else r := by
    rw [reader?, resetReader_readers]
    exact Table.find?_modify fun _ => rfl
  rw [hmodify]
  cases hfound : db.reader? pieceId with
  | none => rfl
  | some r =>
    obtain ⟨-, rfl⟩ := reader?_eq_some.mp hfound
    simp

/-- `putReaderState` saves the place only if its client read the piece's PDF. -/
theorem putReaderState_place {state : ReaderState}
    (h : putReaderState owner id state now db = .ok db') :
    (∃ f, (db.place id).pdf = some f ∧ f.checksumSHA256 = state.pdfChecksumSHA256) ∧
      db'.place id = (db.place id).put (readerRow id state now) ∧
      ∀ other ≠ id, db'.place other = db.place other := by
  obtain ⟨-, hput⟩ := putReaderState_ok h
  obtain ⟨-, rfl⟩ := putReader_eq_ok.mp hput
  simp only [putReaderState, bind_eq_ok, demand_eq_ok, piece?_eq_some, refuse_eq_ok,
    exists_const] at h
  obtain ⟨⟨⟩, -, p, ⟨-, rfl, -⟩, f, hf, hchecksum, -⟩ := h
  refine ⟨⟨f, hf, not_not.mp hchecksum⟩, ?_, ?_⟩
  · rw [Db.place, Db.reader?, reader?_put]
    exact congrArg (Place.mk _) (if_pos rfl)
  · intro other hother
    rw [Db.place, Db.reader?, reader?_put]
    exact congrArg (Place.mk _) (if_neg (Ne.symm hother))

theorem closeDraft_place (draftId pieceId : Id) (old : Option PdfRow) :
    (closeDraft draftId pieceId old now db).place id = db.place id := by
  obtain ⟨queue, heq⟩ := queueOld_eq (((db.updateDraft draftId
    (finalizedDraft pieceId now)).deleteDraftSources draftId).collectOrphans now) now old
  rw [closeDraft, heq, Db.place, Db.place, Db.pdf?, Db.reader?]
  simp only [collectOrphans_pdfs, collectOrphans_readers]
  rfl

/-- A finalization replaces the PDF of the piece its draft started from, and what it
does to the reading place is `Place.kept`. -/
theorem finalizeWrites_place {plan : FinalizePlan} {object : Object} {newId pieceId : Id}
    {result : FinalizeResult} (h : finalizeWrites s owner plan object newId now db = .ok (db', result))
    (hpiece : plan.draft.row.pieceId = some pieceId) (hold : plan.old = db.pdf? pieceId) :
    db'.place pieceId = (db.place pieceId).replace (finalizedPdf plan pieceId object now) := by
  obtain ⟨i, db₂, hsave, rfl, -⟩ := finalizeWrites_ok h
  obtain ⟨db₁, pieceSources, htarget, -, -, -, rfl⟩ := savePiece_ok hsave
  obtain ⟨hid, rfl⟩ | ⟨hnone, -⟩ := finalizeTarget_ok htarget
  · obtain rfl : pieceId = i := Option.some.inj (hpiece.symm.trans hid)
    have hreader := reader?_resetReader db₁ pieceId
    rw [closeDraft_place, Db.place, Place.replace, Place.kept, Place.checksum]
    unfold pieceSaved
    rw [hold]
    refine congrArg₂ Place.mk (pdf?_put rfl) ?_
    split_ifs with hsame hsame' hsame'
    · exact hreader
    · exact absurd hsame hsame'
    · exact absurd hsame' hsame
    · rfl
  · rw [hpiece] at hnone
    cases hnone

end Place

/-- A transaction of `putReaderState` or of `finalizeImport`, after each statement. -/
inductive Tx
  | idle
  | putWaiting (state : ReaderState) (now : Time)
  | putLocked (state : ReaderState) (now : Time)
  | putChecked (state : ReaderState) (now : Time)
  | putWritten (state : ReaderState) (row : ReaderRow)
  | finalizeWaiting
  | finalizeLocked
  | finalizeRead (old : Option PdfRow)
  | finalizeStored (old : Option PdfRow) (pdf : PdfRow)
  | finalizeReset (pdf : PdfRow) (reader : Option ReaderRow)
  deriving DecidableEq

/-- The committed rows, the holder of the piece's row lock, and the transactions. -/
structure Reading where
  place : Place
  lock : Option Nat
  txs : Nat → Tx

namespace Reading

inductive Event
  | beginPut (i : Nat) (state : ReaderState) (now : Time)
  | beginFinalize (i : Nat)
  | lock (i : Nat)
  | read (i : Nat)
  | store (i : Nat) (pdf : PdfRow)
  | write (i : Nat)
  | commit (i : Nat)
  | rollback (i : Nat)
  deriving DecidableEq

inductive Answer
  | done
  | failed (e : Error)
  deriving DecidableEq

variable (σ : Reading) (i : Nat)

def set (tx : Tx) : Reading := { σ with txs := Function.update σ.txs i tx }

def release : Reading :=
  { σ with lock := if σ.lock = some i then none else σ.lock, txs := Function.update σ.txs i .idle }

def acquire (tx : Tx) : Option (Answer × Reading) :=
  match σ.lock with
  | none => some (.done, { σ.set i tx with lock := some i })
  | some _ => none

def lockStep : Option (Answer × Reading) :=
  match σ.txs i with
  | .putWaiting state now => σ.acquire i (.putLocked state now)
  | .finalizeWaiting => σ.acquire i .finalizeLocked
  | _ => none

def readStep : Option (Answer × Reading) :=
  match σ.txs i with
  | .putLocked state now =>
    match σ.place.pdf with
    | none => some (.failed .notFound, σ.release i)
    | some f =>
      if f.checksumSHA256 ≠ state.pdfChecksumSHA256 then some (.failed .pdfChanged, σ.release i)
      else some (.done, σ.set i (.putChecked state now))
  | .finalizeLocked => some (.done, σ.set i (.finalizeRead σ.place.pdf))
  | _ => none

def writeStep (pieceId : Id) : Option (Answer × Reading) :=
  match σ.txs i with
  | .putChecked state now =>
    some (.done, σ.set i (.putWritten state (readerRow pieceId state now)))
  | .finalizeStored old pdf =>
    let reader :=
      if (old.map PdfRow.checksumSHA256).getD [] ≠ pdf.checksumSHA256 then
        σ.place.reader.map resetPlace
      else σ.place.reader
    some (.done, σ.set i (.finalizeReset pdf reader))
  | _ => none

def commitStep : Option (Answer × Reading) :=
  match σ.txs i with
  | .putWritten _ row =>
    some (.done, { σ.release i with place := { σ.place with reader := some row } })
  | .finalizeReset pdf reader => some (.done, { σ.release i with place := ⟨some pdf, reader⟩ })
  | _ => none

def step (pieceId : Id) (σ : Reading) (e : Event) : Option (Answer × Reading) :=
  match e with
  | .beginPut i state now =>
    if σ.txs i = .idle ∧ validateReaderState state = .ok ⟨⟩ then
      some (.done, σ.set i (.putWaiting state now))
    else none
  | .beginFinalize i =>
    if σ.txs i = .idle then some (.done, σ.set i .finalizeWaiting) else none
  | .lock i => σ.lockStep i
  | .read i => σ.readStep i
  | .store i pdf =>
    match σ.txs i with
    | .finalizeRead old => some (.done, σ.set i (.finalizeStored old pdf))
    | _ => none
  | .write i => σ.writeStep i pieceId
  | .commit i => σ.commitStep i
  | .rollback i => if σ.txs i = .idle then none else some (.failed .database, σ.release i)

def start (place : Place) : Reading := ⟨place, none, fun _ => .idle⟩

section Steps

variable {pieceId : Id} {σ σ' : Reading} {e : Event} {a : Answer}

inductive Stepped (pieceId : Id) (σ : Reading) : Event → Answer → Reading → Prop
  | begunPut (i : Nat) (state : ReaderState) (now : Time) :
      Stepped pieceId σ (.beginPut i state now) .done (σ.set i (.putWaiting state now))
  | begunFinalize (i : Nat) :
      Stepped pieceId σ (.beginFinalize i) .done (σ.set i .finalizeWaiting)
  | lockedPut (i : Nat) (state : ReaderState) (now : Time) (hfree : σ.lock = none) :
      Stepped pieceId σ (.lock i) .done { σ.set i (.putLocked state now) with lock := some i }
  | lockedFinalize (i : Nat) (hfree : σ.lock = none) :
      Stepped pieceId σ (.lock i) .done { σ.set i .finalizeLocked with lock := some i }
  | checked (i : Nat) (state : ReaderState) (now : Time) (htx : σ.txs i = .putLocked state now)
      (f : PdfRow) (hf : σ.place.pdf = some f)
      (hchecksum : f.checksumSHA256 = state.pdfChecksumSHA256) :
      Stepped pieceId σ (.read i) .done (σ.set i (.putChecked state now))
  | readOld (i : Nat) (htx : σ.txs i = .finalizeLocked) :
      Stepped pieceId σ (.read i) .done (σ.set i (.finalizeRead σ.place.pdf))
  | stored (i : Nat) (old : Option PdfRow) (pdf : PdfRow) (htx : σ.txs i = .finalizeRead old) :
      Stepped pieceId σ (.store i pdf) .done (σ.set i (.finalizeStored old pdf))
  | written (i : Nat) (state : ReaderState) (now : Time) (htx : σ.txs i = .putChecked state now) :
      Stepped pieceId σ (.write i) .done
        (σ.set i (.putWritten state (readerRow pieceId state now)))
  | reset (i : Nat) (old : Option PdfRow) (pdf : PdfRow) (htx : σ.txs i = .finalizeStored old pdf) :
      Stepped pieceId σ (.write i) .done
        (σ.set i (.finalizeReset pdf
          (if (old.map PdfRow.checksumSHA256).getD [] ≠ pdf.checksumSHA256 then
            σ.place.reader.map resetPlace
          else σ.place.reader)))
  | saved (i : Nat) (state : ReaderState) (row : ReaderRow) (htx : σ.txs i = .putWritten state row) :
      Stepped pieceId σ (.commit i) .done
        { σ.release i with place := { σ.place with reader := some row } }
  | replaced (i : Nat) (pdf : PdfRow) (reader : Option ReaderRow)
      (htx : σ.txs i = .finalizeReset pdf reader) :
      Stepped pieceId σ (.commit i) .done { σ.release i with place := ⟨some pdf, reader⟩ }
  | ended (i : Nat) (e : Event) (a : Answer) (hcommit : ∀ i, e ≠ .commit i) :
      Stepped pieceId σ e a (σ.release i)

theorem stepped (h : step pieceId σ e = some (a, σ')) : Stepped pieceId σ e a σ' := by
  cases e with
  | beginPut i state now =>
    obtain ⟨-, heq⟩ := Option.ite_none_right_eq_some.mp h
    obtain ⟨rfl, rfl⟩ := Prod.mk.inj (Option.some.inj heq)
    exact .begunPut i state now
  | beginFinalize i =>
    obtain ⟨-, heq⟩ := Option.ite_none_right_eq_some.mp h
    obtain ⟨rfl, rfl⟩ := Prod.mk.inj (Option.some.inj heq)
    exact .begunFinalize i
  | lock i =>
    simp only [step, lockStep, acquire] at h
    split at h
    · split at h
      · rename_i hfree
        obtain ⟨rfl, rfl⟩ := Prod.mk.inj (Option.some.inj h)
        exact .lockedPut i _ _ hfree
      · cases h
    · split at h
      · rename_i hfree
        obtain ⟨rfl, rfl⟩ := Prod.mk.inj (Option.some.inj h)
        exact .lockedFinalize i hfree
      · cases h
    · cases h
  | read i =>
    simp only [step, readStep] at h
    split at h
    · rename_i state now htx
      split at h
      · obtain ⟨rfl, rfl⟩ := Prod.mk.inj (Option.some.inj h)
        exact .ended i _ _ (by simp)
      · rename_i f hf
        split_ifs at h with hchecksum
        · obtain ⟨rfl, rfl⟩ := Prod.mk.inj (Option.some.inj h)
          exact .ended i _ _ (by simp)
        · obtain ⟨rfl, rfl⟩ := Prod.mk.inj (Option.some.inj h)
          exact .checked i state now htx f hf (not_not.mp hchecksum)
    · rename_i htx
      obtain ⟨rfl, rfl⟩ := Prod.mk.inj (Option.some.inj h)
      exact .readOld i htx
    · cases h
  | store i pdf =>
    simp only [step] at h
    split at h
    · rename_i old htx
      obtain ⟨rfl, rfl⟩ := Prod.mk.inj (Option.some.inj h)
      exact .stored i old pdf htx
    · cases h
  | write i =>
    simp only [step, writeStep] at h
    split at h
    · rename_i state now htx
      obtain ⟨rfl, rfl⟩ := Prod.mk.inj (Option.some.inj h)
      exact .written i state now htx
    · rename_i old pdf htx
      obtain ⟨rfl, rfl⟩ := Prod.mk.inj (Option.some.inj h)
      exact .reset i old pdf htx
    · cases h
  | commit i =>
    simp only [step, commitStep] at h
    split at h
    · rename_i state row htx
      obtain ⟨rfl, rfl⟩ := Prod.mk.inj (Option.some.inj h)
      exact .saved i state row htx
    · rename_i pdf reader htx
      obtain ⟨rfl, rfl⟩ := Prod.mk.inj (Option.some.inj h)
      exact .replaced i pdf reader htx
    · cases h
  | rollback i =>
    obtain ⟨-, heq⟩ := Option.ite_none_left_eq_some.mp h
    obtain ⟨rfl, rfl⟩ := Prod.mk.inj (Option.some.inj heq)
    exact .ended i _ _ (by simp)

end Steps

end Reading

/-- The transaction is between its `FOR UPDATE` and its end. -/
def Tx.inside : Tx → Bool
  | .idle | .putWaiting _ _ | .finalizeWaiting => false
  | _ => true

/-- What a transaction has read, or has worked out from it, is as it was last committed. -/
def Tx.UpToDate (place : Place) : Tx → Prop
  | .putChecked state _ | .putWritten state _ =>
    ∃ f, place.pdf = some f ∧ f.checksumSHA256 = state.pdfChecksumSHA256
  | .finalizeRead old | .finalizeStored old _ => old = place.pdf
  | .finalizeReset pdf reader => reader = place.kept pdf
  | _ => True

theorem Tx.upToDate_of_outside {tx : Tx} {place : Place} (h : tx.inside = false) :
    tx.UpToDate place := by
  cases tx with
  | idle | putWaiting state now | finalizeWaiting => trivial
  | _ => cases h

namespace Reading

variable {pieceId : Id} {σ σ' : Reading} {e : Event} {a : Answer} {i : Nat} {tx : Tx} {place : Place}
  {t : List (Entry Reading Event Answer)}

/-- A transaction inside holds the lock and is up to date. -/
structure Serial (σ : Reading) : Prop where
  holder : ∀ i, (σ.txs i).inside = true → σ.lock = some i
  upToDate : ∀ i, (σ.txs i).UpToDate σ.place

theorem start_serial (place : Place) : Serial (start place) where
  holder := by
    intro i hi
    cases hi
  upToDate := by
    intro i
    trivial

theorem Serial.set (h : Serial σ) (hlock : tx.inside = true → σ.lock = some i)
    (htx : tx.UpToDate σ.place) : Serial (σ.set i tx) where
  holder := by
    intro j hj
    by_cases heq : j = i
    · subst heq
      simp only [Reading.set, Function.update_self] at hj
      exact hlock hj
    · simp only [Reading.set, Function.update_of_ne heq] at hj
      exact h.holder j hj
  upToDate := by
    intro j
    by_cases heq : j = i
    · subst heq
      simpa only [Reading.set, Function.update_self] using htx
    · simpa only [Reading.set, Function.update_of_ne heq] using h.upToDate j

theorem Serial.acquire (h : Serial σ) (hfree : σ.lock = none) (htx : tx.UpToDate σ.place) :
    Serial { σ.set i tx with lock := some i } where
  holder := by
    intro j hj
    by_cases heq : j = i
    · rw [heq]
    · simp only [Reading.set, Function.update_of_ne heq] at hj
      have hlock := h.holder j hj
      rw [hfree] at hlock
      cases hlock
  upToDate := by
    intro j
    by_cases heq : j = i
    · subst heq
      simpa only [Reading.set, Function.update_self] using htx
    · simpa only [Reading.set, Function.update_of_ne heq] using h.upToDate j

theorem Serial.release (h : Serial σ) : Serial (σ.release i) where
  holder := by
    intro j hj
    by_cases heq : j = i
    · subst heq
      simp [Reading.release, Tx.inside] at hj
    · simp only [Reading.release, Function.update_of_ne heq] at hj
      have hlock := h.holder j hj
      have hother : σ.lock ≠ some i := by simpa [hlock] using heq
      simp only [Reading.release, if_neg hother]
      exact hlock
  upToDate := by
    intro j
    by_cases heq : j = i
    · subst heq
      simp only [Reading.release, Function.update_self]
      trivial
    · simpa only [Reading.release, Function.update_of_ne heq] using h.upToDate j

/-- While one transaction is inside every other is outside, so it may change the rows. -/
theorem Serial.commit (h : Serial σ) (hi : (σ.txs i).inside = true) :
    Serial { σ.release i with place := place } where
  holder := h.release.holder
  upToDate := by
    intro j
    by_cases heq : j = i
    · subst heq
      simp only [Reading.release, Function.update_self]
      trivial
    · simp only [Reading.release, Function.update_of_ne heq]
      apply Tx.upToDate_of_outside
      by_contra hj
      have hlock := h.holder j (by simpa using hj)
      rw [h.holder i hi] at hlock
      exact heq (Option.some.inj hlock).symm

theorem Serial.step (h : Serial σ) (hstep : step pieceId σ e = some (a, σ')) : Serial σ' := by
  have hinside : ∀ i, (σ.txs i).inside = true → σ.lock = some i := h.holder
  cases stepped hstep with
  | begunPut i state now => exact h.set (by simp [Tx.inside]) trivial
  | begunFinalize i => exact h.set (by simp [Tx.inside]) trivial
  | lockedPut i state now hfree => exact h.acquire hfree trivial
  | lockedFinalize i hfree => exact h.acquire hfree trivial
  | checked i state now htx f hf hchecksum =>
    exact h.set (fun _ => hinside i (by rw [htx]; rfl)) ⟨f, hf, hchecksum⟩
  | readOld i htx => exact h.set (fun _ => hinside i (by rw [htx]; rfl)) rfl
  | stored i old pdf htx =>
    have hknows := h.upToDate i
    rw [htx] at hknows
    exact h.set (fun _ => hinside i (by rw [htx]; rfl)) hknows
  | written i state now htx =>
    have hknows := h.upToDate i
    rw [htx] at hknows
    exact h.set (fun _ => hinside i (by rw [htx]; rfl)) hknows
  | reset i old pdf htx =>
    have hknows := h.upToDate i
    rw [htx] at hknows
    obtain rfl : old = σ.place.pdf := hknows
    exact h.set (fun _ => hinside i (by rw [htx]; rfl)) rfl
  | saved i state row htx => exact h.commit (by rw [htx]; rfl)
  | replaced i pdf reader htx => exact h.commit (by rw [htx]; rfl)
  | ended i e a hcommit => exact h.release

structure Kept (x : Entry Reading Event Answer) : Prop where
  replaced : ∀ i pdf reader, x.event = .commit i → x.before.txs i = .finalizeReset pdf reader →
    x.after.place = x.before.place.replace pdf
  saved : ∀ i state row, x.event = .commit i → x.before.txs i = .putWritten state row →
    x.after.place = x.before.place.put row ∧
      ∃ f, x.before.place.pdf = some f ∧ f.checksumSHA256 = state.pdfChecksumSHA256
  else_same : (∀ i, x.event ≠ .commit i) → x.after.place = x.before.place

theorem Serial.kept (h : Serial σ) (hstep : Reading.step pieceId σ e = some (a, σ')) :
    Kept ⟨σ, e, a, σ'⟩ := by
  have hknows := h.upToDate
  cases stepped hstep with
  | saved i state row htx =>
    constructor
    · intro j pdf reader he hj
      obtain rfl : i = j := by simpa using he
      rw [htx] at hj
      cases hj
    · intro j state' row' he hj
      obtain rfl : i = j := by simpa using he
      obtain ⟨rfl, rfl⟩ : state = state' ∧ row = row' := by simpa [htx] using hj
      have hi := hknows i
      rw [htx] at hi
      exact ⟨rfl, hi⟩
    · intro he
      exact absurd rfl (he i)
  | replaced i pdf reader htx =>
    constructor
    · intro j pdf' reader' he hj
      obtain rfl : i = j := by simpa using he
      obtain ⟨rfl, rfl⟩ : pdf = pdf' ∧ reader = reader' := by simpa [htx] using hj
      have hi := hknows i
      rw [htx] at hi
      exact congrArg (Place.mk (some pdf)) hi
    · intro j state row he hj
      obtain rfl : i = j := by simpa using he
      rw [htx] at hj
      cases hj
    · intro he
      exact absurd rfl (he i)
  | ended i e a hcommit =>
    constructor
    · intro j pdf reader he
      exact absurd he (hcommit j)
    · intro j state row he
      exact absurd he (hcommit j)
    · intro _
      rfl
  | _ =>
    constructor
    · intro j pdf reader he
      cases he
    · intro j state row he
      cases he
    · intro _
      rfl

/-- In every run, a commit under another PDF takes the place back to the start and keeps
the mode, the speed and the time; one under the same PDF keeps the place; and only a
save of the current PDF's place changes it else. -/
theorem reading_place (h : Run (Reading.step pieceId) (start place) t σ) :
    ∀ x ∈ t,
      (∀ i pdf reader old, x.event = .commit i → x.before.txs i = .finalizeReset pdf reader →
        x.before.place.pdf = some old →
          x.after.place.pdf = some pdf ∧
          (old.checksumSHA256 ≠ pdf.checksumSHA256 →
            x.after.place.reader = x.before.place.reader.map fun r =>
              { r with lastPage := 1, scrollPosition := 0, zoom := 1, scrollPaused := true }) ∧
          (old.checksumSHA256 = pdf.checksumSHA256 →
            x.after.place.reader = x.before.place.reader)) ∧
      (x.after.place.reader ≠ x.before.place.reader → ∃ i, x.event = .commit i ∧
        ((∃ pdf reader, x.before.txs i = .finalizeReset pdf reader) ∨
          ∃ state row f, x.before.txs i = .putWritten state row ∧ x.before.place.pdf = some f ∧
            f.checksumSHA256 = state.pdfChecksumSHA256 ∧ x.after.place.reader = some row ∧
            x.after.place.pdf = some f)) := by
  intro x hx
  obtain ⟨hserial, hstep⟩ := h.at_mem Serial.step (start_serial place) hx
  have hkept := hserial.kept hstep
  constructor
  · intro i pdf reader old he htx hold
    rw [hkept.replaced i pdf reader he htx, Place.replace, Place.kept, Place.checksum, hold]
    refine ⟨rfl, ?_, ?_⟩
    · intro hne
      exact if_pos hne
    · intro heq
      exact if_neg (not_not.mpr heq)
  · intro hchanged
    obtain ⟨σ, e, a, σ'⟩ := x
    have hnext : Reading.step pieceId σ e = some (a, σ') := hstep
    cases stepped hnext with
    | saved i state row htx =>
      obtain ⟨hplace, f, hf, hchecksum⟩ := hkept.saved i state row rfl htx
      exact ⟨i, rfl, Or.inr ⟨state, row, f, htx, hf, hchecksum, rfl, hf⟩⟩
    | replaced i pdf reader htx => exact ⟨i, rfl, Or.inl ⟨pdf, reader, htx⟩⟩
    | ended i e a hcommit => exact absurd rfl hchanged
    | _ => exact absurd rfl hchanged

section Plain

def plainPdfRow (checksum : Text) : PdfRow := ⟨6, 7, "score.pdf".toList, 5, checksum, 1, 0⟩

def plainState (checksum : Text) : ReaderState := ⟨checksum, "scroll".toList, 2, 321, 2, 8, false⟩

def lateSaveEvents (first second : Text) : List Event :=
  [.beginPut 1 (plainState first) 5, .lock 1, .read 1, .write 1, .beginFinalize 2, .commit 1,
    .lock 2, .beginPut 3 (plainState first) 9, .read 2, .store 2 (plainPdfRow second), .write 2,
    .commit 2, .lock 3, .read 3]

def resetsPlace (t : List (Entry Reading Event Answer)) : Bool :=
  match t with
  | [_, _, _, _, _, _, _, _, _, _, _, x, _, y] =>
    x.event == .commit 2 && x.before.txs 2 == .finalizeReset (plainPdfRow (List.replicate 64 'b'))
        (some ⟨6, "scroll".toList, 1, 0, 1, 8, true, 5⟩) &&
      x.before.place == ⟨some (plainPdfRow (List.replicate 64 'a')),
        some ⟨6, "scroll".toList, 2, 321, 2, 8, false, 5⟩⟩ &&
      y.response == .failed .pdfChanged
  | _ => false

theorem reading_place_lateSave :
    ∃ first second : Text, ∃ t σ x,
      Run (Reading.step 6) (start ⟨some (plainPdfRow first), none⟩) t σ ∧ x ∈ t ∧ first ≠ second ∧
        x.before.place.reader = some ⟨6, "scroll".toList, 2, 321, 2, 8, false, 5⟩ ∧
        x.after.place.reader = some ⟨6, "scroll".toList, 1, 0, 1, 8, true, 5⟩ := by
  obtain ⟨t, σ, hrun, hp⟩ : ∃ t σ,
      Run (Reading.step 6) (start ⟨some (plainPdfRow (List.replicate 64 'a')), none⟩) t σ ∧
      resetsPlace t = true :=
    exists_run (lateSaveEvents (List.replicate 64 'a') (List.replicate 64 'b')) (by decide +kernel)
  unfold resetsPlace at hp
  split at hp
  · rename_i x _ y
    simp only [Bool.and_eq_true, beq_iff_eq] at hp
    obtain ⟨⟨⟨he, htx⟩, hplace⟩, -⟩ := hp
    have hreset := (reading_place hrun x (by simp)).1 2 _ _ (plainPdfRow (List.replicate 64 'a'))
      he htx (by rw [hplace])
    have hreader := hreset.2.1 (by decide)
    rw [hplace] at hreader
    exact ⟨_, List.replicate 64 'b', _, σ, x, hrun, by simp, by decide, by rw [hplace], hreader⟩
  · cases hp

end Plain

end Reading

end Noted
