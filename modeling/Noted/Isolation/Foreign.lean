import Noted.ComposerMerge
import Noted.Isolation.Serving

/-!
# What somebody else has is missing

A request that names a piece or a draft that its user does not have is refused, and
whether somebody else has it makes no difference: after the checks of the request alone,
and of the number of open drafts, the answer is the one for a missing id.
-/

namespace Noted

open Library Db

variable {s : Service} {σ σ' : Sys} {user id : Id} {db : Db} {now : Time} {answer : Answer}

def Request.pieceId? : Request → Option Id
  | .call (.createImport _ input _) _ =>
    match input.pieceId with
    | .piece id => some id
    | _ => none
  | .call (.updatePiece _ id _) _ | .call (.deletePiece _ id) _ => some id
  | .call (.putReaderState _ id _) _ => some id
  | .query _ (.getPiece id) | .query _ (.getReaderState id) | .query _ (.pdfSource id) => some id
  | _ => none

def Request.draftId? : Request → Option Id
  | .call (.updateImport _ id _) _ | .call (.deleteImport _ id) _ => some id
  | .attachSource _ id _ _ _ _ _ | .finalizeImport _ id _ _ _ _ => some id
  | .query _ (.getImport id) | .query _ (.importSource id _) => some id
  | _ => none

/-- The checks that a request makes before it looks for its piece or draft. -/
def Request.prechecks (s : Service) (now : Time) (db : Db) : Request → Except Error Unit
  | .call (.createImport owner input _) _ => do
    validateIMSLP input.sourceURL
    refuse (maxOpenDrafts ≤ db.openDrafts owner now) .draftLimit
  | .call (.putReaderState _ _ state) _ => validateReaderState state
  | .attachSource _ _ _ _ data _ _ => do
    let _ ← uploadedFile s data
    pure ()
  | _ => pure ()

def Request.missing (s : Service) (now : Time) (db : Db) (request : Request) : Error :=
  match request.prechecks s now db with
  | .error e => e
  | .ok _ => .notFound

def Answer.error? : Answer → Option Error
  | .response (.failed e) => some e
  | .found (.error e) => some e
  | _ => none

section Missing

theorem piece?_missing (h : ¬db.OwnsPiece user id) : db.piece? user id = none := by
  rw [Option.eq_none_iff_forall_ne_some]
  intro p hp
  obtain ⟨hmem, hid, howner⟩ := piece?_eq_some.mp hp
  exact h ⟨p, hmem, hid, howner⟩

theorem draft?_missing (h : ¬db.OwnsDraft user id) : db.draft? user id = none := by
  rw [Option.eq_none_iff_forall_ne_some]
  intro d hd
  obtain ⟨hmem, hid, howner⟩ := draft?_eq_some.mp hd
  exact h ⟨d, hmem, hid, howner⟩

theorem draftTx_missing (h : ¬db.OwnsDraft user id) :
    db.draftTx s user id now = .error .notFound := by
  have hnone : (db.drafts.find? fun d =>
      d.id == id && d.userId == user && now < d.updatedAt + sevenDays) = none := by
    rw [Table.find?_eq_none]
    intro d hd
    rw [Bool.eq_false_iff]
    intro hfound
    simp only [Bool.and_eq_true, beq_iff_eq] at hfound
    exact h ⟨d, hd, hfound.1.1, hfound.1.2⟩
  rw [Db.draftTx, hnone]
  rfl

theorem importSource_missing {assetId : Id} (h : ¬db.OwnsDraft user id) :
    importSource user id assetId now db = .error .notFound := by
  rw [importSource, demand_eq_error]
  refine ⟨?_, rfl⟩
  rw [Table.find?_eq_none]
  intro a ha
  rw [Bool.eq_false_iff]
  intro hfound
  simp only [Bool.and_eq_true, List.any_eq_true, beq_iff_eq] at hfound
  obtain ⟨-, d, hd, ⟨⟨hid, howner⟩, -⟩, -⟩ := hfound
  exact h ⟨d, hd, hid, howner⟩

end Missing

theorem call_missing {c : Call} {fresh : Fresh} (howner : c.owner? = some user)
    (hid : (∃ id, (Request.call c fresh).pieceId? = some id ∧ ¬db.OwnsPiece user id) ∨
      ∃ id, (Request.call c fresh).draftId? = some id ∧ ¬db.OwnsDraft user id) :
    c.run s fresh now db = .error ((Request.call c fresh).missing s now db) := by
  cases c with
  | createImport owner input work =>
    obtain rfl := Option.some.inj howner
    obtain ⟨id, hid, hmissing⟩ | ⟨id, hid, -⟩ := hid
    · have hpiece : input.pieceId = .piece id := by
        cases href : input.pieceId <;> simp_all [Request.pieceId?]
      have hstart : draftStart owner input work fresh now db = .error .notFound := by
        rw [draftStart, hpiece]
        dsimp only
        rw [piece?_missing hmissing]
        rfl
      rw [Call.run, createImport, hstart, Request.missing, Request.prechecks]
      cases validateIMSLP input.sourceURL with
      | error e => rfl
      | ok _ =>
        rw [ok_bind, ok_bind]
        by_cases hlimit : maxOpenDrafts ≤ db.openDrafts owner now
        · rw [refuse_of hlimit]
          rfl
        · rw [refuse_of_not hlimit]
          rfl
    · cases hid
  | updateImport owner i input =>
    obtain rfl := Option.some.inj howner
    obtain ⟨id, hid, -⟩ | ⟨id, hid, hmissing⟩ := hid
    · cases hid
    · obtain rfl := Option.some.inj hid
      rw [Call.run, updateImport, draftTx_missing hmissing]
      rfl
  | deleteImport owner i =>
    obtain rfl := Option.some.inj howner
    obtain ⟨id, hid, -⟩ | ⟨id, hid, hmissing⟩ := hid
    · cases hid
    · obtain rfl := Option.some.inj hid
      rw [Call.run, deleteImport, draft?_missing hmissing]
      rfl
  | updatePiece owner i patch =>
    obtain rfl := Option.some.inj howner
    obtain ⟨id, hid, hmissing⟩ | ⟨id, hid, -⟩ := hid
    · obtain rfl := Option.some.inj hid
      rw [Call.run, updatePiece, piece?_missing hmissing]
      rfl
    · cases hid
  | deletePiece owner i =>
    obtain rfl := Option.some.inj howner
    obtain ⟨id, hid, hmissing⟩ | ⟨id, hid, -⟩ := hid
    · obtain rfl := Option.some.inj hid
      rw [Call.run, deletePiece, piece?_missing hmissing]
      rfl
    · cases hid
  | putReaderState owner i state =>
    obtain rfl := Option.some.inj howner
    obtain ⟨id, hid, hmissing⟩ | ⟨id, hid, -⟩ := hid
    · obtain rfl := Option.some.inj hid
      rw [Call.run, putReaderState, piece?_missing hmissing, Request.missing, Request.prechecks]
      cases validateReaderState state with
      | error e => rfl
      | ok _ => rfl
    · cases hid
  | _ => obtain ⟨id, hid, -⟩ | ⟨id, hid, -⟩ := hid <;> cases hid

theorem query_missing {q : Query} {store : Key → Option Bytes}
    (hid : (∃ id, (Request.query user q).pieceId? = some id ∧ ¬db.OwnsPiece user id) ∨
      ∃ id, (Request.query user q).draftId? = some id ∧ ¬db.OwnsDraft user id) :
    q.run s user now store db = .error .notFound := by
  obtain ⟨id, hid, hmissing⟩ | ⟨id, hid, hmissing⟩ := hid
  · cases q with
    | getPiece i =>
      obtain rfl := Option.some.inj hid
      rw [Query.run, getPiece, piece?_missing hmissing]
      rfl
    | getReaderState i =>
      obtain rfl := Option.some.inj hid
      rw [Query.run, getReaderState, piece?_missing hmissing]
      rfl
    | pdfSource i =>
      obtain rfl := Option.some.inj hid
      rw [Query.run, pdfSource, piece?_missing hmissing]
      rfl
    | _ => cases hid
  · cases q with
    | getImport i =>
      obtain rfl := Option.some.inj hid
      rw [Query.run, getImport, draftTx_missing hmissing]
      rfl
    | importSource i assetId =>
      obtain rfl := Option.some.inj hid
      rw [Query.run, importSource_missing hmissing]
      rfl
    | _ => cases hid

/-- A request that names a piece or a draft its user does not have leaves the database as it
is, and is answered as if nobody had it. -/
theorem foreign_missing {request : Request} (howner : request.owner? = some user)
    (hid : (∃ id, request.pieceId? = some id ∧ ¬σ.db.OwnsPiece user id) ∨
      ∃ id, request.draftId? = some id ∧ ¬σ.db.OwnsDraft user id)
    (h : σ.serve s request = some (answer, σ')) :
    answer.error? = some (request.missing s σ.clock σ.db) ∧ σ'.db = σ.db := by
  cases request with
  | call c fresh =>
    have hmissing : c.run s fresh σ.clock σ.db =
      .error ((Request.call c fresh).missing s σ.clock σ.db) := call_missing howner hid
    obtain ⟨⟨r, σ₁⟩, hstep, heq⟩ := Option.map_eq_some_iff.mp h
    obtain ⟨rfl, rfl⟩ := Prod.mk.inj heq
    cases Sys.step_stepped hstep with
    | callDone _ _ db hfresh hrun =>
      rw [hmissing] at hrun
      cases hrun
    | callFailed _ _ e hfresh hrun =>
      rw [hmissing] at hrun
      obtain rfl := Except.error.inj hrun
      exact ⟨rfl, rfl⟩
  | attachSource caller i filename revision data key fresh =>
    obtain rfl := Option.some.inj howner
    obtain ⟨id, hid, -⟩ | ⟨id, hid, hmissing⟩ := hid
    · cases hid
    obtain rfl := Option.some.inj hid
    have hattach : ∀ file, attachSource s caller i filename revision file
        ⟨key, data.length, s.sha256 data⟩ fresh σ.clock σ.db = .error .notFound := by
      intro file
      rw [attachSource, attachChecks, draftTx_missing hmissing]
      rfl
    have hprechecks : ∀ e, uploadedFile s data = .error e → (Request.attachSource caller i filename
        revision data key fresh).missing s σ.clock σ.db = e := by
      intro e hfile
      rw [Request.missing, Request.prechecks, hfile]
      rfl
    cases (serve_attach h).2 with
    | unreadable e hfile => exact ⟨congrArg some (hprechecks e hfile).symm, rfl⟩
    | refused file e _ hfile hrun hdb hstore =>
      rw [hattach] at hrun
      obtain rfl := Except.error.inj hrun
      refine ⟨?_, hdb⟩
      rw [Request.missing, Request.prechecks, hfile]
      rfl
    | done file db _ hfile hrun hdb hstore =>
      rw [hattach] at hrun
      cases hrun
  | finalizeImport caller i revision data key fresh =>
    obtain rfl := Option.some.inj howner
    obtain ⟨id, hid, -⟩ | ⟨id, hid, hmissing⟩ := hid
    · cases hid
    obtain rfl := Option.some.inj hid
    have hchecks : finalizeChecks s caller i revision data σ.clock σ.db = .error .notFound := by
      rw [finalizeChecks, draftTx_missing hmissing]
      rfl
    cases (serve_finalize h).2 with
    | refused e hrefused =>
      rw [hchecks] at hrefused
      obtain rfl := Except.error.inj hrefused
      exact ⟨rfl, rfl⟩
    | retried result hdone =>
      rw [hchecks] at hdone
      cases hdone
    | unread plan e hsave hbytes =>
      rw [hchecks] at hsave
      cases hsave
    | failed plan bytes e _ hsave hbytes hrun hdb hstore =>
      rw [hchecks] at hsave
      cases hsave
    | saved plan bytes db result _ hsave hbytes hrun hdb hstore =>
      rw [hchecks] at hsave
      cases hsave
  | query caller q =>
    obtain rfl := Option.some.inj howner
    obtain ⟨rfl, rfl⟩ := Prod.mk.inj (Option.some.inj h)
    rw [query_missing hid]
    exact ⟨rfl, rfl⟩
  | work e => cases howner

section Examples

def deletesForeign (x : Entry Sys Request Answer) : Bool :=
  x.event == .call (.deletePiece 2 2) (plainFresh 2) &&
    x.before.db.pieces.rows.any fun p => p.id == 2 && p.userId == 1

theorem foreign_missing_delete : ∃ (x : Entry Sys Request Answer) (p : PieceRow),
    p ∈ x.before.db.pieces ∧ p.userId = 1 ∧ x.response.error? = some .notFound ∧ x.after.db = x.before.db := by
  obtain ⟨t, σ, hrun, ht⟩ : ∃ t σ, Run (Sys.serve plainService) emptyLibrary t σ ∧
      t.any deletesForeign = true :=
    exists_run (p := fun t _ => t.any deletesForeign)
      [.call (.createPiece 1 (plainPiece "Prelude".toList "Bach".toList)) (plainFresh 1),
        .call (.deletePiece 2 2) (plainFresh 2)] (by decide +kernel)
  simp only [deletesForeign, List.any_eq_true, Bool.and_eq_true, beq_iff_eq] at ht
  obtain ⟨x, hx, hevent, p, hp, hid, howner⟩ := ht
  have hforeign : ¬x.before.db.OwnsPiece 2 2 := by
    rintro ⟨q, hq, hqid, hqowner⟩
    rw [Table.eq_of_key hq hp (hqid.trans hid.symm), howner] at hqowner
    cases hqowner
  have hstep := (hrun.at_mem (P := fun _ => True) (fun h _ => h) trivial hx).2
  rw [hevent] at hstep
  obtain ⟨herror, hdb⟩ := foreign_missing rfl (Or.inl ⟨2, rfl, hforeign⟩) hstep
  exact ⟨x, p, hp, howner, herror, hdb⟩

end Examples

end Noted
