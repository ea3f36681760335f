import Noted.Revisions

/-!
# Three-way merge of metadata

A draft of a piece remembers the piece's metadata and content revision at its
start. Finalizing it keeps what others have changed in the piece since, in every
field that the draft has not changed itself.
-/

namespace Noted

open Library Db

variable {s : Service} {σ σ' σ₀ σ₁ σ₂ σ₃ σ₄ : Sys} {e : Event} {r : Response} {draft pieceId : Id}

section Draft

structure Remembers (pieceId : Id) (base : PieceInput) (revision : Nat) (d : DraftRow) : Prop where
  pieceId : d.pieceId = some pieceId
  base : d.metadata.base = some base
  revision : d.baseRevision = revision

def Based (draft pieceId : Id) (base : PieceInput) (revision : Nat) (σ : Sys) : Prop :=
  draft ∈ σ.ids ∧ ∀ d ∈ σ.db.drafts, d.id = draft → Remembers pieceId base revision d

theorem Based.step {base : PieceInput} {revision : Nat} (hσ : Based draft pieceId base revision σ)
    (h : Sys.step s σ e = some (r, σ')) : Based draft pieceId base revision σ' := by
  refine (Sys.step_stepped h).keeps_draft ?_ hσ
  intro d d' hrewritten hd
  cases hrewritten with
  | kept heq => rwa [heq]
  | saved metadata manifest hopen hbase heq =>
    subst heq
    exact ⟨hd.pieceId, hbase.trans hd.base, hd.revision⟩
  | finalized pieceId' hunfinished htarget heq =>
    subst heq
    refine ⟨?_, hd.base, hd.revision⟩
    obtain hnone | hsome := htarget
    · rw [hd.pieceId] at hnone
      cases hnone
    · exact hsome.symm.trans hd.pieceId

theorem Starts.of_piece {owner : Id} {input : CreateImport} {work : Option IMSLPWork} {fresh : Fresh}
    {now : Time} {db db' : Db} {start : DraftStart}
    (h : Starts owner input work fresh now db start db') (hpiece : input.pieceId = .piece pieceId) :
    ∃ p ∈ db.pieces, p.id = pieceId ∧ ∃ manifest sources, start = pieceDraft p manifest sources := by
  cases h with
  | new habsent =>
    rw [hpiece] at habsent
    cases habsent
  | saved p hp howner m hm hlength hid =>
    exact ⟨p, hp, PieceRef.piece.inj (hid.symm.trans hpiece), _, _, rfl⟩
  | empty p hp howner hid => exact ⟨p, hp, PieceRef.piece.inj (hid.symm.trans hpiece), _, _, rfl⟩
  | retained p hp howner f hf hpdf hcount a ha hkey hid =>
    exact ⟨p, hp, PieceRef.piece.inj (hid.symm.trans hpiece), _, _, rfl⟩
  | legacy p hp howner f hf hpdf hcount db₁ hinsert hid =>
    exact ⟨p, hp, PieceRef.piece.inj (hid.symm.trans hpiece), _, _, rfl⟩

theorem createImport_based {owner : Id} {input : CreateImport} {work : Option IMSLPWork}
    {fresh : Fresh} (hσ : Issued σ)
    (h : Sys.step s σ (.call (.createImport owner input work) fresh) = some (.done, σ'))
    (hpiece : input.pieceId = .piece pieceId) {p : PieceRow} (hp : p ∈ σ.db.pieces)
    (hid : p.id = pieceId) : Based fresh.id pieceId p.draftInput p.contentRevision σ' := by
  have hstepped := Sys.step_stepped h
  refine ⟨hstepped.fresh_ids, ?_⟩
  intro d' hd' hd'id
  obtain ⟨start, db, hstart, rfl⟩ := hstepped.started hσ hd' hd'id
  obtain ⟨q, hq, hqid, manifest, sources, rfl⟩ := hstart.of_piece hpiece
  obtain rfl := Table.eq_of_key hp hq (hid.trans hqid.symm)
  exact ⟨congrArg some hid, rfl, rfl⟩

end Draft

section Trimmed

def TrimmedAt (pieceId : Id) (σ : Sys) : Prop :=
  ∀ p ∈ σ.db.pieces, p.id = pieceId → trimPiece p.input = p.input

def KeepsTrimmed (p p' : PieceRow) : Prop :=
  p'.id = p.id ∧ (trimPiece p.input = p.input → trimPiece p'.input = p'.input)

theorem keepsTrimmed_editing {now : Time} : Editing s now KeepsTrimmed where
  refl _ := ⟨rfl, fun h => h⟩
  trans _ _ _ h h' := ⟨h'.1.trans h.1, fun htrim => h'.2 (h.2 htrim)⟩
  update p patch _ := ⟨rfl, fun _ => by simp [trimPiece, PieceRow.input, updatedPiece]⟩
  merge p target _ htarget _ := by
    refine ⟨rfl, ?_⟩
    intro h
    simp only [trimPiece, PieceRow.input, PieceInput.mk.injEq] at h
    simp [trimPiece, PieceRow.input, mergedPiece, htarget, h]
  repair _ := ⟨rfl, fun h => h⟩
  refold _ := ⟨rfl, fun h => h⟩

theorem TrimmedAt.step (hσ : TrimmedAt pieceId σ) (h : Sys.step s σ e = some (r, σ')) :
    TrimmedAt pieceId σ' := by
  intro p' hp' hid
  cases (Sys.step_stepped h).piece_origin hp' with
  | kept hp => exact hσ p' hp hid
  | edited p hp hedit =>
    obtain ⟨hkey, htrim⟩ := hedit KeepsTrimmed keepsTrimmed_editing
    exact htrim (hσ p hp (hkey.symm.trans hid))
  | created owner id input hvalid htrim heq =>
    subst heq
    simp only [trimPiece] at htrim
    simp only [trimPiece, PieceRow.input, createdPiece]
    rw [← htrim]
    simp
  | finalized p m manifest hvalid htrim hp heq =>
    subst heq
    have hfields : trimSpace p.aliases = p.aliases ∧ trimSpace p.opus = p.opus ∧
        trimSpace p.musicKey = p.musicKey := by
      obtain hp | ⟨owner, id, rfl⟩ := hp
      · have hp := hσ p hp hid
        simp only [trimPiece, PieceRow.input, PieceInput.mk.injEq] at hp
        tauto
      · exact ⟨rfl, rfl, rfl⟩
    simp only [trimPiece] at htrim
    simp only [trimPiece, PieceRow.input, finalizedChange, hfields]
    rw [← htrim]
    simp

end Trimmed

section Checks

variable {owner id : Id} {revision : Int} {data : Bytes} {now : Time} {db : Db}

/-- The call passes the checks of `finalizeImport` that come before the merge. -/
structure PassesChecks (s : Service) (owner : Id) (d : DraftRow) (revision : Int) (data : Bytes)
    (now : Time) (db : Db) : Prop where
  owns : d.userId = owner
  recent : now < d.updatedAt + sevenDays
  revision : (d.revision : Int) = revision
  manifest : validateManifest s.validUUID d.manifest (db.draftAssets owner d.id) false = .ok ⟨⟩
  metadata : ∃ m, validatePiece d.metadata.input = .ok m
  size : data.length ≤ s.importLimit
  file : ∃ file, validateImportBytes s.decoders data = .ok file ∧ file.mime = .pdf ∧
    file.pages = d.manifest.pages.length

theorem finalizeChecks_pieceChanged {d : DraftRow} (hd : d ∈ db.drafts) (hopen : d.finalized = false)
    (hpass : PassesChecks s owner d revision data now db) (hpiece : d.pieceId = some pieceId)
    {p : PieceRow} (hp : db.piece? owner pieceId = some p)
    (hchanged : p.contentRevision ≠ d.baseRevision) :
    finalizeChecks s owner d.id revision data now db = .error .pieceChanged := by
  have hdraft : db.draftTx s owner d.id now = .ok ⟨d, db.draftAssets owner d.id, s.importLimit⟩ :=
    draftTx_eq_ok.mpr ⟨⟨hd, rfl, hpass.owns, hpass.recent⟩, rfl, rfl⟩
  obtain ⟨m, hm⟩ := hpass.metadata
  obtain ⟨file, hfile, hpdf, hpages⟩ := hpass.file
  have hplan : finalizePlan owner ⟨d, db.draftAssets owner d.id, s.importLimit⟩ m db =
      .error .pieceChanged := by
    simp only [finalizePlan, hpiece, hp, demand_some, ok_bind, mergedMetadata]
    rw [refuse_of hchanged]
    rfl
  unfold finalizeChecks
  rw [hdraft, ok_bind, refuse_of_not (not_not.mpr hpass.revision), ok_bind]
  simp only [hopen, hm, hfile, ok_bind]
  rw [hpass.manifest, ok_bind, refuse_of_not (Nat.not_lt.mpr hpass.size), ok_bind,
    refuse_of_not (not_or.mpr ⟨not_not.mpr hpdf, not_not.mpr hpages⟩), ok_bind, hplan, error_bind]

def Event.finalizeCall : Event → Option (Id × Bytes)
  | .beginFinalize owner _ _ data _ => some (owner, data)
  | .commit f _ =>
    match f.upload with
    | .attach _ _ _ _ => none
    | .finalize _ _ data => some (f.owner, data)
  | _ => none

theorem step_finalizeChecks {error : Error} (h : Sys.step s σ e = some (r, σ'))
    (he : e.finalizes = some (id, revision)) (hcall : e.finalizeCall = some (owner, data))
    (hchecks : finalizeChecks s owner id revision data σ.clock σ.db = .error error) :
    r = .failed error := by
  cases e with
  | beginFinalize owner' id' revision' data' key =>
    obtain ⟨rfl, rfl⟩ : id' = id ∧ revision' = revision := by simpa [Event.finalizes] using he
    obtain ⟨rfl, rfl⟩ : owner' = owner ∧ data' = data := by simpa [Event.finalizeCall] using hcall
    obtain ⟨-, h⟩ := Option.ite_none_left_eq_some.mp h
    have h := Option.some.inj h
    rw [Sys.beginFinalize, hchecks] at h
    exact (congrArg Prod.fst h).symm
  | commit f fresh =>
    cases hupload : f.upload with
    | attach id' filename revision' file => simp [Event.finalizes, hupload] at he
    | finalize id' revision' data' =>
      obtain ⟨rfl, rfl⟩ : id' = id ∧ revision' = revision := by
        simpa [Event.finalizes, hupload] using he
      obtain ⟨rfl, rfl⟩ : f.owner = owner ∧ data' = data := by
        simpa [Event.finalizeCall, hupload] using hcall
      obtain ⟨-, h⟩ := Option.ite_none_right_eq_some.mp h
      have h := Option.some.inj h
      have hchecks : finalizeChecks s f.owner id' revision' data' (σ.spend fresh).clock
        (σ.spend fresh).db = .error error := hchecks
      rw [Sys.commit, hupload] at h
      dsimp only at h
      rw [hchecks] at h
      exact (congrArg Prod.fst h).symm
  | _ => simp [Event.finalizeCall] at hcall

end Checks

section Merge

/-- Each field is the draft's where the draft has changed it, and the piece's
current one where it has not; what a draft does not carry stays. -/
structure Merged (base draft : PieceInput) (current saved : PieceRow) : Prop where
  title : saved.title = if draft.title ≠ base.title then draft.title else current.title
  composer : saved.composer = if draft.composer ≠ base.composer then draft.composer else current.composer
  favorite : saved.favorite = if draft.favorite ≠ base.favorite then draft.favorite else current.favorite
  sourceURL : saved.sourceURL =
    if draft.sourceURL ≠ base.sourceURL then draft.sourceURL else current.sourceURL
  listeningURL : saved.listeningURL =
    if draft.listeningURL ≠ base.listeningURL then draft.listeningURL else current.listeningURL
  notes : saved.notes = if draft.notes ≠ base.notes then draft.notes else current.notes
  aliases : saved.aliases = current.aliases
  opus : saved.opus = current.opus
  musicKey : saved.musicKey = current.musicKey
  status : saved.status = current.status

theorem trimSpace_ite {c : Prop} [Decidable c] {a b : Text} (ha : trimSpace a = a)
    (hb : trimSpace b = b) : trimSpace (if c then a else b) = if c then a else b := by
  split
  · exact ha
  · exact hb

theorem merged_of_mergedMetadata (s : Service) (manifest : EditManifest) (now : Time)
    {current : PieceRow} {d : DraftRow} {base draft m : PieceInput} (hbase : d.metadata.base = some base)
    (hcurrent : trimPiece current.input = current.input) (hdraft : trimPiece draft = draft)
    (h : mergedMetadata current d draft = .ok m) :
    Merged base draft current ((finalizedChange s m manifest now).apply current) := by
  simp only [mergedMetadata, bind_eq_ok, hbase, pure_eq_ok, Except.ok.injEq] at h
  obtain ⟨-, -, merged, hmerged, rfl⟩ := h
  obtain ⟨rfl, -⟩ := validatePiece_eq_ok.mp hmerged
  simp only [trimPiece, PieceRow.input, PieceInput.mk.injEq] at hcurrent
  obtain ⟨-, -, htitle, hcomposer, -, -, hsource, hlistening, hnotes, -⟩ := hcurrent
  constructor
  case title => exact trimSpace_ite (congrArg PieceInput.title hdraft) htitle
  case composer => exact trimSpace_ite (congrArg PieceInput.composer hdraft) hcomposer
  case sourceURL => exact trimSpace_ite (congrArg PieceInput.sourceURL hdraft) hsource
  case listeningURL => exact trimSpace_ite (congrArg PieceInput.listeningURL hdraft) hlistening
  case notes => exact trimSpace_ite (congrArg PieceInput.notes hdraft) hnotes
  all_goals rfl

/-- Finalizing a draft of a piece: if the piece's content has been replaced since the
draft was started, it fails and changes nothing; else it saves the draft's changes and
keeps everything else as it is now. -/
theorem finalize_merges {owner : Id} {input : CreateImport} {work : Option IMSLPWork} {fresh : Fresh}
    {t₁ t₂ : List (Entry Sys Event Response)} {base : PieceRow} {revision : Int}
    (hinitial : Initial σ₀) (hbefore : Run (Sys.step s) σ₀ t₁ σ₁)
    (hbase : base ∈ σ₁.db.pieces) (htrim : trimPiece base.input = base.input)
    (hpiece : input.pieceId = .piece base.id)
    (hcreate : Sys.step s σ₁ (.call (.createImport owner input work) fresh) = some (.done, σ₂))
    (hbetween : Run (Sys.step s) σ₂ t₂ σ₃) (hstep : Sys.step s σ₃ e = some (r, σ₄))
    (he : e.finalizes = some (fresh.id, revision)) {d : DraftRow} (hd : d ∈ σ₃.db.drafts)
    (hid : d.id = fresh.id) (hopen : d.finalized = false) :
    ∃ current ∈ σ₃.db.pieces, current.id = base.id ∧
      (current.contentRevision ≠ base.contentRevision →
        σ₄.db = σ₃.db ∧ (∃ error, r = .failed error) ∧
          ∀ caller data, e.finalizeCall = some (caller, data) →
            PassesChecks s caller d revision data σ₃.clock σ₃.db → r = .failed .pieceChanged) ∧
      ∀ result, r = .finalized result → current.contentRevision = base.contentRevision ∧
        result.piece.id = base.id ∧ ∃ saved ∈ σ₄.db.pieces, saved.id = base.id ∧
          Merged base.draftInput (trimPiece d.metadata.input) current saved := by
  have hissued₁ : Issued σ₁ := hbefore.invariant (fun hσ h => Issued.step hσ h) hinitial.issued
  have hsound₁ : σ₁.Sound := hbefore.invariant (fun hσ h => hσ.step h) hinitial.sound
  have hsound : σ₃.Sound := hbetween.invariant (fun hσ h => hσ.step h) (hsound₁.step hcreate)
  have hbased : Based fresh.id base.id base.draftInput base.contentRevision σ₃ :=
    hbetween.invariant (fun hσ h => Based.step hσ h)
      (createImport_based hissued₁ hcreate hpiece hbase rfl)
  have htrimmed₁ : TrimmedAt base.id σ₁ := by
    intro p hp hpid
    rwa [Table.eq_of_key hp hbase hpid]
  have htrimmed : TrimmedAt base.id σ₃ :=
    hbetween.invariant (fun hσ h => TrimmedAt.step hσ h) (htrimmed₁.step hcreate)
  have hremembers := hbased.2 d hd hid
  obtain ⟨current, hcurrent, hcid, howner⟩ := hsound.coherent.draft d hd base.id hremembers.pieceId
  -- a plan is for this draft and this piece
  have hplanned : ∀ {caller data plan}, Planned s caller fresh.id revision data σ₃.clock σ₃.db plan →
      plan.draft.row = d ∧ mergedMetadata current d (trimPiece d.metadata.input) =
        .ok plan.metadata := by
    intro caller data plan hplan
    obtain rfl := Table.eq_of_key hplan.draft_mem hd (hplan.draft_id.trans hid.symm)
    obtain ⟨m, hm, hfinal⟩ := hplan.metadata
    obtain ⟨rfl, -⟩ := validatePiece_eq_ok.mp hm
    refine ⟨rfl, ?_⟩
    cases finalizePlan_targets hfinal with
    | piece p hp hpowner hpid hmerge hold =>
      have hsame : p.id = base.id := Option.some.inj (hpid.symm.trans hremembers.pieceId)
      rwa [Table.eq_of_key hcurrent hp (hcid.trans hsame.symm)]
    | new hnone =>
      rw [hremembers.pieceId] at hnone
      cases hnone
  have hrevision : ∀ {m saved}, mergedMetadata current d m = .ok saved →
      current.contentRevision = base.contentRevision := by
    intro m saved h
    simp only [mergedMetadata, bind_eq_ok, refuse_eq_ok, exists_const, ne_eq, not_not] at h
    exact h.1.trans hremembers.revision
  refine ⟨current, hcurrent, hcid, ?_, ?_⟩
  · intro hchanged
    have hfail : σ₄.db = σ₃.db ∧ ∃ error, r = .failed error := by
      cases (Sys.step_stepped hstep).finalize_outcome he with
      | saved caller data plan object fresh' result hfresh hplan =>
        exact absurd (hrevision (hplanned hplan).2) hchanged
      | retried d' hd' hid' hfinal =>
        rw [Table.eq_of_key hd' hd (hid'.trans hid.symm), hopen] at hfinal
        cases hfinal
      | failed error hr hdb hobject => exact ⟨hdb, error, hr⟩
      | uploaded caller data plan hplan => exact absurd (hrevision (hplanned hplan).2) hchanged
    refine ⟨hfail.1, hfail.2, ?_⟩
    intro caller data hcall hpass
    have hfound : σ₃.db.piece? caller base.id = some current :=
      piece?_eq_some.mpr ⟨hcurrent, hcid, howner.trans hpass.owns⟩
    have hchecks := finalizeChecks_pieceChanged hd hopen hpass hremembers.pieceId hfound
      (by rwa [hremembers.revision])
    rw [hid] at hchecks
    exact step_finalizeChecks hstep he hcall hchecks
  · intro result hr
    cases (Sys.step_stepped hstep).finalize_outcome he with
    | saved caller data plan object fresh' result' hfresh hplan hr' hrun =>
      obtain rfl : result = result' := Response.finalized.inj (hr.symm.trans hr')
      obtain ⟨rfl, hmerge⟩ := hplanned hplan
      have hmerged := merged_of_mergedMetadata s plan.draft.row.manifest σ₃.clock hremembers.base
        (htrimmed current hcurrent hcid) (trimPiece_trimPiece _) hmerge
      cases finalizeWrites_saves hplan hrun with
      | revised p hp hpowner hpid htarget hrows =>
        have hsame : result.piece.id = base.id := Option.some.inj (htarget.symm.trans hremembers.pieceId)
        refine ⟨hrevision hmerge, hsame, (finalizedChange s plan.metadata plan.draft.row.manifest
          σ₃.clock).apply current, ?_, hcid, hmerged⟩
        rw [← Table.mem_rows, hrows, List.mem_map]
        exact ⟨current, hcurrent, if_pos (hcid.trans hsame.symm)⟩
      | created hnew htarget =>
        rw [hremembers.pieceId] at htarget
        cases htarget
    | retried d' hd' hid' hfinal =>
      rw [Table.eq_of_key hd' hd (hid'.trans hid.symm), hopen] at hfinal
      cases hfinal
    | failed error hr' => cases hr.symm.trans hr'
    | uploaded caller data plan hplan hr' => cases hr.symm.trans hr'

end Merge

section Examples

def replacedEvents : List Event :=
  plainEvents ++ [.call (.createImport 1 ⟨.piece 6, []⟩ none) (plainFresh 5),
    .call (.createImport 1 ⟨.piece 6, []⟩ none) (plainFresh 6),
    .beginFinalize 1 10 0 plainPDF 9, .commit (plainFinalize 10 0 9) (plainFresh 7)]

/-- A call that names a wrong revision fails for that reason first, although the
piece's content has been replaced since its draft was started. -/
theorem not_pieceChanged : ∃ t σ, Initial emptyLibrary ∧
    Run (Sys.step plainService) emptyLibrary t σ ∧
      ∃ x ∈ t, x.event = .call (.createImport 1 ⟨.piece 6, []⟩ none) (plainFresh 6) ∧
        x.response = .done ∧
      ∃ y ∈ t, y.event = .beginFinalize 1 12 3 plainPDF 10 ∧ y.response = .failed .conflict ∧
      ∃ p ∈ x.before.db.pieces, p.id = 6 ∧ trimPiece p.input = p.input ∧
      ∃ q ∈ y.before.db.pieces, q.id = 6 ∧ q.contentRevision ≠ p.contentRevision := by
  obtain ⟨t, σ, hrun, ht⟩ : ∃ t σ, Run (Sys.step plainService) emptyLibrary t σ ∧
      (t.any fun x =>
        (x.event == .call (.createImport 1 ⟨.piece 6, []⟩ none) (plainFresh 6) && x.response == .done) &&
        t.any fun y =>
          (y.event == .beginFinalize 1 12 3 plainPDF 10 && y.response == .failed .conflict) &&
          x.before.db.pieces.rows.any fun p =>
            (p.id == 6 && decide (trimPiece p.input = p.input)) &&
            y.before.db.pieces.rows.any fun q =>
              q.id == 6 && q.contentRevision != p.contentRevision) = true :=
    exists_run (replacedEvents ++ [.beginFinalize 1 12 3 plainPDF 10]) (by decide +kernel)
  simp only [List.any_eq_true, Bool.and_eq_true, beq_iff_eq, bne_iff_ne, decide_eq_true_eq,
    Table.mem_rows] at ht
  obtain ⟨x, hx, ⟨hcreate, hdone⟩, y, hy, ⟨hfinalize, hconflict⟩, p, hp, ⟨hpid, htrim⟩, q, hq, hqid,
    hrevision⟩ := ht
  exact ⟨t, σ, emptyLibrary_initial, hrun, x, hx, hcreate, hdone, y, hy, hfinalize, hconflict, p, hp,
    hpid, htrim, q, hq, hqid, hrevision⟩

def editedEvents : List Event :=
  plainEvents ++ [.call (.createImport 1 ⟨.piece 6, []⟩ none) (plainFresh 5),
    .call (.updatePiece 1 6 ⟨none, none, none, none, none, none, none, none, some "slow".toList, none⟩)
      (plainFresh 6),
    .beginFinalize 1 10 0 plainPDF 9, .commit (plainFinalize 10 0 9) (plainFresh 7)]

def mergesNotes (t : List (Entry Sys Event Response)) : Bool :=
  match t with
  | [_, _, _, _, _, x, _, _, y] =>
    x.event == .call (.createImport 1 ⟨.piece 6, []⟩ none) (plainFresh 5) && x.response == .done &&
      y.event.finalizes == some (10, 0) && finalizedAs 10 y == some 6 &&
      (y.before.db.pieces.rows.all fun q => q.notes == "slow".toList) &&
      (x.before.db.pieces.rows.any fun p => p.id == 6 && decide (trimPiece p.input = p.input) &&
        p.notes == []) &&
      y.before.db.drafts.rows.any fun d => d.id == 10 && !d.finalized &&
        (trimPiece d.metadata.input).notes == []
  | _ => false

theorem finalize_merges_notes : ∃ σ, ∃ saved ∈ σ.db.pieces, saved.id = 6 ∧
    saved.notes = "slow".toList ∧ Reachable plainService σ := by
  obtain ⟨t, σ, hrun, ht⟩ : ∃ t σ, Run (Sys.step plainService) emptyLibrary t σ ∧
      mergesNotes t = true :=
    exists_run editedEvents (by decide +kernel)
  unfold mergesNotes at ht
  split at ht
  · rename_i a b c d e x u v y
    simp only [List.any_eq_true, List.all_eq_true, Bool.and_eq_true, Bool.not_eq_true', beq_iff_eq,
      decide_eq_true_eq, Table.mem_rows] at ht
    obtain ⟨⟨⟨⟨⟨⟨hcreate, hdone⟩, hfinalizes⟩, hpiece⟩, hcurrent⟩, p, hp, ⟨hpid, htrim⟩, hpnotes⟩, f, hf,
      ⟨hfid, hopen⟩, hfnotes⟩ := ht
    obtain ⟨hfirst, hstep, hrest⟩ := Run.at_entry (t := [a, b, c, d, e]) (x := x) (u := [u, v, y]) hrun
    obtain ⟨hbetween, hlast, hend⟩ := Run.at_entry (t := [u, v]) (x := y) (u := []) hrest
    obtain ⟨revision, result, he, hr, hid⟩ := finalizedAs_eq_some hpiece
    rw [hcreate, hdone] at hstep
    obtain ⟨current, hmem, hcid, -, hmerge⟩ := finalize_merges emptyLibrary_initial hfirst hp htrim
      (by rw [hpid]) hstep hbetween hlast hfinalizes hf hfid hopen
    obtain ⟨-, -, saved, hsaved, hsid, hmerged⟩ := hmerge result hr
    have hnotes := hmerged.notes
    have hbase : p.draftInput.notes = [] := hpnotes
    rw [hfnotes, hbase, hcurrent current hmem] at hnotes
    obtain rfl := hend.eq_of_nil
    exact ⟨y.after, saved, hsaved, hsid.trans hpid, by simpa using hnotes, emptyLibrary, _,
      emptyLibrary_initial, hrun⟩
  · cases ht

end Examples

end Noted
