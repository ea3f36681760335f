import Noted.Reading
import Noted.Finalize

/-!
# An unedited preparation

A draft that goes back to the manifest it started with saves the bytes the piece has. At
every step a piece keeps its PDF and its content revision or is finalized, and what a call
in flight carries was read at the revision of its draft.
-/

namespace Noted

open Library Db

variable {s : Service} {σ σ' σ₀ : Sys} {e : Event} {r : Response} {db db' : Db}

section Content

def SameContent (p p' : PieceRow) : Prop :=
  p'.id = p.id ∧ p'.contentRevision = p.contentRevision ∧
    p'.preparationManifest = p.preparationManifest

theorem sameContent_editing {now : Time} : Editing s now SameContent where
  refl _ := ⟨rfl, rfl, rfl⟩
  trans _ _ _ h h' := ⟨h'.1.trans h.1, h'.2.1.trans h.2.1, h'.2.2.trans h.2.2⟩
  update _ _ _ := ⟨rfl, rfl, rfl⟩
  merge _ _ _ _ _ := ⟨rfl, rfl, rfl⟩
  repair _ := ⟨rfl, rfl, rfl⟩
  refold _ := ⟨rfl, rfl, rfl⟩

/-- A piece with its PDF, after a transaction that finalizes nothing: as it was, or new. -/
inductive Content (db db' : Db) (p' : PieceRow) : Prop
  | same (p : PieceRow) (hp : p ∈ db.pieces) (hsame : SameContent p p')
      (hpdf : db'.pdf? p'.id = db.pdf? p'.id)
  | new (hnew : ∀ p ∈ db.pieces, p.id ≠ p'.id) (hmanifest : p'.preparationManifest = none)
      (hpdf : db'.pdf? p'.id = none)

theorem Content.of_eq {p : PieceRow} (hpieces : db'.pieces = db.pieces) (hpdfs : db'.pdfs = db.pdfs)
    (hp : p ∈ db'.pieces) : Content db db' p := by
  rw [hpieces] at hp
  exact .same p hp ⟨rfl, rfl, rfl⟩ (by rw [Db.pdf?, Db.pdf?, hpdfs])

theorem Db.Coherent.pdf?_none (hdb : db.Coherent) {id : Id} (h : ∀ p ∈ db.pieces, p.id ≠ id) :
    db.pdf? id = none := by
  cases hpdf : db.pdf? id with
  | none => rfl
  | some f =>
    obtain ⟨hf, hid⟩ := pdf?_eq_some.mp hpdf
    obtain ⟨owner, p, hp, hpid, -⟩ := hdb.pdf f hf
    exact absurd (hpid.trans hid) (h p hp)

theorem Rewrites.content {p' : PieceRow} (h : Rewrites SameContent db db') (hp' : p' ∈ db'.pieces) :
    Content db db' p' := by
  obtain ⟨p, hp, hsame⟩ := h.mem_right hp'
  obtain ⟨f, pieces, v, rfl, -⟩ := h
  exact .same p hp hsame rfl

theorem deletePieces_content {gone : PieceRow → Bool} {p : PieceRow}
    (hp : p ∈ (db.deletePieces gone).pieces) : Content db (db.deletePieces gone) p := by
  obtain ⟨hp, hkept⟩ := Table.mem_delete.mp hp
  refine .same p hp ⟨rfl, rfl, rfl⟩ (Option.ext fun f => ?_)
  rw [pdf?_eq_some, pdf?_eq_some]
  constructor
  · rintro ⟨hf, hid⟩
    exact ⟨(Table.mem_delete.mp hf).1, hid⟩
  · rintro ⟨hf, hid⟩
    refine ⟨Table.mem_delete.mpr ⟨hf, List.any_eq_false.mpr fun q hq => ?_⟩, hid⟩
    rw [Bool.and_eq_true, beq_iff_eq, not_and]
    intro hgone hqid
    rw [Table.eq_of_key hq hp (hqid.trans hid), hkept] at hgone
    cases hgone

theorem Content.collectOrphans {p : PieceRow} {now : Time} (h : Content db db' p) :
    Content db (db'.collectOrphans now) p := by
  have hpdf : (db'.collectOrphans now).pdf? p.id = db'.pdf? p.id := by
    rw [Db.pdf?, Db.pdf?, collectOrphans_pdfs]
  cases h with
  | same q hq hsame hq' => exact .same q hq hsame (hpdf.trans hq')
  | new hnew hmanifest hnone => exact .new hnew hmanifest (hpdf.trans hnone)

theorem Call.content {c : Call} {fresh : Fresh} {p' : PieceRow} (hdb : σ.db.Coherent)
    (h : c.run s fresh σ.clock σ.db = .ok db') (hp' : p' ∈ db'.pieces) : Content σ.db db' p' := by
  cases c with
  | createImport owner input work =>
    obtain ⟨-, -, start, db₁, db₂, draftSources, hstart, hinsert, -, -, rfl⟩ := createImport_ok h
    obtain ⟨-, drafts, -, rfl⟩ := insertDraft_eq_ok.mp hinsert
    obtain ⟨assets, rfl⟩ := hstart.frame
    exact .of_eq rfl rfl hp'
  | updateImport owner id input =>
    obtain ⟨d, -, -, -, -, rfl⟩ := updateImport_ok.mp h
    exact .of_eq rfl rfl hp'
  | deleteImport owner id =>
    obtain ⟨d, -, -, -, rfl⟩ := deleteImport_ok h
    rw [collectOrphans_pieces] at hp'
    exact Content.collectOrphans (.of_eq rfl rfl hp')
  | createPiece owner input =>
    obtain ⟨validated, hvalid, htrim, hinsert⟩ := createPiece_ok h
    obtain ⟨pieces, hpieces, rfl⟩ := insertPiece_eq_ok.mp hinsert
    have hnew := (Table.insert?_eq_some.mp hpieces).1
    obtain hp' | rfl := (Table.mem_insert? hpieces).mp hp'
    · exact .same p' hp' ⟨rfl, rfl, rfl⟩ rfl
    · exact .new hnew rfl (hdb.pdf?_none hnew)
  | updatePiece owner id patch => exact (updatePiece_rewrites sameContent_editing h).content hp'
  | deletePiece owner id =>
    obtain ⟨-, rfl⟩ := deletePiece_ok h
    obtain ⟨queue, heq⟩ := queueOld_eq ((σ.db.deletePieces fun p =>
      p.id == id && p.userId == owner).collectOrphans σ.clock) σ.clock (σ.db.pdf? id)
    rw [heq] at hp' ⊢
    have hp' : p' ∈ ((σ.db.deletePieces fun p =>
      p.id == id && p.userId == owner).collectOrphans σ.clock).pieces := hp'
    rw [collectOrphans_pieces] at hp'
    cases (deletePieces_content hp').collectOrphans with
    | same p hp hsame hpdf => exact .same p hp hsame hpdf
    | new hnew hmanifest hpdf => exact .new hnew hmanifest hpdf
  | putReaderState owner id state =>
    obtain ⟨-, rfl⟩ := putReader_eq_ok.mp (putReaderState_ok h).2
    exact .of_eq rfl rfl hp'
  | mergeComposers owner input =>
    obtain ⟨⟨_, preview⟩, hmerge, rfl⟩ := map_eq_ok.mp h
    exact (mergeComposers_rewrites sameContent_editing hmerge).content hp'
  | repairComposerKeys =>
    obtain rfl : Noted.repairComposerKeys s σ.db = db' := by simpa [Call.run] using h
    have hediting : Editing s σ.clock SameContent := sameContent_editing
    exact (repairComposerKeys_rewrites hediting σ.db).content hp'
  | refoldSearchText force =>
    have hediting : Editing s σ.clock SameContent := sameContent_editing
    exact (refoldSearchText_rewrites hediting h).content hp'

structure Finalized (plan : FinalizePlan) (object : Object) (now : Time) (db db' : Db)
    (p' : PieceRow) : Prop where
  manifest : p'.preparationManifest = some plan.draft.row.manifest
  pdf : db'.pdf? p'.id = some (finalizedPdf plan p'.id object now)
  before : (∀ p ∈ db.pieces, p.id ≠ p'.id) ∨ ∃ p ∈ db.pieces, p.id = p'.id ∧
    plan.draft.row.pieceId = some p.id ∧ p.contentRevision = plan.draft.row.baseRevision ∧
    p'.contentRevision = p.contentRevision + 1

theorem finalizeTarget_piece {owner newId pieceId : Id} {plan : FinalizePlan} {now : Time}
    {p : PieceRow} (h : finalizeTarget owner plan newId now db = .ok (pieceId, db'))
    (hp : p ∈ db'.pieces) :
    db'.pdfs = db.pdfs ∧ (p.id ≠ pieceId → p ∈ db.pieces) ∧
      (p.id = pieceId → (plan.draft.row.pieceId = some pieceId ∧ p ∈ db.pieces) ∨
        ∀ q ∈ db.pieces, q.id ≠ pieceId) := by
  obtain ⟨hid, rfl⟩ | ⟨-, rfl, hinsert⟩ := finalizeTarget_ok h
  · exact ⟨rfl, fun _ => hp, fun _ => Or.inl ⟨hid, hp⟩⟩
  · obtain ⟨pieces, hrow, rfl⟩ := insertPiece_eq_ok.mp hinsert
    refine ⟨rfl, fun hne => ?_, fun _ => Or.inr (Table.insert?_eq_some.mp hrow).1⟩
    obtain hp | rfl := (Table.mem_insert? hrow).mp hp
    · exact hp
    · exact absurd rfl hne

theorem Planned.base_revision {owner id : Id} {revision : Int} {data : Bytes} {now : Time}
    {plan : FinalizePlan} (h : Planned s owner id revision data now db plan) {p : PieceRow}
    (hp : p ∈ db.pieces) (hid : plan.draft.row.pieceId = some p.id) :
    p.contentRevision = plan.draft.row.baseRevision ∧ plan.old = db.pdf? p.id := by
  obtain ⟨m, hm, hfinal⟩ := h.metadata
  obtain ⟨htrim, hvalid⟩ := validatePiece_validated hm
  cases finalizePlan_targets hfinal with
  | piece current hcurrent howner hcid hmerge hold =>
    obtain rfl := Table.eq_of_key hp hcurrent (Option.some.inj (hid.symm.trans hcid))
    exact ⟨(mergedMetadata_ok hmerge hvalid htrim).1, hold⟩
  | new hnone =>
    rw [hid] at hnone
    cases hnone

theorem closeDraft_pdf? (draftId pieceId : Id) (old : Option PdfRow) (now : Time) (db : Db)
    (k : Id) : (closeDraft draftId pieceId old now db).pdf? k = db.pdf? k :=
  congrArg Place.pdf (closeDraft_place draftId pieceId old)

theorem pieceSaved_pdf? (s : Service) (plan : FinalizePlan) (object : Object) (pieceId : Id)
    (now : Time) (pieceSources : Table fun x : PieceSource => x) (db : Db) (k : Id) :
    (pieceSaved s plan object pieceId now pieceSources db).pdf? k =
      if pieceId = k then some (finalizedPdf plan pieceId object now) else db.pdf? k :=
  Table.find?_put fun _ => beq_iff_eq

theorem finalizeWrites_content {owner id newId : Id} {revision : Int} {data : Bytes} {now : Time}
    {plan : FinalizePlan} {object : Object} {result : FinalizeResult} {p' : PieceRow}
    (hplan : Planned s owner id revision data now db plan)
    (h : finalizeWrites s owner plan object newId now db = .ok (db', result))
    (hp' : p' ∈ db'.pieces) : Content db db' p' ∨ Finalized plan object now db db' p' := by
  obtain ⟨pieceId, db₁, htarget, -, hpieces, -⟩ := finalizeWrites_tables h
  obtain ⟨i, db₂, hsave, rfl, -⟩ := finalizeWrites_ok h
  obtain ⟨db₃, pieceSources, htarget', -, -, -, rfl⟩ := savePiece_ok hsave
  obtain ⟨rfl, rfl⟩ : pieceId = i ∧ db₁ = db₃ := by
    simpa using Except.ok.inj (htarget.symm.trans htarget')
  rw [hpieces] at hp'
  obtain ⟨p, hp, rfl⟩ := mem_updatePieces.mp hp'
  obtain ⟨hpdfs, hothers, hthis⟩ := finalizeTarget_piece htarget hp
  by_cases hid : p.id = pieceId
  · rw [if_pos (by simpa using hid)]
    refine Or.inr ⟨rfl, ?_, ?_⟩
    · rw [closeDraft_pdf?, pieceSaved_pdf?]
      exact (if_pos hid.symm).trans (by rw [← hid]; rfl)
    · obtain ⟨htarget, hp⟩ | hnew := hthis hid
      · rw [← hid] at htarget
        exact Or.inr ⟨p, hp, rfl, htarget, (hplan.base_revision hp htarget).1, rfl⟩
      · exact Or.inl fun q hq heq => hnew q hq (heq.trans hid)
  · rw [if_neg (by simpa using hid)]
    refine Or.inl (.same p (hothers hid) ⟨rfl, rfl, rfl⟩ ?_)
    rw [closeDraft_pdf?, pieceSaved_pdf?, if_neg (Ne.symm hid), Db.pdf?, Db.pdf?, hpdfs]

theorem Sys.Stepped.content (h : Sys.Stepped s σ e r σ') (hdb : σ.db.Coherent) {p' : PieceRow}
    (hp' : p' ∈ σ'.db.pieces) : Content σ.db σ'.db p' ∨
      ∃ f ∈ σ.flights, (∃ fresh, e = .commit f fresh) ∧ ∃ plan,
        plan.draft.row ∈ σ.db.drafts ∧ Finalized plan f.object σ.clock σ.db σ'.db p' := by
  cases h with
  | callDone c fresh db hfresh hrun => exact Or.inl (Call.content hdb hrun hp')
  | attached f fresh id filename revision file db hf hfresh hupload hrun =>
    obtain ⟨d, -, -, -, db₁, db₂, hasset, hsource, rfl⟩ := attachSource_ok hrun
    obtain ⟨-, assets, -, rfl⟩ := insertAsset_eq_ok.mp hasset
    obtain ⟨-, draftSources, -, rfl⟩ := insertDraftSource_eq_ok.mp hsource
    exact Or.inl (.of_eq rfl rfl hp')
  | finalized f fresh id revision data plan db result hf hfresh hupload hplan hrun =>
    exact (finalizeWrites_content hplan hrun hp').imp_right fun hfinal =>
      ⟨f, hf, ⟨fresh, rfl⟩, plan, hplan.draft_mem, hfinal⟩
  | expired =>
    have hp' : p' ∈ (expireDrafts σ.clock σ.db).pieces := hp'
    rw [expireDrafts, collectOrphans_pieces] at hp'
    refine Or.inl ?_
    have hkept : Content σ.db (σ.db.deleteDrafts fun d => d.updatedAt + sevenDays < σ.clock) p' :=
      .of_eq rfl rfl hp'
    exact hkept.collectOrphans
  | _ => exact Or.inl (.of_eq rfl rfl hp')

end Content

section Manifests

/-- A saved manifest has a page for each of the PDF's. -/
def Paged (σ : Sys) : Prop :=
  ∀ p ∈ σ.db.pieces, ∀ m, p.preparationManifest = some m →
    ∃ f, σ.db.pdf? p.id = some f ∧ f.pageCount = m.pages.length

theorem Initial.paged (h : Initial σ) : Paged σ := by
  intro p hp m hm
  rw [(h.pieces p hp).2.1] at hm
  cases hm

theorem Paged.step (hσ : Paged σ) (hdb : σ.db.Coherent) (h : Sys.Stepped s σ e r σ') :
    Paged σ' := by
  intro p' hp' m hm
  obtain hcontent | ⟨f, -, -, plan, -, hfinal⟩ := h.content hdb hp'
  · cases hcontent with
    | same p hp hsame hpdf =>
      rw [hpdf, hsame.1]
      exact hσ p hp m (hsame.2.2.symm.trans hm)
    | new hnew hmanifest hpdf =>
      rw [hmanifest] at hm
      cases hm
  · obtain rfl := Option.some.inj (hfinal.manifest.symm.trans hm)
    exact ⟨_, hfinal.pdf, rfl⟩

/-- The PDF of a draft's piece is the one the draft started from, as long as the content of
the piece is. -/
structure StartsFrom (db : Db) (d : DraftRow) (p : PieceRow) : Prop where
  le : d.baseRevision ≤ p.contentRevision
  pdf : p.contentRevision = d.baseRevision → d.initialManifest.pages ≠ [] →
    ∃ f, db.pdf? p.id = some f ∧ f.pageCount = d.initialManifest.pages.length

def Started (σ : Sys) : Prop :=
  ∀ d ∈ σ.db.drafts, d.finalized = false → ∀ p ∈ σ.db.pieces, d.pieceId = some p.id →
    StartsFrom σ.db d p

theorem Initial.started (h : Initial σ) : Started σ := by
  intro d hd
  rw [h.drafts] at hd
  exact absurd hd (Table.not_mem_empty d)

theorem StartsFrom.step (h : Sys.Stepped s σ e r σ') (hdb : σ.db.Coherent) {d : DraftRow}
    (hd : d ∈ σ.db.drafts) (hstart : ∀ p ∈ σ.db.pieces, d.pieceId = some p.id →
      StartsFrom σ.db d p) {p' : PieceRow} (hp' : p' ∈ σ'.db.pieces)
    (hid : d.pieceId = some p'.id) : StartsFrom σ'.db d p' := by
  have hnot : ¬ ∀ p ∈ σ.db.pieces, p.id ≠ p'.id := by
    obtain ⟨p, hp, heq, -⟩ := hdb.draft d hd p'.id hid
    exact fun hnew => hnew p hp heq
  obtain hcontent | ⟨f, -, -, plan, -, hfinal⟩ := h.content hdb hp'
  · cases hcontent with
    | same p hp hsame hpdf =>
      obtain ⟨hkey, hrevision, -⟩ := hsame
      obtain ⟨hle, hold⟩ := hstart p hp (hkey ▸ hid)
      refine ⟨hrevision ▸ hle, fun heq hne => ?_⟩
      rw [hpdf, hkey]
      exact hold (hrevision.symm.trans heq) hne
    | new hnew hmanifest hpdf => exact absurd hnew hnot
  · obtain hnew | ⟨p, hp, hkey, -, -, hrevision⟩ := hfinal.before
    · exact absurd hnew hnot
    · obtain ⟨hle, -⟩ := hstart p hp (hkey.symm ▸ hid)
      constructor
      · omega
      · intro heq
        omega

theorem length_freshPages {ids : List Text} {sourceId : Id} {count : Nat}
    (h : count ≤ ids.length) : (freshPages ids sourceId count).length = count := by
  rw [freshPages, List.length_mapIdx, List.length_take, Nat.min_eq_left h]

theorem Starts.startsFrom {owner : Id} {input : CreateImport} {work : Option IMSLPWork}
    {fresh : Fresh} {now : Time} {start : DraftStart} (hσ : Paged σ)
    (hids : fresh.pageIds.length = maxPreparedPages)
    (h : Starts owner input work fresh now σ.db start db') {p : PieceRow} (hp : p ∈ σ.db.pieces)
    (hid : start.pieceId = some p.id) :
    start.baseRevision = p.contentRevision ∧ (start.manifest.pages ≠ [] →
      ∃ f, σ.db.pdf? p.id = some f ∧ f.pageCount = start.manifest.pages.length) := by
  have hlegacy : ∀ {q : PieceRow} {f : PdfRow} {assetId : Id}, f ∈ σ.db.pdfs → f.pieceId = q.id →
      f.pageCount ≤ maxPreparedPages → ∃ g, σ.db.pdf? q.id = some g ∧
        g.pageCount = (freshPages fresh.pageIds assetId f.pageCount).length := by
    intro q f assetId hf hpdf hcount
    refine ⟨f, pdf?_eq_some.mpr ⟨hf, hpdf⟩, (length_freshPages ?_).symm⟩
    rw [hids]
    exact hcount
  cases h with
  | new => cases hid
  | saved q hq howner m hm hlength =>
    obtain rfl := Table.eq_of_key hq hp (Option.some.inj hid)
    exact ⟨rfl, fun _ => hσ q hq m hm⟩
  | empty q hq howner =>
    obtain rfl := Table.eq_of_key hq hp (Option.some.inj hid)
    exact ⟨rfl, fun hne => absurd rfl hne⟩
  | retained q hq howner f hf hpdf hcount a ha hkey =>
    obtain rfl := Table.eq_of_key hq hp (Option.some.inj hid)
    exact ⟨rfl, fun _ => hlegacy hf hpdf hcount⟩
  | legacy q hq howner f hf hpdf hcount db₁ hinsert =>
    obtain rfl := Table.eq_of_key hq hp (Option.some.inj hid)
    exact ⟨rfl, fun _ => hlegacy hf hpdf hcount⟩

theorem Starts.piece_mem {owner id : Id} {input : CreateImport} {work : Option IMSLPWork}
    {fresh : Fresh} {now : Time} {start : DraftStart}
    (h : Starts owner input work fresh now db start db') (hid : start.pieceId = some id) :
    ∃ p ∈ db.pieces, p.id = id := by
  cases h with
  | new => cases hid
  | saved p hp => exact ⟨p, hp, Option.some.inj hid⟩
  | empty p hp => exact ⟨p, hp, Option.some.inj hid⟩
  | retained p hp => exact ⟨p, hp, Option.some.inj hid⟩
  | legacy p hp => exact ⟨p, hp, Option.some.inj hid⟩

theorem Started.step (hσ : Started σ) (hpaged : Paged σ) (hdb : σ.db.Coherent)
    (h : Sys.Stepped s σ e r σ') : Started σ' := by
  intro d' hd' hopen' p' hp' hid
  have hold : ∀ d ∈ σ.db.drafts, d.finalized = false → d.pieceId = some p'.id →
      StartsFrom σ'.db d p' := fun d hd hopen hid =>
    StartsFrom.step h hdb hd (hσ d hd hopen) hp' hid
  cases h.draft_origin hd' with
  | kept hd => exact hold d' hd hopen' hid
  | updated d hd input he hr hopen hrevision hrecent hchecks heq =>
    subst heq
    exact ⟨(hold d hd hopen hid).le, (hold d hd hopen hid).pdf⟩
  | attached d hd f hf fresh hfresh filename revision file he hr hupload hopen hrevision hrecent heq =>
    subst heq
    exact ⟨(hold d hd hopen hid).le, (hold d hd hopen hid).pdf⟩
  | finalized d hd he hunfinished pieceId htarget heq =>
    subst heq
    cases hopen'
  | started owner input work fresh start db he hr hfresh hlink hcount hstart heq =>
    subst he heq
    obtain hcontent | ⟨f, -, ⟨fresh', hcommit⟩, -⟩ := h.content hdb hp'
    · cases hcontent with
      | same p hp hsame hpdf =>
        obtain ⟨hkey, hrevision, -⟩ := hsame
        have hid : start.pieceId = some p.id := hkey ▸ hid
        obtain ⟨hbase, hpages⟩ := hstart.startsFrom hpaged hfresh.2.2.2.1 hp hid
        refine ⟨(hbase.trans hrevision.symm).le, fun _ hne => ?_⟩
        rw [hpdf, hkey]
        exact hpages hne
      | new hnew hmanifest hpdf =>
        obtain ⟨p, hp, hkey⟩ := hstart.piece_mem hid
        exact absurd hkey (hnew p hp)
    · cases hcommit

end Manifests

section Files

variable {f : Flight} {key : Key} {b : Bytes}

inductive FlightOrigin (s : Service) (σ σ' : Sys) (f : Flight) : Prop
  | kept (hf : f ∈ σ.flights)
  | saved (owner : Id) (upload : Upload) (key : Key) (data : Bytes) (hkey : key ∉ σ.keys)
      (hσ' : σ' = σ.save s owner upload key data)
      (hf : f = ⟨owner, upload, ⟨key, data.length, s.sha256 data⟩⟩)
      (hbytes : ∀ id revision sent, upload = .finalize id revision sent → ∃ plan,
        Planned s owner id revision sent σ.clock σ.db plan ∧
          savedBytes σ.store plan sent = .ok data)

theorem FlightOrigin.of_save {owner : Id} {upload : Upload} {data : Bytes} (hkey : key ∉ σ.keys)
    (hbytes : ∀ id revision sent, upload = .finalize id revision sent → ∃ plan,
      Planned s owner id revision sent σ.clock σ.db plan ∧ savedBytes σ.store plan sent = .ok data)
    (hf : f ∈ (σ.save s owner upload key data).flights) :
    FlightOrigin s σ (σ.save s owner upload key data) f := by
  obtain hf | hf := List.mem_cons.mp hf
  · exact .saved owner upload key data hkey rfl hf hbytes
  · exact .kept hf

theorem beginFinalize_flights {owner id : Id} {revision : Int} {sent : Bytes} (hkey : key ∉ σ.keys)
    (h : σ.beginFinalize s owner id revision sent key = (r, σ')) (hf : f ∈ σ'.flights) :
    FlightOrigin s σ σ' f := by
  unfold Sys.beginFinalize at h
  split at h
  · obtain ⟨-, rfl⟩ := Prod.mk.inj h
    exact .kept hf
  · obtain ⟨-, rfl⟩ := Prod.mk.inj h
    exact .kept hf
  · rename_i plan hchecks
    split at h
    · obtain ⟨-, rfl⟩ := Prod.mk.inj h
      exact .kept hf
    · rename_i bytes hbytes
      obtain ⟨-, rfl⟩ := Prod.mk.inj h
      refine .of_save hkey ?_ hf
      rintro i v data heq
      obtain ⟨rfl, rfl, rfl⟩ := Upload.finalize.inj heq
      exact ⟨plan, finalizeChecks_save hchecks, hbytes⟩

theorem Sys.step_flights (h : Sys.step s σ e = some (r, σ')) (hf : f ∈ σ'.flights) :
    FlightOrigin s σ σ' f := by
  cases e with
  | beginFinalize owner id revision sent key =>
    obtain ⟨hkey, heq⟩ := Option.ite_none_left_eq_some.mp h
    exact beginFinalize_flights hkey (Option.some.inj heq) hf
  | beginAttach owner id filename revision data key =>
    cases Sys.step_stepped h with
    | attachRefused => exact .kept hf
    | attachSaved _ _ _ _ _ _ file hkey =>
      refine .of_save hkey ?_ hf
      rintro i v sent heq
      cases heq
  | commit g fresh =>
    cases Sys.step_stepped h with
    | attached => exact .kept (List.mem_of_mem_erase hf)
    | finalized => exact .kept (List.mem_of_mem_erase hf)
    | retried => exact .kept (List.mem_of_mem_erase hf)
    | commitFailed => exact .kept (List.mem_of_mem_erase hf)
  | abort g =>
    cases Sys.step_stepped h with
    | aborted => exact .kept (List.mem_of_mem_erase hf)
  | _ =>
    cases Sys.step_stepped h <;> exact .kept hf

/-- The file of a key that was generated is never another. -/
theorem Sys.Stepped.store_old (h : Sys.Stepped s σ e r σ') (hkey : key ∈ σ.keys)
    (hb : σ'.store key = some b) : σ.store key = some b := by
  have hsave : ∀ {owner upload k data}, k ∉ σ.keys →
      (σ.save s owner upload k data).store key = some b → σ.store key = some b := by
    intro owner upload k data hk hb
    have hne : key ≠ k := fun heq => hk (heq ▸ hkey)
    exact (if_neg hne).symm.trans hb
  cases h with
  | attachSaved owner id filename revision data k file hk => exact hsave hk hb
  | finalizeSaved owner id revision data bytes k hk => exact hsave hk hb
  | deleted k rest hrun =>
    by_cases heq : key = k
    · exact absurd ((if_pos heq).symm.trans hb) (by simp)
    · exact (if_neg heq).symm.trans hb
  | _ => exact hb

theorem Sys.Sound.pdf_issued (h : σ.Sound) {g : PdfRow} (hg : g ∈ σ.db.pdfs) :
    g.storageKey ∈ σ.keys :=
  h.keys.stored_issued _ (h.keys.live_stored _ (mem_refs.mpr (Or.inr ⟨g, hg, rfl⟩)))

theorem Sys.Sound.flight_issued (h : σ.Sound) (hf : f ∈ σ.flights) : f.object.key ∈ σ.keys :=
  h.keys.stored_issued _ (h.keys.held_stored _ ⟨f, hf, rfl⟩)

/-- The checksums of the PDFs, and of the files of the calls in flight, are those of the
files. -/
structure Summed (s : Service) (σ : Sys) : Prop where
  pdfs : ∀ g ∈ σ.db.pdfs, ∀ b, σ.store g.storageKey = some b → g.checksumSHA256 = s.sha256 b
  flights : ∀ f ∈ σ.flights, ∀ b, σ.store f.object.key = some b → f.object.checksum = s.sha256 b

theorem Summed.step (hσ : Summed s σ) (hsound : σ.Sound) (h : Sys.step s σ e = some (r, σ')) :
    Summed s σ' := by
  have hstepped := Sys.step_stepped h
  constructor
  · intro g hg b hb
    obtain ⟨owner, p', hp', hid, -⟩ := (hsound.step h).coherent.pdf g hg
    have hfound : σ'.db.pdf? p'.id = some g := pdf?_eq_some.mpr ⟨hg, hid.symm⟩
    obtain hcontent | ⟨f, hf, -, plan, -, hfinal⟩ := hstepped.content hsound.coherent hp'
    · cases hcontent with
      | same p hp hsame hpdf =>
        obtain ⟨hg, -⟩ := pdf?_eq_some.mp (hpdf.symm.trans hfound)
        exact hσ.pdfs g hg b (hstepped.store_old (hsound.pdf_issued hg) hb)
      | new hnew hmanifest hpdf =>
        rw [hpdf] at hfound
        cases hfound
    · obtain rfl := Option.some.inj (hfound.symm.trans hfinal.pdf)
      exact hσ.flights f hf b (hstepped.store_old (hsound.flight_issued hf) hb)
  · intro f hf b hb
    cases Sys.step_flights h hf with
    | kept hf => exact hσ.flights f hf b (hstepped.store_old (hsound.flight_issued hf) hb)
    | saved owner upload key data hkey hσ' heq hbytes =>
      subst heq hσ'
      obtain rfl : data = b := Option.some.inj ((if_pos rfl).symm.trans hb)
      rfl

/-- The draft is unedited, and the piece is as it was when the draft started. -/
structure Unedited (d : DraftRow) (p : PieceRow) : Prop where
  unfinished : d.finalized = false
  manifest : d.manifest = d.initialManifest
  piece : d.pieceId = some p.id
  revision : p.contentRevision = d.baseRevision

/-- A call in flight carries the bytes of the PDF that an unedited draft leaves alone. -/
structure Carries (σ : Sys) (f : Flight) (id : Id) (revision : Int) : Prop where
  issued : id ∈ σ.ids
  le : ∀ d ∈ σ.db.drafts, d.id = id → revision ≤ d.revision
  bytes : ∀ d ∈ σ.db.drafts, d.id = id → (d.revision : Int) = revision → ∀ p ∈ σ.db.pieces,
    Unedited d p → ∀ g, σ.db.pdf? p.id = some g → g.pageCount = d.manifest.pages.length →
      ∀ a b, σ.store f.object.key = some a → σ.store g.storageKey = some b → a = b

def Carrying (σ : Sys) : Prop :=
  ∀ f ∈ σ.flights, ∀ id revision data, f.upload = .finalize id revision data →
    Carries σ f id revision

theorem Sys.Stepped.draft_at (h : Sys.Stepped s σ e r σ') {id : Id} {revision : Int}
    (hissued : id ∈ σ.ids) (hle : ∀ d ∈ σ.db.drafts, d.id = id → revision ≤ d.revision)
    {d' : DraftRow} (hd' : d' ∈ σ'.db.drafts) (hid : d'.id = id) :
    revision ≤ d'.revision ∧
      ((d'.revision : Int) = revision → d'.finalized = false → d' ∈ σ.db.drafts) := by
  cases h.draft_origin hd' with
  | kept hd => exact ⟨hle d' hd hid, fun _ _ => hd⟩
  | started owner input work fresh start db he hr hfresh hlink hcount hstart heq =>
    subst heq
    rw [← hid] at hissued
    exact absurd hissued hfresh.2.1
  | updated d hd input he hr hopen hrevision hrecent hchecks heq =>
    subst heq
    have hd := hle d hd hid
    simp only [savedDraft]
    exact ⟨by omega, fun heq => by omega⟩
  | attached d hd f hf fresh hfresh filename v file he hr hupload hopen hrevision hrecent heq =>
    subst heq
    have hd := hle d hd hid
    simp only [savedDraft]
    exact ⟨by omega, fun heq => by omega⟩
  | finalized d hd he hunfinished pieceId htarget heq =>
    subst heq
    exact ⟨hle d hd hid, fun _ hopen => by cases hopen⟩

theorem Carries.step {id : Id} {revision : Int} (hc : Carries σ f id revision)
    (hf : f ∈ σ.flights) (hsound : σ.Sound) (hstarted : Started σ)
    (h : Sys.Stepped s σ e r σ') : Carries σ' f id revision := by
  refine ⟨h.ids hc.issued, fun d hd hid => (h.draft_at hc.issued hc.le hd hid).1, ?_⟩
  intro d hd hid hrevision p' hp' hunedited g hg hpages a b ha hb
  have hd := (h.draft_at hc.issued hc.le hd hid).2 hrevision hunedited.unfinished
  have hnot : ¬ ∀ p ∈ σ.db.pieces, p.id ≠ p'.id := by
    obtain ⟨p, hp, heq, -⟩ := hsound.coherent.draft d hd p'.id hunedited.piece
    exact fun hnew => hnew p hp heq
  obtain hcontent | ⟨f', -, -, plan, -, hfinal⟩ := h.content hsound.coherent hp'
  · cases hcontent with
    | same p hp hsame hpdf =>
      obtain ⟨hkey, hcontent, -⟩ := hsame
      have hg : σ.db.pdf? p.id = some g := by rw [← hkey, ← hpdf, hg]
      have hstored := h.store_old (hsound.pdf_issued (pdf?_eq_some.mp hg).1) hb
      refine hc.bytes d hd hid hrevision p hp ?_ g hg hpages a b
        (h.store_old (hsound.flight_issued hf) ha) hstored
      exact ⟨hunedited.unfinished, hunedited.manifest, hkey ▸ hunedited.piece,
        hcontent.symm.trans hunedited.revision⟩
    | new hnew hmanifest hpdf => exact absurd hnew hnot
  · obtain hnew | ⟨p, hp, hkey, -, -, hcontent⟩ := hfinal.before
    · exact absurd hnew hnot
    · -- the content is newer than what the draft started from
      have hle := (hstarted d hd hunedited.unfinished p hp (hkey.symm ▸ hunedited.piece)).le
      have hbase := hunedited.revision
      omega

theorem Carries.save {owner id : Id} {revision : Int} {sent data : Bytes} {plan : FinalizePlan}
    (hsound : σ.Sound) (hissued : Issued σ) (hkey : key ∉ σ.keys)
    (hplan : Planned s owner id revision sent σ.clock σ.db plan)
    (hbytes : savedBytes σ.store plan sent = .ok data) :
    Carries (σ.save s owner (.finalize id revision sent) key data)
      ⟨owner, .finalize id revision sent, ⟨key, data.length, s.sha256 data⟩⟩ id revision := by
  have hrow : ∀ d ∈ σ.db.drafts, d.id = id → d = plan.draft.row := fun d hd hid =>
    Table.eq_of_key hd hplan.draft_mem (hid.trans hplan.draft_id.symm)
  refine ⟨hplan.draft_id ▸ hissued _ hplan.draft_mem, ?_, ?_⟩
  · intro d hd hid
    rw [hrow d hd hid, hplan.revision]
  · intro d hd hid hrevision p hp hunedited g hg hpages a b ha hb
    obtain rfl := hrow d hd hid
    have hg : σ.db.pdf? p.id = some g := hg
    have hold : plan.old = some g := (hplan.base_revision hp hunedited.piece).2.trans hg
    obtain rfl : data = a := Option.some.inj ((if_pos rfl).symm.trans ha)
    have hne : g.storageKey ≠ key :=
      fun heq => hkey (heq ▸ hsound.pdf_issued (pdf?_eq_some.mp hg).1)
    have hb : σ.store g.storageKey = some b := (if_neg hne).symm.trans hb
    rw [savedBytes, hold] at hbytes
    dsimp only at hbytes
    rw [if_pos ⟨hpages, hunedited.manifest⟩, demand_eq_ok] at hbytes
    exact Option.some.inj (hbytes.symm.trans hb)

theorem Carrying.step (hσ : Carrying σ) (hsound : σ.Sound) (hissued : Issued σ)
    (hstarted : Started σ) (h : Sys.step s σ e = some (r, σ')) : Carrying σ' := by
  intro f hf id revision sent hupload
  cases Sys.step_flights h hf with
  | kept hf =>
    exact (hσ f hf id revision sent hupload).step hf hsound hstarted (Sys.step_stepped h)
  | saved owner upload key data hkey hσ' heq hbytes =>
    subst heq hσ' hupload
    obtain ⟨plan, hplan, hsaved⟩ := hbytes id revision sent rfl
    exact Carries.save hsound hissued hkey hplan hsaved

end Files

section Unchanged

structure Careful (s : Service) (σ : Sys) : Prop where
  sound : σ.Sound
  issued : Issued σ
  paged : Paged σ
  started : Started σ
  summed : Summed s σ
  carrying : Carrying σ

theorem Careful.step (hσ : Careful s σ) (h : Sys.step s σ e = some (r, σ')) : Careful s σ' where
  sound := hσ.sound.step h
  issued := hσ.issued.step h
  paged := hσ.paged.step hσ.sound.coherent (Sys.step_stepped h)
  started := hσ.started.step hσ.paged hσ.sound.coherent (Sys.step_stepped h)
  summed := hσ.summed.step hσ.sound h
  carrying := hσ.carrying.step hσ.sound hσ.issued hσ.started h

def Checksummed (s : Service) (σ : Sys) : Prop :=
  ∀ g ∈ σ.db.pdfs, ∀ b, σ.store g.storageKey = some b → g.checksumSHA256 = s.sha256 b

theorem Initial.careful (h : Initial σ) (hsums : Checksummed s σ) : Careful s σ where
  sound := h.sound
  issued := h.issued
  paged := h.paged
  started := h.started
  summed := ⟨hsums, by simp [h.flights]⟩
  carrying := by simp [Carrying, h.flights]

/-- The score of a piece after a step is the score before: the bytes, the checksum and the
page count of its PDF, and its reading place. -/
structure SameScore (before after : Sys) (pieceId : Id) : Prop where
  pdf : ∃ g g', before.db.pdf? pieceId = some g ∧ after.db.pdf? pieceId = some g' ∧
    g'.checksumSHA256 = g.checksumSHA256 ∧ g'.pageCount = g.pageCount ∧
      ∃ b, before.store g.storageKey = some b ∧ after.store g'.storageKey = some b
  reader : after.db.reader? pieceId = before.db.reader? pieceId

theorem Careful.stored_pdf (hσ : Careful s σ) {g : PdfRow} (hg : g ∈ σ.db.pdfs) :
    ∃ b, σ.store g.storageKey = some b :=
  Option.isSome_iff_exists.mp
    (hσ.sound.keys.live_stored g.storageKey (mem_refs.mpr (Or.inr ⟨g, hg, rfl⟩)))

theorem Careful.stored_flight (hσ : Careful s σ) {f : Flight} (hf : f ∈ σ.flights) :
    ∃ b, σ.store f.object.key = some b :=
  Option.isSome_iff_exists.mp (hσ.sound.keys.held_stored f.object.key ⟨f, hf, rfl⟩)

/-- The transaction that finalizes an unedited draft of a piece. -/
theorem Careful.finalized (hσ : Careful s σ) {f : Flight} {fresh : Fresh} {id pieceId : Id}
    {revision : Int} {data : Bytes} {plan : FinalizePlan} {result : FinalizeResult}
    (hf : f ∈ σ.flights) (hupload : f.upload = .finalize id revision data)
    (hplan : Planned s f.owner id revision data σ.clock σ.db plan)
    (hrun : finalizeWrites s f.owner plan f.object fresh.id σ.clock σ.db = .ok (db, result))
    (hmanifest : plan.draft.row.manifest = plan.draft.row.initialManifest)
    (hpiece : plan.draft.row.pieceId = some pieceId) :
    SameScore σ { σ.spend fresh with db := db, flights := σ.flights.erase f } pieceId := by
  obtain ⟨p, hp, rfl, -⟩ := hσ.sound.coherent.draft _ hplan.draft_mem pieceId hpiece
  obtain ⟨hrevision, hold⟩ := hplan.base_revision hp hpiece
  have hopen : plan.draft.row.finalized = false := by simpa [hpiece] using hplan.unfinished
  have hpages : plan.draft.row.manifest.pages ≠ [] := by
    simpa using (validateManifest_eq_ok.mp hplan.manifest).2
  obtain ⟨g, hg, hcount⟩ := (hσ.started _ hplan.draft_mem hopen p hp hpiece).pdf hrevision
    (hmanifest ▸ hpages)
  rw [← hmanifest] at hcount
  have hmem : g ∈ σ.db.pdfs := (pdf?_eq_some.mp hg).1
  -- the uploaded file is the piece's own, and so is its checksum
  obtain ⟨a, ha⟩ := hσ.stored_flight hf
  obtain ⟨b, hb⟩ := hσ.stored_pdf hmem
  have hbytes : a = b := (hσ.carrying f hf id revision data hupload).bytes _ hplan.draft_mem
    hplan.draft_id hplan.revision p hp ⟨hopen, hmanifest, hpiece, hrevision⟩ g hg hcount a b ha hb
  have hchecksum : f.object.checksum = g.checksumSHA256 := by
    rw [hσ.summed.flights f hf a ha, hσ.summed.pdfs g hmem b hb, hbytes]
  have hplace := finalizeWrites_place hrun hpiece hold
  constructor
  · refine ⟨g, finalizedPdf plan p.id f.object σ.clock, hg, congrArg Place.pdf hplace, hchecksum,
      hcount.symm, b, hb, ?_⟩
    rw [← hbytes]
    exact ha
  · have hsame : (σ.db.place p.id).checksum = f.object.checksum := by
      rw [hchecksum, Place.checksum, Db.place, hg]
      rfl
    exact (congrArg Place.reader hplace).trans (if_neg (not_not.mpr hsame))

def StartedWith (draft : Id) (m : EditManifest) (σ : Sys) : Prop :=
  draft ∈ σ.ids ∧ ∀ d ∈ σ.db.drafts, d.id = draft → d.initialManifest = m

theorem StartedWith.step {draft : Id} {m : EditManifest} (hσ : StartedWith draft m σ)
    (h : Sys.step s σ e = some (r, σ')) : StartedWith draft m σ' := by
  refine (Sys.step_stepped h).keeps_draft ?_ hσ
  intro d d' hrewritten hd
  cases hrewritten with
  | kept heq => rwa [heq]
  | saved metadata manifest hopen hbase heq =>
    subst heq
    exact hd
  | finalized pieceId hunfinished htarget heq =>
    subst heq
    exact hd

theorem createImport_startedWith {owner : Id} {input : CreateImport} {work : Option IMSLPWork}
    {fresh : Fresh} (hσ : Issued σ)
    (h : Sys.step s σ (.call (.createImport owner input work) fresh) = some (.done, σ'))
    {d : DraftRow} (hd : d ∈ σ'.db.drafts) (hid : d.id = fresh.id) :
    StartedWith fresh.id d.manifest σ' := by
  have hstepped := Sys.step_stepped h
  refine ⟨hstepped.fresh_ids, ?_⟩
  intro d' hd' hid'
  obtain rfl := Table.eq_of_key hd' hd (hid'.trans hid.symm)
  obtain ⟨start, db, -, rfl⟩ := hstepped.started hσ hd' hid'
  rfl

/-- A draft of a piece whose manifest is the one it was created with is finalized: whatever
bytes are uploaded and whatever metadata is saved, the score stays. A repeated call on a
saved draft changes nothing. -/
theorem finalize_unchanged {σ₁ σ₂ σ₃ σ₄ : Sys} {owner pieceId : Id} {input : CreateImport}
    {work : Option IMSLPWork} {fresh : Fresh} {t₁ t₂ : List (Entry Sys Event Response)}
    {revision : Int} {result : FinalizeResult} (hinitial : Initial σ₀)
    (hsums : Checksummed s σ₀) (hbefore : Run (Sys.step s) σ₀ t₁ σ₁)
    (hcreate : Sys.step s σ₁ (.call (.createImport owner input work) fresh) = some (.done, σ₂))
    {created : DraftRow} (hcreated : created ∈ σ₂.db.drafts) (hcid : created.id = fresh.id)
    (hbetween : Run (Sys.step s) σ₂ t₂ σ₃)
    (hstep : Sys.step s σ₃ e = some (.finalized result, σ₄))
    (he : e.finalizes = some (fresh.id, revision)) {d : DraftRow} (hd : d ∈ σ₃.db.drafts)
    (hid : d.id = fresh.id) (hmanifest : d.manifest = created.manifest)
    (hpiece : d.pieceId = some pieceId) :
    (d.finalized = false → SameScore σ₃ σ₄ pieceId) ∧
      (d.finalized = true → σ₄.db = σ₃.db ∧ σ₄.store = σ₃.store) := by
  have hcareful₁ : Careful s σ₁ :=
    hbefore.invariant (fun hσ h => Careful.step hσ h) (hinitial.careful hsums)
  have hcareful : Careful s σ₃ :=
    hbetween.invariant (fun hσ h => Careful.step hσ h) (hcareful₁.step hcreate)
  have hstarted : StartedWith fresh.id created.manifest σ₃ :=
    hbetween.invariant (fun hσ h => StartedWith.step hσ h)
      (createImport_startedWith hcareful₁.issued hcreate hcreated hcid)
  have hunedited : d.manifest = d.initialManifest := hmanifest.trans (hstarted.2 d hd hid).symm
  have hretried : ∀ {caller data}, finalizeChecks s caller fresh.id revision data σ₃.clock σ₃.db =
      .ok (.done result) → d.finalized = true := by
    intro caller data hchecks
    obtain ⟨d', hd', hid', hfinal, -⟩ := finalizeChecks_retried hchecks
    rwa [Table.eq_of_key hd hd' (hid.trans hid'.symm)]
  generalize hr : Response.finalized result = r at hstep
  cases Sys.step_stepped hstep with
  | finalizeRetried caller id revision' data key result' hchecks =>
    obtain rfl := Response.finalized.inj hr
    obtain ⟨rfl, rfl⟩ : id = fresh.id ∧ revision' = revision := by simpa [Event.finalizes] using he
    refine ⟨fun hopen => ?_, fun _ => ⟨rfl, rfl⟩⟩
    rw [hretried hchecks] at hopen
    cases hopen
  | finalized f fresh' id revision' data plan db result' hf hfresh hupload hplan hrun =>
    obtain ⟨rfl, rfl⟩ : id = fresh.id ∧ revision' = revision := by
      simpa [Event.finalizes, hupload] using he
    obtain rfl := Table.eq_of_key hd hplan.draft_mem (hid.trans hplan.draft_id.symm)
    have hopen : plan.draft.row.finalized = false := by simpa [hpiece] using hplan.unfinished
    refine ⟨fun _ => hcareful.finalized hf hupload hplan hrun hunedited hpiece, fun hfinal => ?_⟩
    rw [hopen] at hfinal
    cases hfinal
  | retried f fresh' id revision' data result' hf hfresh hupload hchecks =>
    obtain rfl := Response.finalized.inj hr
    obtain ⟨rfl, rfl⟩ : id = fresh.id ∧ revision' = revision := by
      simpa [Event.finalizes, hupload] using he
    refine ⟨fun hopen => ?_, fun _ => ⟨rfl, rfl⟩⟩
    rw [hretried hchecks] at hopen
    cases hopen
  | _ => cases hr

end Unchanged

section Examples

def uneditedEvents : List Event :=
  plainEvents ++ [.call (.createImport 1 ⟨.piece 6, []⟩ none) (plainFresh 5),
    .beginFinalize 1 10 0 plainPDF 9, .commit (plainFinalize 10 0 9) (plainFresh 7)]

def savesUnedited (t : List (Entry Sys Event Response)) : Bool :=
  match t with
  | [_, _, _, _, _, x, _, y] =>
    x.event == .call (.createImport 1 ⟨.piece 6, []⟩ none) (plainFresh 5) && x.response == .done &&
      y.event.finalizes == some (10, 0) && finalizedAs 10 y == some 6 &&
      (x.after.db.drafts.rows.any fun c => c.id == 10 &&
        y.before.db.drafts.rows.any fun d => d.id == 10 && !d.finalized && d.pieceId == some 6 &&
          d.manifest == c.manifest)
  | _ => false

theorem finalize_unchanged_draft : ∃ σ σ', SameScore σ σ' 6 ∧ Reachable plainService σ' := by
  obtain ⟨t, σ, hrun, ht⟩ : ∃ t σ, Run (Sys.step plainService) emptyLibrary t σ ∧
      savesUnedited t = true :=
    exists_run uneditedEvents (by decide +kernel)
  unfold savesUnedited at ht
  split at ht
  · rename_i a b c d e x u y
    simp only [List.any_eq_true, Bool.and_eq_true, Bool.not_eq_true', beq_iff_eq,
      Table.mem_rows] at ht
    obtain ⟨⟨⟨⟨hcreate, hdone⟩, hfinalizes⟩, hpiece⟩, g, hg, hgid, f, hf, ⟨⟨hfid, hopen⟩, hfpiece⟩,
      hmanifest⟩ := ht
    obtain ⟨hfirst, hstep, hrest⟩ := Run.at_entry (t := [a, b, c, d, e]) (x := x) (u := [u, y]) hrun
    obtain ⟨hbetween, hlast, hend⟩ := Run.at_entry (t := [u]) (x := y) (u := []) hrest
    obtain ⟨revision, result, he, hr, hid⟩ := finalizedAs_eq_some hpiece
    rw [hcreate, hdone] at hstep
    rw [hr] at hlast
    have hsums : Checksummed plainService emptyLibrary := by
      intro g hg
      exact absurd hg (Table.not_mem_empty g)
    have hscore := finalize_unchanged emptyLibrary_initial hsums hfirst hstep hg hgid hbetween
      hlast hfinalizes hf hfid hmanifest hfpiece
    obtain rfl := hend.eq_of_nil
    exact ⟨y.before, y.after, hscore.1 hopen, emptyLibrary, _, emptyLibrary_initial, hrun⟩
  · cases ht

end Examples

end Noted
