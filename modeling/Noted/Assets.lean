import Noted.Coherence
import Noted.Library.Collector

/-!
# The life of an asset

The service collects its files as `Library.Collector` does: the keys that a row of
`piece_pdfs` or `import_assets` refers to are live, those of calls in flight are
held, and cleanup runs are the collectors. Each transaction moves keys as a commit
of the collector may.
-/

namespace Noted

open Library Db

variable {s : Service} {owner id : Id} {now : Time} {fresh : Fresh} {db db' : Db}

namespace Db

def refs (db : Db) : Set Key := {k | db.referenced k = true}

def pending (db : Db) : Set Key := {k | ∃ q ∈ db.queue, q.storageKey = k}

theorem mem_refs {k : Key} : k ∈ db.refs ↔
    (∃ a ∈ db.assets, a.storageKey = k) ∨ ∃ f ∈ db.pdfs, f.storageKey = k := by
  change db.referenced k = true ↔ _
  rw [referenced, Bool.or_eq_true, assetHolds_iff, pdfHolds_iff]

theorem mem_pending {k : Key} : k ∈ db.pending ↔ ∃ q ∈ db.queue, q.storageKey = k := Iff.rfl

end Db

section Keys

/-- What a transaction does to the keys: references appear only for the new ones,
and a reference that goes away leaves its key in the queue, but for the lost ones. -/
structure KeyStep (new lost : Set Key) (db db' : Db) : Prop where
  gain : ∀ k ∈ db'.refs, k ∈ db.refs ∨ k ∈ new
  queue : ∀ k ∈ db'.pending, k ∈ db.pending ∨ k ∈ db.refs ∨ k ∈ new
  stay : ∀ k ∈ db.pending, k ∈ db'.pending
  kept : ∀ k ∈ db.refs, k ∈ db'.refs ∨ k ∈ db'.pending ∨ k ∈ lost

variable {new lost lost' : Set Key}

theorem KeyStep.same (hassets : db'.assets = db.assets) (hpdfs : db'.pdfs = db.pdfs)
    (hqueue : db'.queue = db.queue) : KeyStep ∅ ∅ db db' := by
  have hrefs : ∀ k, k ∈ db'.refs ↔ k ∈ db.refs := by
    intro k
    rw [mem_refs, mem_refs, hassets, hpdfs]
  have hpending : ∀ k, k ∈ db'.pending ↔ k ∈ db.pending := by
    intro k
    rw [mem_pending, mem_pending, hqueue]
  constructor <;> simp only [hrefs, hpending] <;> tauto

theorem KeyStep.trans {mid : Db} (h : KeyStep new lost db mid) (h' : KeyStep ∅ lost' mid db') :
    KeyStep new (lost ∪ lost') db db' := by
  constructor
  · intro k hk
    obtain hk | hk := h'.gain k hk
    · exact h.gain k hk
    · cases hk
  · intro k hk
    obtain hk | hk | hk := h'.queue k hk
    · exact h.queue k hk
    · exact Or.inr (h.gain k hk)
    · cases hk
  · intro k hk
    exact h'.stay k (h.stay k hk)
  · intro k hk
    obtain hk | hk | hk := h.kept k hk
    · obtain hk | hk | hk := h'.kept k hk
      · exact Or.inl hk
      · exact Or.inr (Or.inl hk)
      · exact Or.inr (Or.inr (Or.inr hk))
    · exact Or.inr (Or.inl (h'.stay k hk))
    · exact Or.inr (Or.inr (Or.inl hk))

theorem insertAsset_keys {row : AssetRow} (h : db.insertAsset row = .ok db') :
    KeyStep {row.storageKey} ∅ db db' ∧ row.storageKey ∈ db'.refs := by
  obtain ⟨-, assets, hassets, rfl⟩ := insertAsset_eq_ok.mp h
  have hmem : ∀ a, a ∈ assets ↔ a ∈ db.assets ∨ a = row := fun a => Table.mem_insert? hassets
  refine ⟨⟨?_, fun k hk => Or.inl hk, fun k hk => hk, ?_⟩, ?_⟩
  · intro k hk
    obtain ⟨a, ha, rfl⟩ | hpdf := mem_refs.mp hk
    · obtain ha | rfl := (hmem a).mp ha
      · exact Or.inl (mem_refs.mpr (Or.inl ⟨a, ha, rfl⟩))
      · exact Or.inr rfl
    · exact Or.inl (mem_refs.mpr (Or.inr hpdf))
  · intro k hk
    refine Or.inl (mem_refs.mpr ?_)
    obtain ⟨a, ha, rfl⟩ | hpdf := mem_refs.mp hk
    · exact Or.inl ⟨a, (hmem a).mpr (Or.inl ha), rfl⟩
    · exact Or.inr hpdf
  · exact mem_refs.mpr (Or.inl ⟨row, (hmem row).mpr (Or.inr rfl), rfl⟩)

theorem collectOrphans_keys (db : Db) : KeyStep ∅ ∅ db (db.collectOrphans now) := by
  obtain ⟨queue, heq, hqueue⟩ := collectOrphans_eq db now
  rw [heq]
  refine ⟨?_, ?_, fun k hk => (hqueue k).mpr (Or.inl hk), ?_⟩
  · intro k hk
    obtain ⟨a, ha, rfl⟩ | hpdf := mem_refs.mp hk
    · exact Or.inl (mem_refs.mpr (Or.inl ⟨a, (Table.mem_delete.mp ha).1, rfl⟩))
    · exact Or.inl (mem_refs.mpr (Or.inr hpdf))
  · intro k hk
    obtain hk | ⟨a, ha, -, -, rfl⟩ := (hqueue k).mp hk
    · exact Or.inl hk
    · exact Or.inr (Or.inl (mem_refs.mpr (Or.inl ⟨a, ha, rfl⟩)))
  · intro k hk
    obtain ⟨a, ha, rfl⟩ | hpdf := mem_refs.mp hk
    · cases horphan : db.orphan a with
      | false =>
        exact Or.inl (mem_refs.mpr (Or.inl ⟨a, Table.mem_delete.mpr ⟨ha, horphan⟩, rfl⟩))
      | true =>
        cases hpdf : db.pdfHolds a.storageKey with
        | false => exact Or.inr (Or.inl ((hqueue _).mpr (Or.inr ⟨a, ha, horphan, hpdf, rfl⟩)))
        | true => exact Or.inl (mem_refs.mpr (Or.inr (pdfHolds_iff.mp hpdf)))
    · exact Or.inl (mem_refs.mpr (Or.inr hpdf))

theorem KeyStep.queueKey {key : Key} (h : KeyStep new {key} db db') (hkey : key ∈ db.refs) :
    KeyStep new ∅ db (db'.queueKey now key) := by
  obtain ⟨queue, heq, hqueue⟩ := queueKey_eq db' now key
  rw [heq]
  refine ⟨h.gain, ?_, fun k hk => (hqueue k).mpr (Or.inl (h.stay k hk)), ?_⟩
  · intro k hk
    obtain hk | ⟨rfl, -⟩ := (hqueue k).mp hk
    · exact h.queue k hk
    · exact Or.inr (Or.inl hkey)
  · intro k hk
    obtain hk | hk | rfl := h.kept k hk
    · exact Or.inl hk
    · exact Or.inr (Or.inl ((hqueue k).mpr (Or.inl hk)))
    · cases href : db'.referenced k with
      | true => exact Or.inl href
      | false => exact Or.inr (Or.inl ((hqueue k).mpr (Or.inr ⟨rfl, href⟩)))

def oldKeys (old : Option PdfRow) : Set Key := {k | ∃ f ∈ old, f.storageKey = k}

theorem KeyStep.queueOld {old : Option PdfRow} (h : KeyStep new (oldKeys old) db db')
    (hold : ∀ f ∈ old, f ∈ db.pdfs) : KeyStep new ∅ db (db'.queueOld now old) := by
  cases old with
  | none =>
    refine ⟨h.gain, h.queue, h.stay, ?_⟩
    intro k hk
    obtain hk | hk | ⟨f, hf, -⟩ := h.kept k hk
    · exact Or.inl hk
    · exact Or.inr (Or.inl hk)
    · cases hf
  | some f =>
    have hlost : KeyStep new {f.storageKey} db db' := by
      refine ⟨h.gain, h.queue, h.stay, ?_⟩
      intro k hk
      refine (h.kept k hk).imp_right (Or.imp_right ?_)
      intro hk
      obtain ⟨g, hg, rfl⟩ := hk
      rw [Option.some.inj hg]
      rfl
    exact hlost.queueKey (mem_refs.mpr (Or.inr ⟨f, hold f rfl, rfl⟩))

end Keys

section Calls

theorem createImport_keys {input : CreateImport} {work : Option IMSLPWork}
    (h : createImport owner input work fresh now db = .ok db') : KeyStep ∅ ∅ db db' := by
  obtain ⟨-, -, start, db₁, db₂, draftSources, hstart, hinsert, -, -, rfl⟩ := createImport_ok h
  obtain ⟨-, drafts, -, rfl⟩ := insertDraft_eq_ok.mp hinsert
  cases hstart with
  | new _ => exact KeyStep.same rfl rfl rfl
  | saved _ => exact KeyStep.same rfl rfl rfl
  | empty _ => exact KeyStep.same rfl rfl rfl
  | retained _ => exact KeyStep.same rfl rfl rfl
  | legacy p hp howner f hf hpdf hcount _ hasset =>
    -- the retained key is live already: its PDF refers to it
    have hlive : f.storageKey ∈ db.refs := mem_refs.mpr (Or.inr ⟨f, hf, rfl⟩)
    have hkeys := (insertAsset_keys hasset).1
    refine ⟨?_, ?_, hkeys.stay, hkeys.kept⟩
    · intro k hk
      obtain hk | rfl := hkeys.gain k hk
      · exact Or.inl hk
      · exact Or.inl hlive
    · intro k hk
      obtain hk | hk | rfl := hkeys.queue k hk
      · exact Or.inl hk
      · exact Or.inr (Or.inl hk)
      · exact Or.inr (Or.inl hlive)

theorem deleteImport_keys (h : deleteImport owner id now db = .ok db') : KeyStep ∅ ∅ db db' := by
  obtain ⟨d, -, -, -, rfl⟩ := deleteImport_ok h
  have hdelete : KeyStep ∅ ∅ db (db.deleteDrafts fun d => d.id == id && d.userId == owner) :=
    KeyStep.same rfl rfl rfl
  simpa using hdelete.trans (collectOrphans_keys _)

theorem expireDrafts_keys (now : Time) (db : Db) : KeyStep ∅ ∅ db (expireDrafts now db) := by
  have hdelete : KeyStep ∅ ∅ db (db.deleteDrafts fun d => d.updatedAt + sevenDays < now) :=
    KeyStep.same rfl rfl rfl
  simpa [expireDrafts] using hdelete.trans (collectOrphans_keys _)

theorem Rewrites.keys {R : PieceRow → PieceRow → Prop} (h : Rewrites R db db') :
    KeyStep ∅ ∅ db db' := by
  obtain ⟨f, pieces, v, rfl, -⟩ := h
  exact KeyStep.same rfl rfl rfl

theorem deletePiece_keys (h : deletePiece owner id now db = .ok db') : KeyStep ∅ ∅ db db' := by
  obtain ⟨-, rfl⟩ := deletePiece_ok h
  apply KeyStep.queueOld
  · have hdelete : KeyStep ∅ (oldKeys (db.pdf? id)) db
        (db.deletePieces fun p => p.id == id && p.userId == owner) := by
      refine ⟨?_, fun k hk => Or.inl hk, fun k hk => hk, ?_⟩
      · intro k hk
        obtain hasset | ⟨f, hf, rfl⟩ := mem_refs.mp hk
        · exact Or.inl (mem_refs.mpr (Or.inl hasset))
        · exact Or.inl (mem_refs.mpr (Or.inr ⟨f, (Table.mem_delete.mp hf).1, rfl⟩))
      · intro k hk
        obtain hasset | ⟨f, hf, rfl⟩ := mem_refs.mp hk
        · exact Or.inl (mem_refs.mpr (Or.inl hasset))
        · cases hremoved : db.pieces.rows.any fun p =>
              (p.id == id && p.userId == owner) && p.id == f.pieceId with
          | false =>
            exact Or.inl (mem_refs.mpr (Or.inr ⟨f, Table.mem_delete.mpr ⟨hf, hremoved⟩, rfl⟩))
          | true =>
            obtain ⟨p, -, hp⟩ := List.any_eq_true.mp hremoved
            simp only [Bool.and_eq_true, beq_iff_eq] at hp
            have hpdf : db.pdf? id = some f := pdf?_eq_some.mpr ⟨hf, by rw [← hp.2, hp.1.1]⟩
            exact Or.inr (Or.inr ⟨f, hpdf, rfl⟩)
    simpa using hdelete.trans (collectOrphans_keys _)
  · intro f hf
    exact (pdf?_eq_some.mp hf).1

theorem putReaderState_keys {state : ReaderState}
    (h : putReaderState owner id state now db = .ok db') : KeyStep ∅ ∅ db db' := by
  obtain ⟨-, rfl⟩ := putReader_eq_ok.mp (putReaderState_ok h).2
  exact KeyStep.same rfl rfl rfl

theorem createPiece_keys {input : PieceInput} (h : createPiece s owner input id now db = .ok db') :
    KeyStep ∅ ∅ db db' := by
  obtain ⟨validated, -, -, hinsert⟩ := createPiece_ok h
  obtain ⟨pieces, -, rfl⟩ := insertPiece_eq_ok.mp hinsert
  exact KeyStep.same rfl rfl rfl

theorem Call.keys {c : Call} (h : c.run s fresh now db = .ok db') : KeyStep ∅ ∅ db db' := by
  have hediting : Editing s now SamePiece := samePiece_editing
  cases c with
  | createImport owner input work => exact createImport_keys h
  | updateImport owner id input =>
    obtain ⟨d, -, -, -, -, rfl⟩ := updateImport_ok.mp h
    exact KeyStep.same rfl rfl rfl
  | deleteImport owner id => exact deleteImport_keys h
  | createPiece owner input => exact createPiece_keys h
  | updatePiece owner id patch => exact (updatePiece_rewrites hediting h).keys
  | deletePiece owner id => exact deletePiece_keys h
  | putReaderState owner id state => exact putReaderState_keys h
  | mergeComposers owner input =>
    obtain ⟨⟨_, preview⟩, hmerge, rfl⟩ := map_eq_ok.mp h
    exact (mergeComposers_rewrites hediting hmerge).keys
  | repairComposerKeys =>
    obtain rfl : Noted.repairComposerKeys s db = db' := by simpa [Call.run] using h
    exact (repairComposerKeys_rewrites hediting db).keys
  | refoldSearchText force =>
    exact (refoldSearchText_rewrites hediting h).keys

theorem attachSource_keys {filename : Text} {revision : Int} {file : ImportBytes} {object : Object}
    (h : attachSource s owner id filename revision file object fresh now db = .ok db') :
    KeyStep {object.key} ∅ db db' ∧ object.key ∈ db'.refs := by
  obtain ⟨d, -, -, -, db₁, db₂, hasset, hsource, rfl⟩ := attachSource_ok h
  obtain ⟨-, draftSources, -, rfl⟩ := insertDraftSource_eq_ok.mp hsource
  obtain ⟨hkeys, hlanded⟩ := insertAsset_keys hasset
  exact ⟨⟨hkeys.gain, hkeys.queue, hkeys.stay, hkeys.kept⟩, hlanded⟩

end Calls

section Finalize

variable {plan : FinalizePlan} {object : Object} {pieceId newId : Id} {result : FinalizeResult}
  {revision : Int} {data : Bytes}

theorem finalizeTarget_old {db₁ : Db} (hdb : db.Coherent)
    (hplan : Planned s owner id revision data now db plan)
    (h : finalizeTarget owner plan newId now db = .ok (pieceId, db₁)) :
    ∀ f, f ∈ plan.old ↔ f ∈ db.pdfs ∧ f.pieceId = pieceId := by
  intro f
  obtain ⟨m, -, hm⟩ := hplan.metadata
  obtain ⟨hid, -⟩ | ⟨hid, rfl, hinsert⟩ := finalizeTarget_ok h
  · cases finalizePlan_targets hm with
    | piece current hp howner hid' hmerge hold =>
      obtain rfl : pieceId = current.id := Option.some.inj (hid.symm.trans hid')
      rw [hold, Option.mem_def, pdf?_eq_some]
    | new hid' =>
      rw [hid] at hid'
      cases hid'
  · cases finalizePlan_targets hm with
    | piece current hp howner hid' =>
      rw [hid] at hid'
      cases hid'
    | new _ _ hold =>
      refine iff_of_false (by simp [hold]) ?_
      rintro ⟨hf, hpiece⟩
      obtain ⟨o, p, hp, hpid, -⟩ := hdb.pdf f hf
      obtain ⟨pieces, hpieces, -⟩ := insertPiece_eq_ok.mp hinsert
      exact (Table.insert?_eq_some.mp hpieces).1 p hp (hpid.trans hpiece)

theorem finalizeWrites_keys (hdb : db.Coherent)
    (hplan : Planned s owner id revision data now db plan)
    (h : finalizeWrites s owner plan object newId now db = .ok (db', result)) :
    KeyStep {object.key} ∅ db db' ∧ object.key ∈ db'.refs := by
  obtain ⟨pieceId, db₂, hsave, rfl, -⟩ := finalizeWrites_ok h
  obtain ⟨db₁, pieceSources, htarget, -, -, -, rfl⟩ := savePiece_ok hsave
  have hold := finalizeTarget_old hdb hplan htarget
  obtain ⟨pieces, rfl⟩ := finalizeTarget_tables htarget
  have hpdf : finalizedPdf plan pieceId object now ∈
      (pieceSaved s plan object pieceId now pieceSources (db.setPieces pieces)).pdfs :=
    Table.mem_put.mpr (Or.inl rfl)
  have hsaved : KeyStep {object.key} (oldKeys plan.old) db
      (((pieceSaved s plan object pieceId now pieceSources (db.setPieces pieces)).updateDraft
        plan.draft.row.id (finalizedDraft pieceId now)).deleteDraftSources plan.draft.row.id) := by
    refine ⟨?_, fun k hk => Or.inl hk, fun k hk => hk, ?_⟩
    · intro k hk
      obtain hasset | ⟨f, hf, rfl⟩ := mem_refs.mp hk
      · exact Or.inl (mem_refs.mpr (Or.inl hasset))
      · obtain rfl | ⟨hf, -⟩ := Table.mem_put.mp hf
        · exact Or.inr rfl
        · exact Or.inl (mem_refs.mpr (Or.inr ⟨f, hf, rfl⟩))
    · intro k hk
      obtain hasset | ⟨f, hf, rfl⟩ := mem_refs.mp hk
      · exact Or.inl (mem_refs.mpr (Or.inl hasset))
      · by_cases hpiece : f.pieceId = pieceId
        · exact Or.inr (Or.inr ⟨f, (hold f).mpr ⟨hf, hpiece⟩, rfl⟩)
        · exact Or.inl (mem_refs.mpr (Or.inr ⟨f, Table.mem_put.mpr (Or.inr ⟨hf, hpiece⟩), rfl⟩))
  constructor
  · apply KeyStep.queueOld
    · simpa using hsaved.trans (collectOrphans_keys _)
    · intro f hf
      exact ((hold f).mp hf).1
  · -- neither the collection nor the queue touches a saved PDF
    refine mem_refs.mpr (Or.inr ⟨finalizedPdf plan pieceId object now, ?_, rfl⟩)
    unfold closeDraft queueOld
    obtain ⟨queue, heq, -⟩ := collectOrphans_eq
      (((pieceSaved s plan object pieceId now pieceSources (db.setPieces pieces)).updateDraft
        plan.draft.row.id (finalizedDraft pieceId now)).deleteDraftSources plan.draft.row.id) now
    dsimp only
    rw [heq]
    cases plan.old with
    | none => exact hpdf
    | some f =>
      dsimp only
      unfold Db.queueKey
      split
      · exact hpdf
      · exact hpdf

end Finalize

end Noted
