import Noted.Library.Selection
import Noted.Lifecycle

/-!
# Every asset is in use

A transaction that adds an asset links it, and one that takes a link away collects the
assets that have none left. So the collection of orphans never finds an asset that
another transaction left behind.
-/

namespace Noted

open Library Db

variable {s : Service} {σ σ' : Sys} {e : Event} {r : Response} {owner id : Id} {now : Time}
  {fresh : Fresh} {db db' : Db}

def Db.Used (db : Db) : Prop :=
  ∀ a ∈ db.assets, (∃ x ∈ db.draftSources, x.assetId = a.id) ∨ ∃ x ∈ db.pieceSources, x.assetId = a.id

theorem orphan_eq_false {a : AssetRow} : db.orphan a = false ↔
    (∃ x ∈ db.draftSources, x.assetId = a.id) ∨ ∃ x ∈ db.pieceSources, x.assetId = a.id := by
  rw [← Bool.not_eq_true, orphan_iff, not_and_or]
  simp

namespace Db.Used

theorem collectOrphans (db : Db) (now : Time) : (db.collectOrphans now).Used := by
  intro a ha
  rw [collectOrphans_assets, Table.mem_delete, orphan_eq_false] at ha
  rw [collectOrphans_draftSources, collectOrphans_pieceSources]
  exact ha.2

theorem queueOld (h : db.Used) (now : Time) (old : Option PdfRow) : (db.queueOld now old).Used := by
  obtain ⟨queue, heq⟩ := queueOld_eq db now old
  rw [heq]
  exact h

theorem link (h : db.Used) {row : AssetRow} (hassets : ∀ a ∈ db'.assets, a ∈ db.assets ∨ a = row)
    (hdrafts : ∀ x ∈ db.draftSources, x ∈ db'.draftSources)
    (hpieces : ∀ x ∈ db.pieceSources, x ∈ db'.pieceSources)
    (hlink : ∃ x ∈ db'.draftSources, x.assetId = row.id) : db'.Used := by
  intro a ha
  obtain ha | rfl := hassets a ha
  · exact (h a ha).imp (fun ⟨x, hx, hid⟩ => ⟨x, hdrafts x hx, hid⟩)
      fun ⟨x, hx, hid⟩ => ⟨x, hpieces x hx, hid⟩
  · exact Or.inl hlink

end Db.Used

theorem createImport_used {input : CreateImport} {work : Option IMSLPWork} (hdb : db.Used)
    (h : createImport owner input work fresh now db = .ok db') : db'.Used := by
  obtain ⟨-, -, start, db₁, db₂, draftSources, hstart, hinsert, hmem, -, rfl⟩ := createImport_ok h
  obtain ⟨-, drafts, -, rfl⟩ := insertDraft_eq_ok.mp hinsert
  have hgrow : ∀ x ∈ db₁.draftSources, x ∈ draftSources := fun x hx => (hmem x).mpr (Or.inl hx)
  have hkept : db₁ = db → Db.Used { db₁ with drafts := drafts, draftSources := draftSources } := by
    rintro rfl a ha
    exact (hdb a ha).imp_left fun ⟨x, hx, hid⟩ => ⟨x, hgrow x hx, hid⟩
  cases hstart with
  | new _ => exact hkept rfl
  | saved _ => exact hkept rfl
  | empty _ => exact hkept rfl
  | retained _ => exact hkept rfl
  | legacy p hp howner f hf hpdf hcount _ hasset =>
    obtain ⟨-, assets, hassets, rfl⟩ := insertAsset_eq_ok.mp hasset
    refine hdb.link (fun a ha => (Table.mem_insert? hassets).mp ha) hgrow (fun x hx => hx) ?_
    exact ⟨_, (hmem _).mpr (Or.inr ⟨fresh.assetId, List.mem_singleton_self _, rfl⟩), rfl⟩

theorem attachSource_used {filename : Text} {revision : Int} {file : ImportBytes} {object : Object}
    (hdb : db.Used)
    (h : attachSource s owner id filename revision file object fresh now db = .ok db') :
    db'.Used := by
  obtain ⟨d, -, -, -, db₁, db₂, hasset, hsource, rfl⟩ := attachSource_ok h
  obtain ⟨-, assets, hassets, rfl⟩ := insertAsset_eq_ok.mp hasset
  obtain ⟨-, draftSources, hsources, rfl⟩ := insertDraftSource_eq_ok.mp hsource
  refine hdb.link (fun a ha => (Table.mem_insert? hassets).mp ha)
    (fun x hx => (Table.mem_insert? hsources).mpr (Or.inl hx)) (fun x hx => hx) ?_
  exact ⟨_, (Table.mem_insert? hsources).mpr (Or.inr rfl), rfl⟩

theorem finalizeWrites_used {plan : FinalizePlan} {object : Object} {newId : Id}
    {result : FinalizeResult}
    (h : finalizeWrites s owner plan object newId now db = .ok (db', result)) : db'.Used := by
  obtain ⟨pieceId, db₁, -, rfl, -⟩ := finalizeWrites_ok h
  exact (Db.Used.collectOrphans _ now).queueOld now plan.old

theorem Rewrites.used {R : PieceRow → PieceRow → Prop} (h : Rewrites R db db') (hdb : db.Used) :
    db'.Used := by
  obtain ⟨f, pieces, v, rfl, -⟩ := h
  exact hdb

theorem Call.used {c : Call} (hdb : db.Used) (h : c.run s fresh now db = .ok db') : db'.Used := by
  have hediting : Editing s now SamePiece := samePiece_editing
  cases c with
  | createImport owner input work => exact createImport_used hdb h
  | updateImport owner id input =>
    obtain ⟨d, -, -, -, -, rfl⟩ := updateImport_ok.mp h
    exact hdb
  | deleteImport owner id =>
    obtain ⟨d, -, -, -, rfl⟩ := deleteImport_ok h
    exact Db.Used.collectOrphans _ now
  | createPiece owner input =>
    obtain ⟨validated, -, -, hinsert⟩ := createPiece_ok h
    obtain ⟨pieces, -, rfl⟩ := insertPiece_eq_ok.mp hinsert
    exact hdb
  | updatePiece owner id patch => exact (updatePiece_rewrites hediting h).used hdb
  | deletePiece owner id =>
    obtain ⟨-, rfl⟩ := deletePiece_ok h
    exact (Db.Used.collectOrphans _ now).queueOld now _
  | putReaderState owner id state =>
    obtain ⟨-, rfl⟩ := putReader_eq_ok.mp (putReaderState_ok h).2
    exact hdb
  | mergeComposers owner input =>
    obtain ⟨⟨_, preview⟩, hmerge, rfl⟩ := map_eq_ok.mp h
    exact (mergeComposers_rewrites hediting hmerge).used hdb
  | repairComposerKeys =>
    obtain rfl : Noted.repairComposerKeys s db = db' := by simpa [Call.run] using h
    exact (repairComposerKeys_rewrites hediting db).used hdb
  | refoldSearchText force => exact (refoldSearchText_rewrites hediting h).used hdb

theorem Sys.Stepped.used (h : Sys.Stepped s σ e r σ') (hσ : σ.db.Used) : σ'.db.Used := by
  cases h with
  | callDone c fresh db hfresh hrun => exact Call.used hσ hrun
  | attached f fresh id filename revision file db hf hfresh hupload hrun =>
    exact attachSource_used hσ hrun
  | finalized f fresh id revision data plan db result hf hfresh hupload hplan hrun =>
    exact finalizeWrites_used hrun
  | expired => exact Db.Used.collectOrphans _ _
  | _ => exact hσ

theorem Initial.used (h : Initial σ) : σ.db.Used := by
  intro a ha
  rw [h.assets] at ha
  exact absurd ha (Table.not_mem_empty a)

theorem Reachable.used (h : Reachable s σ) : σ.db.Used := by
  obtain ⟨σ₀, t, hinitial, hrun⟩ := h
  have hkeeps : ∀ {σ e r σ'}, σ.db.Used → Sys.step s σ e = some (r, σ') → σ'.db.Used :=
    fun hσ hstep => (Sys.step_stepped hstep).used hσ
  exact hrun.invariant (P := fun σ => σ.db.Used) hkeeps hinitial.used

/-- At every moment of every run the assets are those that a draft or a piece refers to,
each with its file, and a collection of orphans would do nothing. -/
theorem assets_used (h : Reachable s σ) :
    (∀ id, (∃ a ∈ σ.db.assets, a.id = id) ↔
      (∃ x ∈ σ.db.draftSources, x.assetId = id) ∨ ∃ x ∈ σ.db.pieceSources, x.assetId = id) ∧
      (∀ a ∈ σ.db.assets, (σ.store a.storageKey).isSome = true) ∧
      ∀ now, σ.db.collectOrphans now = σ.db := by
  have hsound := h.sound
  have hused := h.used
  refine ⟨fun id => ⟨?_, ?_⟩, ?_, ?_⟩
  · rintro ⟨a, ha, rfl⟩
    exact hused a ha
  · rintro (⟨x, hx, rfl⟩ | ⟨x, hx, rfl⟩)
    · obtain ⟨o, -, a, ha, hid, -⟩ := hsound.coherent.draftSource x hx
      exact ⟨a, ha, hid⟩
    · obtain ⟨o, -, a, ha, hid, -⟩ := hsound.coherent.pieceSource x hx
      exact ⟨a, ha, hid⟩
  · intro a ha
    exact hsound.keys.live_stored _ (mem_refs.mpr (Or.inl ⟨a, ha, rfl⟩))
  · intro now
    have hnone : σ.db.assets.rows.filter (fun a => σ.db.orphan a && !σ.db.pdfHolds a.storageKey) = [] := by
      rw [List.filter_eq_nil_iff]
      intro a ha
      rw [orphan_eq_false.mpr (hused a ha), Bool.false_and]
      exact Bool.false_ne_true
    have hkept : σ.db.assets.delete σ.db.orphan = σ.db.assets :=
      Table.delete_eq_self fun a ha => orphan_eq_false.mpr (hused a ha)
    unfold Db.collectOrphans
    rw [hnone, hkept]
    rfl

theorem assets_used_saved : ∃ σ : Sys, σ.db.assets.rows.length = 1 ∧ σ.db.drafts.rows.length = 1 ∧
    ∀ now, σ.db.collectOrphans now = σ.db := by
  obtain ⟨t, σ, hrun, hσ⟩ : ∃ t σ, Run (Sys.step plainService) emptyLibrary t σ ∧
      (σ.db.assets.rows.length == 1 && σ.db.drafts.rows.length == 1) = true :=
    exists_run (p := fun _ (σ : Sys) => σ.db.assets.rows.length == 1 && σ.db.drafts.rows.length == 1)
      plainEvents (by decide +kernel)
  rw [Bool.and_eq_true, beq_iff_eq, beq_iff_eq] at hσ
  exact ⟨σ, hσ.1, hσ.2, (assets_used ⟨emptyLibrary, t, emptyLibrary_initial, hrun⟩).2.2⟩

end Noted
