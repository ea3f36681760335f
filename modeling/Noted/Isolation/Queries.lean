import Noted.Ownership
import Noted.Requests

/-!
# What an owner reads

A query of an owner finds in the database what it finds in the owner's view of it: every
statement selects rows of the owner, and what it joins to them is the owner's too.
-/

namespace Noted

open Library Db

variable {s : Service} {owner id : Id} {db : Db} {now : Time}

section Rows

theorem piece?_view : (db.view s owner).piece? owner id = (db.piece? owner id).map (PieceRow.filed s) := by
  apply Option.ext
  intro p
  rw [piece?_eq_some, mem_view_pieces, Option.map_eq_some_iff]
  constructor
  · rintro ⟨⟨q, hq, -, rfl⟩, hid, howner⟩
    exact ⟨q, piece?_eq_some.mpr ⟨hq, hid, howner⟩, rfl⟩
  · rintro ⟨q, hq, rfl⟩
    obtain ⟨hq, hid, howner⟩ := piece?_eq_some.mp hq
    exact ⟨⟨q, hq, howner, rfl⟩, hid, howner⟩

theorem pdf?_view (howns : db.OwnsPiece owner id) : (db.view s owner).pdf? id = db.pdf? id := by
  apply Option.ext
  intro f
  rw [pdf?_eq_some, pdf?_eq_some, mem_view_pdfs]
  constructor
  · rintro ⟨⟨hf, -⟩, hid⟩
    exact ⟨hf, hid⟩
  · rintro ⟨hf, rfl⟩
    exact ⟨⟨hf, howns⟩, rfl⟩

theorem reader?_view (howns : db.OwnsPiece owner id) :
    (db.view s owner).reader? id = db.reader? id := by
  apply Option.ext
  intro r
  rw [reader?_eq_some, reader?_eq_some, mem_view_readers]
  constructor
  · rintro ⟨⟨hr, -⟩, hid⟩
    exact ⟨hr, hid⟩
  · rintro ⟨hr, rfl⟩
    exact ⟨⟨hr, howns⟩, rfl⟩

theorem draft?_view : (db.view s owner).draft? owner id = db.draft? owner id := by
  apply Table.find?_filter
  intro d _ hd
  rw [Bool.and_eq_true] at hd
  exact hd.2

theorem openDrafts_view : (db.view s owner).openDrafts owner now = db.openDrafts owner now := by
  change ((db.drafts.rows.filter _).countP _) = _
  rw [List.countP_filter]
  refine List.countP_congr fun d _ => ?_
  simp only [Bool.and_eq_true, beq_iff_eq]
  tauto

theorem draftAssets_view (hdb : db.Coherent) :
    (db.view s owner).draftAssets owner id = db.draftAssets owner id := by
  unfold draftAssets
  congr 1
  change (db.assets.rows.filter _).filter _ = _
  rw [List.filter_filter]
  refine List.filter_congr fun a ha => ?_
  rw [Bool.eq_iff_iff]
  simp only [Bool.and_eq_true, beq_iff_eq, List.contains_iff_mem, Table.mem_rows,
    mem_view_draftSources]
  constructor
  · rintro ⟨⟨-, hsource, -⟩, howner⟩
    exact ⟨howner, hsource⟩
  · rintro ⟨howner, hsource⟩
    refine ⟨⟨howner, hsource, ?_⟩, howner⟩
    obtain ⟨o, hdraft, hasset⟩ := hdb.draftSource _ hsource
    rwa [hasset.unique ⟨a, ha, rfl, howner⟩] at hdraft

theorem draftTx_view (hdb : db.Coherent) :
    (db.view s owner).draftTx s owner id now = db.draftTx s owner id now := by
  have hfind : ((db.view s owner).drafts.find? fun d =>
      d.id == id && d.userId == owner && now < d.updatedAt + sevenDays) =
      db.drafts.find? fun d => d.id == id && d.userId == owner && now < d.updatedAt + sevenDays := by
    apply Table.find?_filter
    intro d _ hd
    rw [Bool.and_eq_true, Bool.and_eq_true] at hd
    exact hd.1.2
  rw [draftTx, draftTx, hfind, draftAssets_view hdb]

theorem filter_view {sel : PieceRow → Bool} (howner : ∀ p, sel p = true → p.userId = owner)
    (hfiled : ∀ p ∈ db.pieces, p.userId = owner → sel (p.filed s) = sel p) :
    (db.view s owner).pieces.rows.filter sel =
      (db.pieces.rows.filter sel).map (PieceRow.filed s) := by
  rw [Db.view, filed_rows, List.filter_map]
  congr 1
  change (db.pieces.rows.filter _).filter _ = _
  rw [List.filter_filter]
  refine List.filter_congr fun p hp => ?_
  by_cases ho : p.userId = owner
  · simp [ho, hfiled p hp ho]
  · cases hsel : sel p with
    | true => exact absurd (howner p hsel) ho
    | false => simp [ho]

theorem mergeSort_filed {le : PieceRow → PieceRow → Bool}
    (hle : ∀ p q, le (p.filed s) (q.filed s) = le p q) (l : List PieceRow) :
    (l.map (PieceRow.filed s)).mergeSort le = (l.mergeSort le).map (PieceRow.filed s) :=
  (List.map_mergeSort fun p _ q _ => (hle p q).symm).symm

theorem ownsPiece_of_filter {sel : PieceRow → Bool} (howner : ∀ p, sel p = true → p.userId = owner)
    {p : PieceRow} (hp : p ∈ db.pieces.rows.filter sel) : db.OwnsPiece owner p.id := by
  obtain ⟨hp, hsel⟩ := List.mem_filter.mp hp
  exact ⟨p, hp, rfl, howner p hsel⟩

end Rows

section Pieces

variable {p : PieceRow}

theorem toPiece_view (howns : db.OwnsPiece owner p.id) :
    (db.view s owner).toPiece (p.filed s) = db.toPiece p := by
  rw [toPiece, toPiece, filed_id, pdf?_view howns, reader?_view howns]
  rfl

theorem ownsPiece_of_find (h : db.piece? owner id = some p) : db.OwnsPiece owner p.id := by
  obtain ⟨hp, -, howner⟩ := piece?_eq_some.mp h
  exact ⟨p, hp, rfl, howner⟩

theorem getPiece_view : getPiece owner id (db.view s owner) = getPiece owner id db := by
  rw [getPiece, getPiece, piece?_view]
  cases hfound : db.piece? owner id with
  | none => rfl
  | some p =>
    rw [Option.map_some, demand_some, demand_some, ok_bind, ok_bind,
      toPiece_view (ownsPiece_of_find hfound)]

theorem pdfSource_view : pdfSource owner id (db.view s owner) = pdfSource owner id db := by
  rw [pdfSource, pdfSource, piece?_view]
  cases hfound : db.piece? owner id with
  | none => rfl
  | some p =>
    rw [Option.map_some, demand_some, demand_some, ok_bind, ok_bind, filed_id,
      pdf?_view (ownsPiece_of_find hfound)]

theorem getReaderState_view :
    getReaderState owner id (db.view s owner) = getReaderState owner id db := by
  rw [getReaderState, getReaderState, piece?_view]
  cases hfound : db.piece? owner id with
  | none => rfl
  | some p =>
    rw [Option.map_some, demand_some, demand_some, ok_bind, ok_bind, filed_id,
      pdf?_view (ownsPiece_of_find hfound), reader?_view (ownsPiece_of_find hfound)]

theorem duplicate?_view {checksum : Text} :
    (db.view s owner).duplicate? owner id checksum = db.duplicate? owner id checksum := by
  have hsame : ∀ p ∈ (db.view s owner).pieces,
      ((db.view s owner).pdfs.rows.any fun f => f.pieceId == p.id && f.checksumSHA256 == checksum) =
        db.pdfs.rows.any fun f => f.pieceId == p.id && f.checksumSHA256 == checksum := by
    intro p hp
    obtain ⟨q, hq, howner, rfl⟩ := mem_view_pieces.mp hp
    rw [Bool.eq_iff_iff, List.any_eq_true, List.any_eq_true]
    refine exists_congr fun f => ?_
    simp only [Table.mem_rows, mem_view_pdfs, Bool.and_eq_true, beq_iff_eq, filed_id]
    constructor
    · rintro ⟨⟨hf, -⟩, hrow⟩
      exact ⟨hf, hrow⟩
    · rintro ⟨hf, hpiece, hsum⟩
      exact ⟨⟨hf, q, hq, hpiece.symm, howner⟩, hpiece, hsum⟩
  unfold duplicate?
  rw [List.filter_congr fun p hp => by rw [hsame p hp],
    filter_view (fun p hp => by simp only [Bool.and_eq_true, beq_iff_eq] at hp; exact hp.1.1)
      fun _ _ _ => rfl,
    mergeSort_filed fun _ _ => rfl, List.head?_map, Option.map_map]
  rfl

theorem finalizedPiece_view :
    finalizedPiece owner id (db.view s owner) = finalizedPiece owner id db := by
  rw [finalizedPiece, finalizedPiece, piece?_view]
  cases hfound : db.piece? owner id with
  | none => rfl
  | some p =>
    simp only [Option.map_some, demand_some, ok_bind, toPiece_view (ownsPiece_of_find hfound),
      duplicate?_view]

end Pieces

section Lists

variable {sel : PieceRow → Bool} {options : ListOptions}

def Joined.filed (s : Service) (j : Joined) : Joined := { j with piece := j.piece.filed s }

theorem join_view {p : PieceRow} (howns : db.OwnsPiece owner p.id) :
    (db.view s owner).join (p.filed s) = (db.join p).filed s := by
  rw [join, join, filed_id, pdf?_view howns, reader?_view howns]
  rfl

theorem sorted_view (howner : ∀ p, sel p = true → p.userId = owner)
    (hfiled : ∀ p ∈ db.pieces, p.userId = owner → sel (p.filed s) = sel p)
    {le : Joined → Joined → Bool} (hle : ∀ a b, le (a.filed s) (b.filed s) = le a b) :
    (((db.view s owner).pieces.rows.filter sel).map (db.view s owner).join).mergeSort le =
      (((db.pieces.rows.filter sel).map db.join).mergeSort le).map (Joined.filed s) := by
  rw [List.map_mergeSort fun a _ b _ => (hle a b).symm, filter_view howner hfiled, List.map_map,
    List.map_map]
  congr 1
  refine List.map_congr_left fun p hp => ?_
  exact join_view (ownsPiece_of_filter howner hp)

theorem listWhere_owner {p : PieceRow} (h : listWhere s owner options p = true) :
    p.userId = owner := by
  simp only [listWhere, Bool.and_eq_true, beq_iff_eq] at h
  exact h.1.1.1

theorem pieceOrders_filed {order : PieceOrder} {a b : Joined} :
    pieceOrders s order (a.filed s) (b.filed s) = pieceOrders s order a b := by
  cases order <;> rfl

theorem listRows_view : listRows s owner options (db.view s owner) =
    List.map (Joined.filed s) <$> listRows s owner options db := by
  unfold listRows
  cases options.sort with
  | none => rfl
  | some order =>
    rw [demand_some, ok_bind, ok_bind, sorted_view (fun p => listWhere_owner) fun _ _ _ => rfl]
    · rfl
    · intro a b
      rw [pieceOrders_filed]

theorem listRows_owned {rows : List Joined} (h : listRows s owner options db = .ok rows) :
    ∀ j ∈ rows, db.OwnsPiece owner j.piece.id := by
  obtain ⟨order, -, h⟩ := bind_eq_ok.mp h
  obtain rfl := Except.ok.inj h
  intro j hj
  obtain ⟨p, hp, rfl⟩ := List.mem_map.mp (List.mem_mergeSort.mp hj)
  exact ownsPiece_of_filter (fun p => listWhere_owner) hp

theorem listPieces_view :
    listPieces s owner options (db.view s owner) = listPieces s owner options db := by
  rw [listPieces, listPieces, listRows_view]
  cases hrows : listRows s owner options db with
  | error e => rfl
  | ok rows =>
    have hpieces : ((rows.map (Joined.filed s)).map fun j => (db.view s owner).toPiece j.piece) =
        rows.map fun j => db.toPiece j.piece := by
      rw [List.map_map]
      refine List.map_congr_left fun j hj => ?_
      exact toPiece_view (listRows_owned hrows j hj)
    change (pure _ : Except Error _) = pure _
    rw [hpieces]

theorem listPieceSummaries_view :
    listPieceSummaries s owner options (db.view s owner) = listPieceSummaries s owner options db := by
  rw [listPieceSummaries, listPieceSummaries, listRows_view]
  cases listRows s owner options db with
  | error e => rfl
  | ok rows =>
    have hrows : (rows.map (Joined.filed s)).map Joined.summary = rows.map Joined.summary := by
      rw [List.map_map]
      rfl
    change (pure _ : Except Error _) = pure _
    rw [hrows]

theorem suggestPieces_view :
    suggestPieces s owner options (db.view s owner) = suggestPieces s owner options db := by
  rw [suggestPieces, suggestPieces]
  cases hquery : Search.suggestionQuery s.unicode owner options with
  | error e => rfl
  | ok query =>
    cases query with
    | none => rfl
    | some q =>
      have hstands := Search.suggestionQuery_stands hquery
      have howner : ∀ p, q.selects (similarText s) p = true → p.userId = owner := fun p hp =>
        ((Search.SuggestionQuery.selects_iff hstands).mp hp).owner
      have hfiled : ∀ p ∈ db.pieces, p.userId = owner →
          q.selects (similarText s) (p.filed s) = q.selects (similarText s) p := by
        intro p _ _
        rw [Bool.eq_iff_iff, Search.SuggestionQuery.selects_iff hstands,
          Search.SuggestionQuery.selects_iff hstands]
        constructor
        · rintro ⟨h₁, h₂, h₃, h₄, h₅, h₆⟩
          exact ⟨h₁, h₂, h₃, h₄, h₅, h₆⟩
        · rintro ⟨h₁, h₂, h₃, h₄, h₅, h₆⟩
          exact ⟨h₁, h₂, h₃, h₄, h₅, h₆⟩
      have hrows : suggestedRows s q (db.view s owner) =
          (suggestedRows s q db).map (Joined.filed s) := by
        rw [suggestedRows, suggestedRows, sorted_view howner hfiled fun a b => rfl, List.map_take]
      simp only [ok_bind, hrows, List.map_map]
      rfl

end Lists

section Composers

variable {input : ComposerMerge} {p : PieceRow}

theorem composerPiece_view (howns : db.OwnsPiece owner p.id) :
    (db.view s owner).composerPiece (p.filed s) = db.composerPiece p := by
  rw [composerPiece, composerPiece, filed_id, pdf?_view howns]
  rfl

theorem addComposer_view (howns : db.OwnsPiece owner p.id) (entries : List ComposerEntry) :
    addComposer s (db.view s owner) entries (p.filed s) = addComposer s db entries p := by
  unfold addComposer
  rw [composerPiece_view howns, filingKey_filed]
  rfl

theorem listComposers_view : listComposers s owner (db.view s owner) = listComposers s owner db := by
  have howner : ∀ p : PieceRow, (p.userId == owner) = true → p.userId = owner := fun p =>
    beq_iff_eq.mp
  unfold listComposers
  rw [filter_view howner fun _ _ _ => rfl, mergeSort_filed fun _ _ => rfl]
  dsimp only
  rw [List.foldl_map]
  congr 1
  refine List.foldl_ext _ _ _ fun entries p hp => ?_
  exact addComposer_view (ownsPiece_of_filter howner (List.mem_mergeSort.mp hp)) entries

theorem composerPreview_view :
    composerPreview s owner input (db.view s owner) = composerPreview s owner input db := by
  have howner : ∀ p : PieceRow, (p.userId == owner && input.spellings.contains p.composer) = true →
      p.userId = owner := by
    intro p hp
    rw [Bool.and_eq_true, beq_iff_eq] at hp
    exact hp.1
  have hpieces : ∀ l : List PieceRow, (∀ p ∈ l, db.OwnsPiece owner p.id) →
      (l.map (PieceRow.filed s)).map (db.view s owner).composerPiece = l.map db.composerPiece := by
    intro l hl
    rw [List.map_map]
    exact List.map_congr_left fun p hp => composerPiece_view (hl p hp)
  unfold composerPreview
  simp only [filter_view howner fun _ _ _ => rfl]
  rw [mergeSort_filed fun _ _ => rfl, hpieces]
  · simp only [List.map_map, List.length_map]
    rfl
  · intro p hp
    exact ownsPiece_of_filter howner (List.mem_mergeSort.mp hp)

end Composers

section Sources

theorem importSource_view {draftId assetId : Id} :
    importSource owner draftId assetId now (db.view s owner) =
      importSource owner draftId assetId now db := by
  have hsame : ∀ a ∈ (db.view s owner).assets.rows,
      (a.id == assetId && a.userId == owner &&
        (db.view s owner).draftSources.rows.contains ⟨draftId, assetId⟩ &&
        (db.view s owner).drafts.rows.any fun d => d.id == draftId && d.userId == owner &&
          !d.finalized && now < d.updatedAt + sevenDays) =
      (a.id == assetId && a.userId == owner && db.draftSources.rows.contains ⟨draftId, assetId⟩ &&
        db.drafts.rows.any fun d => d.id == draftId && d.userId == owner && !d.finalized &&
          now < d.updatedAt + sevenDays) := by
    intro a _
    rw [Bool.eq_iff_iff]
    simp only [Bool.and_eq_true, beq_iff_eq, List.contains_iff_mem, List.any_eq_true,
      Table.mem_rows, mem_view_draftSources, mem_view_drafts]
    constructor
    · rintro ⟨⟨hrow, hsource, -⟩, d, ⟨hd, -⟩, hdraft⟩
      exact ⟨⟨hrow, hsource⟩, d, hd, hdraft⟩
    · rintro ⟨⟨hrow, hsource⟩, d, hd, hdraft⟩
      have hid := hdraft.1.1.1
      have howner := hdraft.1.1.2
      exact ⟨⟨hrow, hsource, d, hd, hid, howner⟩, d, ⟨hd, howner⟩, hdraft⟩
  unfold importSource
  congr 1
  rw [Table.find?, List.find?_congr hsame, ← Table.find?]
  apply Table.find?_filter
  intro a _ ha
  simp only [Bool.and_eq_true] at ha
  exact ha.1.1.2

end Sources

/-- A query of an owner asks for the owner's rows, and for the files that they refer to. -/
theorem Query.run_view (hdb : db.Coherent) {store store' : Key → Option Bytes}
    (hstore : ∀ k ∈ (db.view s owner).refs, store k = store' k) (q : Query) :
    q.run s owner now store db = q.run s owner now store' (db.view s owner) := by
  cases q with
  | getPiece id => rw [Query.run, Query.run, getPiece_view]
  | listPieces options => rw [Query.run, Query.run, listPieces_view]
  | listPieceSummaries options => rw [Query.run, Query.run, listPieceSummaries_view]
  | getReaderState id => rw [Query.run, Query.run, getReaderState_view]
  | pdfSource id =>
    rw [Query.run, Query.run, ← pdfSource_view (s := s)]
    cases hfound : Noted.pdfSource owner id (db.view s owner) with
    | error e => rfl
    | ok f =>
      have hkey : f.storageKey ∈ (db.view s owner).refs := by
        simp only [Noted.pdfSource, bind_eq_ok, demand_eq_ok, pdf?_eq_some] at hfound
        obtain ⟨p, -, hf, -⟩ := hfound
        exact mem_refs.mpr (Or.inr ⟨f, hf, rfl⟩)
      rw [ok_bind, ok_bind, hstore _ hkey]
  | getImport id =>
    rw [Query.run, Query.run, Noted.getImport, Noted.getImport, draftTx_view hdb]
  | importSource draftId assetId =>
    rw [Query.run, Query.run, ← importSource_view (s := s)]
    cases hfound : Noted.importSource owner draftId assetId now (db.view s owner) with
    | error e => rfl
    | ok a =>
      have hkey : a.storageKey ∈ (db.view s owner).refs :=
        mem_refs.mpr (Or.inl ⟨a, Table.mem_of_find? (demand_eq_ok.mp hfound), rfl⟩)
      rw [ok_bind, ok_bind, hstore _ hkey]
  | listComposers => rw [Query.run, Query.run, listComposers_view]
  | previewComposerMerge input =>
    rw [Query.run, Query.run, Noted.previewComposerMerge, Noted.previewComposerMerge]
    simp only [composerPreview_view]
  | suggestPieces options => rw [Query.run, Query.run, suggestPieces_view]

end Noted
