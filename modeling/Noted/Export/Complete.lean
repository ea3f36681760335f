import Noted.Export.Score

/-!
# An export is complete or invalid

What holds of the archive is followed from call to call. A stage says what has been
written and which pieces have been visited; from a stage every call either leads to
the next one or fails, and then the archive has no central directory, unless it was the
write of the directory that failed. Where the data can be exported, only a call that
fails ends an export without success.
-/

namespace Noted.Export

open Library

/-- What has been written has the property, there is no central directory yet, no call has
failed, and the visits are the first of those to come. -/
structure Stage (full : List Visit) (A : Archive → Prop) (v : List Visit) (w : World) : Prop where
  written : A w.archive
  undirected : w.archive.directory = false
  clean : ∀ c ∈ w.log, c.failed = none
  visited : w.visits = v
  due : v <+: full

/-- A failure leaves an archive without a central directory, but at the `last`. Where `D` is
the case a call has failed. -/
structure Broken (full : List Visit) (last : World → Prop) (D : Prop) (e : ExportError) (w : World) :
    Prop where
  ended : e ≠ .diverged
  directed : w.archive.directory = true → last w
  due : w.visits <+: full
  blamed : D → ∃ c ∈ w.log, c.failed ≠ none

section Calls

variable {full v : List Visit} {last : World → Prop} {D : Prop} {A B : Archive → Prop} {p : Packages}
  {o : Outside} {s : Snapshot}

theorem Stage.not_directed {w : World} (h : Stage full A v w) :
    ¬w.archive.directory = true :=
  Bool.eq_false_iff.mp h.undirected

theorem Stage.broken {w : World} {e : ExportError} (h : Stage full A v w) (he : e ≠ .diverged)
    (hD : ¬D) : Broken full last D e w :=
  ⟨he, fun hdirectory => absurd hdirectory h.not_directed, h.visited ▸ h.due,
    fun hd => absurd hd hD⟩

theorem Stage.mono {w : World} (h : Stage full A v w) (hAB : ∀ a, A a → B a) : Stage full B v w :=
  ⟨hAB _ h.written, h.undirected, h.clean, h.visited, h.due⟩

end Calls

/-- Data that can be exported: ids that can be parsed, states that can be marshalled, and
scores whose readers deliver what is recorded, where they can be opened. -/
structure Exportable (p : Packages) (o : Outside) (s : Snapshot) : Prop where
  ids : ∀ r ∈ s.rows, ∃ id, p.parse r.piece.id = .ok id
  states : ∀ r ∈ s.rows, ∀ state, r.piece.readerState = some state →
    ∃ text, p.marshal state = .ok text
  scores : ∀ r ∈ s.rows, ∀ pdf, r.piece.pdf = some pdf →
    0 < pdf.sizeBytes ∧ isChecksum pdf.checksumSHA256 = true ∧
      ∀ n reader, o.openObject n r.key = .ok reader → ∃ bytes, Recorded p pdf reader bytes

def Walked (p : Packages) (s : Snapshot) (r : ExportRecord) : Prop :=
  ∃ q ∈ s.rows, ∃ ordinal, located p q ordinal = .ok r

/-- The records that the walk visits, behind `ordinal` others. -/
def Located (p : Packages) (ordinal : Nat) (rows L : List ExportRecord) : Prop :=
  List.Forall₂ (fun q r => located p q.1 q.2 = .ok r) (rows.zipIdx (ordinal + 1)) L

def passVisits (pass : Pass) (ordinal : Nat) (rows : List ExportRecord) : List Visit :=
  (rows.zipIdx (ordinal + 1)).map fun q => ⟨pass, q.2, q.1.piece.id⟩

section Walk

variable {β : Type} {full v : List Visit} {p : Packages} {o : Outside} {s : Snapshot} {pass : Pass}
  {visit : β → ExportRecord → Exporting β} {A : List ExportRecord → β → Archive → Prop}
  {done : List ExportRecord} {ordinal : Nat} {b : β} {last : World → Prop} {D : Prop}

theorem Located.nil : Located p ordinal [] [] := List.Forall₂.nil

theorem Located.cons {r r' : ExportRecord} {rows L : List ExportRecord}
    (hr : located p r (ordinal + 1) = .ok r') (h : Located p (ordinal + 1) rows L) :
    Located p ordinal (r :: rows) (r' :: L) := List.Forall₂.cons hr h

theorem Located.append {rows rows' L L' : List ExportRecord} (h : Located p ordinal rows L)
    (h' : Located p (ordinal + rows.length) rows' L') :
    Located p ordinal (rows ++ rows') (L ++ L') := by
  unfold Located at *
  rw [List.zipIdx_append, show ordinal + 1 + rows.length = ordinal + rows.length + 1 by omega]
  exact List.rel_append h h'

theorem Located.unique {rows L L' : List ExportRecord} (h : Located p ordinal rows L)
    (h' : Located p ordinal rows L') : L = L' := by
  induction rows generalizing ordinal L L' with
  | nil =>
    cases h
    cases h'
    rfl
  | cons r rows ih =>
    cases h with
    | cons hr h =>
      cases h' with
      | cons hr' h' =>
        rw [hr] at hr'
        rw [Except.ok.inj hr', ih h h']

theorem located_id {r r' : ExportRecord} (h : located p r ordinal = .ok r') :
    r'.piece.id = r.piece.id := by
  unfold located at h
  cases hpdf : r.piece.pdf with
  | none =>
    rw [hpdf] at h
    obtain rfl := Except.ok.inj h
    rfl
  | some pdf =>
    rw [hpdf] at h
    obtain ⟨path, -, hr⟩ := bind_eq_ok.mp h
    obtain rfl := Except.ok.inj hr
    rfl

end Walk

def Rows (p : Packages) (done : List ExportRecord) (fields : List (List Text)) : Prop :=
  List.Forall₂ (fun r row => csvFields p r = .ok row) done fields

/-- An entry is the score of a piece: at its path, and with as many bytes and the
checksum that the piece records. -/
def Stored (p : Packages) (r : ExportRecord) (entry : ZipEntry) : Prop :=
  ∃ (pdf : ExportPDF) (chunks : List Bytes), r.piece.pdf = some pdf ∧
    entry = ⟨pdf.path, chunks.map .bytes⟩ ∧
    (chunks.flatten.length : Int) = pdf.sizeBytes ∧
    p.sha256 chunks.flatten = pdf.checksumSHA256

def withPDF (L : List ExportRecord) : List ExportRecord := L.filter fun r => r.piece.pdf.isSome

section Files

variable {full v : List Visit} {p : Packages} {o : Outside} {now : Time} {done : List ExportRecord}
  {ended : List ZipEntry} {path : Text} {chunks : List Bytes} {key : Key} {reader : Reader} {size emptyReads : Nat}
  {A : Archive → Prop} {last : World → Prop} {D : Prop} {s : Snapshot}

theorem Walked.score {r : ExportRecord} {pdf : ExportPDF} (hr : Walked p s r)
    (hpdf : r.piece.pdf = some pdf) (hD : Exportable p o s) :
    0 < pdf.sizeBytes ∧ isChecksum pdf.checksumSHA256 = true ∧
      ∀ n reader, o.openObject n r.key = .ok reader → ∃ bytes, Recorded p pdf reader bytes := by
  obtain ⟨q, hq, ordinal, h⟩ := hr
  unfold located at h
  cases hq' : q.piece.pdf with
  | none =>
    rw [hq'] at h
    obtain rfl := Except.ok.inj h
    rw [hq'] at hpdf
    cases hpdf
  | some stored =>
    rw [hq'] at h
    obtain ⟨path, -, hr⟩ := bind_eq_ok.mp h
    obtain rfl := Except.ok.inj hr
    obtain rfl := Option.some.inj hpdf
    exact hD.scores q hq stored hq'

end Files

/-- Three passes over the pieces, each in the order of the ids. -/
def allVisits (s : Snapshot) : List Visit :=
  passVisits .manifest 0 s.rows ++ passVisits .table 0 s.rows ++ passVisits .scores 0 s.rows

def Part.piece? : Part → Option ExportPiece
  | .piece p => some p
  | _ => none

def Part.row? : Part → Option (List Text)
  | .row fields => some fields
  | _ => none

def ExportPiece.path (piece : ExportPiece) : Text := (piece.pdf.map ExportPDF.path).getD []

/-- The archive of a snapshot: both files list its pieces, `L` with their paths, and the
scores are those of the pieces that have a PDF. -/
structure Contents (p : Packages) (s : Snapshot) (L : List ExportRecord) (manifest table : ZipEntry)
    (scores : List ZipEntry) : Prop where
  names : manifest.name = "library.json".toList ∧ table.name = "pieces.csv".toList
  located : Located p 0 s.rows L
  ids : L.map (fun r => r.piece.id) = s.rows.map fun r => r.piece.id
  pieces : manifest.parts.filterMap Part.piece? = L.map fun r => r.piece
  rows : ∃ fields, table.parts.filterMap Part.row? = csvHeader :: fields ∧
    List.Forall₂ (fun r row => row[0]? = some (exportCSVCell r.piece.id) ∧
      row[11]? = some r.piece.path) L fields
  stored : List.Forall₂ (Stored p) (withPDF L) scores
  distinct : (scores.map ZipEntry.name).Nodup
  paths : ∀ entry ∈ scores, ScoreName entry.name

structure Whole (p : Packages) (s : Snapshot) (w : World) : Prop where
  visits : w.visits = allVisits s
  contents : ∃ L manifest table scores, w.archive.entries = manifest :: table :: scores ∧
    Contents p s L manifest table scores

structure Complete (p : Packages) (s : Snapshot) (w : World) : Prop where
  directory : w.archive.directory = true
  clean : ∀ c ∈ w.log, c.failed = none
  whole : Whole p s w

/-- Nothing has failed but the last write, that of the central directory. -/
structure CutShort (p : Packages) (s : Snapshot) (w : World) : Prop where
  write : ∃ calls code, w.log = calls ++ [⟨.write, some code⟩] ∧ ∀ c ∈ calls, c.failed = none
  whole : Whole p s w

structure Outcome (p : Packages) (o : Outside) (s : Snapshot)
    (run : Except ExportError Unit × World) : Prop where
  complete : run.1 = .ok () → Complete p s run.2
  broken : ∀ e, run.1 = .error e →
    Broken (allVisits s) (CutShort p s) (Exportable p o s) e run.2

section Export

variable {p : Packages} {o : Outside} {s : Snapshot} {now : Time} {L rows : List ExportRecord}
  {fields : List (List Text)} {ordinal : Nat}

theorem Located.ids (h : Located p ordinal rows L) :
    L.map (fun r => r.piece.id) = rows.map fun r => r.piece.id := by
  induction rows generalizing ordinal L with
  | nil =>
    cases h
    rfl
  | cons r rows ih =>
    cases h with
    | cons hr h => rw [List.map_cons, List.map_cons, located_id hr, ih h]

theorem withPDF_cons (r : ExportRecord) (L : List ExportRecord) :
    withPDF (r :: L) = if r.piece.pdf.isSome then r :: withPDF L else withPDF L :=
  List.filter_cons

theorem path_of_pdf {piece : ExportPiece} {pdf : ExportPDF} (h : piece.pdf = some pdf) :
    piece.path = pdf.path := by
  rw [ExportPiece.path, h]
  rfl

theorem located_path {r r' : ExportRecord} (h : located p r ordinal = .ok r')
    (hpdf : r'.piece.pdf.isSome = true) :
    exportScorePath p.isFormat (fun id => (p.parse id).mapError ExportError.outside) r.piece.title
      r.piece.id ordinal = .ok r'.piece.path := by
  unfold located at h
  cases hr : r.piece.pdf with
  | none =>
    rw [hr] at h
    obtain rfl := Except.ok.inj h
    rw [hr] at hpdf
    cases hpdf
  | some pdf =>
    rw [hr] at h
    obtain ⟨path, hpath, hr'⟩ := bind_eq_ok.mp h
    obtain rfl := Except.ok.inj hr'
    exact hpath

theorem Located.path (h : Located p ordinal rows L) :
    ∀ r ∈ withPDF L, ∃ title id n, ordinal < n ∧ exportScorePath p.isFormat
      (fun id => (p.parse id).mapError ExportError.outside) title id n = .ok r.piece.path := by
  induction rows generalizing ordinal L with
  | nil =>
    cases h
    intro r hr
    cases hr
  | cons first rows ih =>
    cases h with
    | cons hfirst h =>
      intro r hr
      obtain ⟨hmem, hpdf⟩ := List.mem_filter.mp hr
      obtain rfl | hmem := List.mem_cons.mp hmem
      · exact ⟨_, _, _, Nat.lt_succ_self ordinal, located_path hfirst hpdf⟩
      · obtain ⟨title, id, n, hn, hpath⟩ := ih h r (List.mem_filter.mpr ⟨hmem, hpdf⟩)
        exact ⟨title, id, n, by omega, hpath⟩

theorem Located.scoreName (h : Located p ordinal rows L) :
    ∀ r ∈ withPDF L, ScoreName r.piece.path := by
  intro r hr
  obtain ⟨title, id, n, -, hpath⟩ := h.path r hr
  exact exportScorePath_name hpath

theorem Located.nodup (h : Located p ordinal rows L) :
    ((withPDF L).map fun r => r.piece.path).Nodup := by
  induction rows generalizing ordinal L with
  | nil =>
    cases h
    exact List.nodup_nil
  | cons first rows ih =>
    cases h with
    | @cons _ first' _ L hfirst h =>
      rw [withPDF_cons]
      split_ifs with hpdf
      · rw [List.map_cons, List.nodup_cons]
        refine ⟨?_, ih h⟩
        intro hmem
        obtain ⟨r, hr, hsame⟩ := List.mem_map.mp hmem
        obtain ⟨title, id, n, hn, hpath⟩ := Located.path h r hr
        rw [hsame] at hpath
        have heq := exportScorePath_injective hpath (located_path hfirst hpdf)
        dsimp only at heq
        omega
      · exact ih h

theorem csvFields_columns {r : ExportRecord} {row : List Text} (h : csvFields p r = .ok row)
    (hpath : r.piece.pdf.isSome = true → ScoreName r.piece.path) :
    row[0]? = some (exportCSVCell r.piece.id) ∧ row[11]? = some r.piece.path := by
  obtain ⟨state, -, hrow⟩ := bind_eq_ok.mp h
  obtain rfl := Except.ok.inj hrow
  cases hpdf : r.piece.pdf with
  | none =>
    refine ⟨rfl, ?_⟩
    rw [ExportPiece.path, hpdf]
    rfl
  | some pdf =>
    rw [hpdf] at hpath
    have hcell := exportCSVCell_path (hpath rfl)
    rw [path_of_pdf hpdf] at hcell ⊢
    refine ⟨rfl, ?_⟩
    conv_rhs => rw [← hcell]
    rfl

theorem Rows.columns (hpath : ∀ r ∈ withPDF L, ScoreName r.piece.path) (h : Rows p L fields) :
    List.Forall₂ (fun r row => row[0]? = some (exportCSVCell r.piece.id) ∧
      row[11]? = some r.piece.path) L fields := by
  induction L generalizing fields with
  | nil =>
    cases h
    exact .nil
  | cons r L ih =>
    cases h with
    | cons hrow h =>
      refine .cons (csvFields_columns hrow fun hpdf => ?_) (ih (fun r' hr' => ?_) h)
      · exact hpath r (List.mem_filter.mpr ⟨List.mem_cons_self .., hpdf⟩)
      · obtain ⟨hmem, hpdf⟩ := List.mem_filter.mp hr'
        exact hpath r' (List.mem_filter.mpr ⟨List.mem_cons_of_mem _ hmem, hpdf⟩)

end Export

end Noted.Export
