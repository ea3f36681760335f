import Mathlib.Algebra.Order.BigOperators.Group.List
import Mathlib.Algebra.Order.Ring.Nat
import Mathlib.Data.List.Nodup
import Noted.Library.Attempt
import Noted.Types
import Noted.Url

/-!
# Validation (internal/app/validation.go, import_validation.go)

Each validator is the chain of its checks in the order of the source, and has
one lemma that says what it accepts. `uuid.Parse` is a parameter, and so are the
decoders of PDF and image files.
-/

namespace Noted

open Library

def validStatus (status : Text) : Bool :=
  status == statusLearning || status == statusPlaying || status == statusShelved

def isWebURL (value : Text) : Bool :=
  match Url.ParseRequestURI value with
  | none => false
  | some parsed =>
    (parsed.scheme == "http".toList || parsed.scheme == "https".toList) && parsed.hostname != []

def validateOptionalURL (label : String) (value : Text) : Except Error Unit := do
  refuse (2000 < byteLen value) (.invalid (label ++ " must be at most 2000 characters"))
  refuse (value ≠ [] ∧ isWebURL value = false)
    (.invalid (label ++ " must be an http or https URL"))

def validatePiece (input : PieceInput) : Except Error PieceInput := do
  let input := { input with opus := trimSpace input.opus, musicKey := trimSpace input.musicKey }
  refuse (100 < byteLen input.opus) (.invalid "opus must be at most 100 bytes")
  refuse (100 < byteLen input.musicKey) (.invalid "music key must be at most 100 bytes")
  let input := { input with
    title := trimSpace input.title
    composer := trimSpace input.composer
    sourceURL := trimSpace input.sourceURL
    listeningURL := trimSpace input.listeningURL
    notes := trimSpace input.notes }
  refuse (input.title = [] ∨ 300 < byteLen input.title)
    (.invalid "title must be between 1 and 300 characters")
  refuse (300 < byteLen input.composer) (.invalid "composer must be at most 300 characters")
  validateOptionalURL "source URL" input.sourceURL
  validateOptionalURL "listening URL" input.listeningURL
  refuse (10000 < byteLen input.notes) (.invalid "notes must be at most 10000 characters")
  let input := { input with aliases := trimSpace input.aliases }
  refuse (1000 < byteLen input.aliases) (.invalid "aliases must be at most 1000 characters")
  refuse (input.status.any (!validStatus ·))
    (.invalid "status must be learning, playing or shelved")
  pure input

def isWorkLink (value : GoString) : Bool :=
  match Url.Parse value with
  | none => false
  | some u =>
    u.scheme == "https".toList &&
      (u.host == utf8 "imslp.org".toList || u.host == utf8 "www.imslp.org".toList) &&
      !u.hasUser && (utf8 "/wiki/".toList).isPrefixOf u.path && value.len ≤ 2000

def validateIMSLP (value : GoString) : Except Error Unit :=
  refuse (value ≠ [] ∧ isWorkLink value = false)
    (.invalid "IMSLP link must be an HTTPS work link on imslp.org/wiki/")

def validateIMSLPAutoFill (metadata : PieceInput) (provenance : IMSLPAutoFill) :
    Except Error Unit := do
  refuse (provenance.title.any fun title =>
      provenance.titleEdited || 300 < byteLen title || title != metadata.title)
    (.invalid "IMSLP title ownership must match the draft title")
  refuse (provenance.composer.any fun composer =>
      provenance.composerEdited || 300 < byteLen composer || composer != metadata.composer)
    (.invalid "IMSLP composer ownership must match the draft composer")

section Manifest

def unitValues (v : List Rat) : Bool := v.all fun n => 0 ≤ n && n ≤ 1

def cornerTurn (corners : List (List Rat)) (i : Nat) : Rat :=
  let edge := fun k axis => (corners.getD (k % 4) []).getD axis 0
  (edge (i + 1) 0 - edge i 0) * (edge (i + 2) 1 - edge (i + 1) 1) -
    (edge (i + 1) 1 - edge i 1) * (edge (i + 2) 0 - edge (i + 1) 0)

def validateCorners (a : AssetRow) (corners : List (List Rat)) : Except Error Unit := do
  refuse (corners ≠ [] ∧ (a.mime = .pdf ∨ corners.length ≠ 4))
    (.invalid "perspective corners must belong to a photo")
  refuse (corners.any fun c => c.length != 2 || !unitValues c)
    (.invalid "perspective corners must be normalized pairs")
  refuse (corners ≠ [] ∧ (List.range 4).any fun i => cornerTurn corners i ≤ 1 / 10000)
    (.invalid "perspective corners must form a clockwise convex page")

def validateAdjustments (a : AssetRow) (p : PageEdit) : Except Error Unit := do
  refuse (10 < p.angle.abs ∨ p.rotation % 90 ≠ 0 ∨ p.rotation < 0 ∨ 270 < p.rotation ∨
      p.scale < 0 ∨ 3 < p.scale ∨ 1 < p.x.abs ∨ 1 < p.y.abs)
    (.invalid "page adjustment must be within supported bounds")
  refuse ((p.outputWidth ≠ 0 ∨ p.outputHeight ≠ 0) ∧ (p.outputWidth < 36 ∨
      14400 < p.outputWidth ∨ p.outputHeight < 36 ∨ 14400 < p.outputHeight))
    (.invalid "output canvas must have two dimensions between 36 and 14400 PDF points")
  refuse (p.crop ≠ [] ∧ (p.crop.length ≠ 4 ∨ unitValues p.crop = false ∨
      p.crop.getD 2 0 - p.crop.getD 0 0 < 5 / 100 ∨ p.crop.getD 3 0 - p.crop.getD 1 0 < 5 / 100))
    (.invalid "crop must have four normalized edges enclosing an area")
  refuse (p.margins ≠ [] ∧ p.margins.length ≠ 4)
    (.invalid "margins must contain top, right, bottom and left")
  refuse (p.margins.any fun margin => margin < 0 || 142 < margin)
    (.invalid "margins must be between zero and 50 millimetres")
  refuse (p.paperCleanupStrength.any fun strength => strength < 0 || 1 < strength)
    (.invalid "paper cleanup strength must be between zero and one")
  refuse ((p.paperCleanup = true ∨ p.paperCleanupStrength ≠ none) ∧ a.mime = .pdf)
    (.invalid "paper cleanup is available for photos only")
  validateCorners a p.corners

def validatePage (assets : Id → Option AssetRow) (p : PageEdit) : Except Error Unit := do
  let a ← demand (assets p.sourceId) (.invalid "page must refer to a source in this draft")
  refuse (p.page < 0 ∨ (a.pageCount : Int) ≤ p.page)
    (.invalid "page must refer to a source in this draft")
  validateAdjustments a p

variable (validUUID : Text → Bool)

/-- The loop of `validateManifest` over the pages, with the ids seen so far. -/
def validatePages (assets : Id → Option AssetRow) (seen : List Text) :
    List PageEdit → Except Error Unit
  | [] => pure ()
  | p :: ps => do
    refuse (validUUID p.id = false ∨ p.id ∈ seen)
      (.invalid "pages must have unique UUID identifiers")
    validatePage assets p
    validatePages assets (p.id :: seen) ps

/-- The map from ids to sources, where the last source of an id counts. -/
def assetsOf (sources : List AssetRow) (id : Id) : Option AssetRow :=
  sources.reverse.find? fun a => a.id == id

def validateManifest (manifest : EditManifest) (sources : List AssetRow) (allowEmpty : Bool) :
    Except Error Unit := do
  refuse (manifest.version ≠ 1 ∨ maxPreparedPages < manifest.pages.length ∨
      (allowEmpty = false ∧ manifest.pages = []))
    (.invalid "manifest must contain 1 to 10 pages and version 1")
  validatePages validUUID (assetsOf sources) [] manifest.pages

end Manifest

section Files

/-- What pdfcpu tells of a readable PDF: `unsupported` is the message for the
first CCITT image that fails its checks. -/
structure ParsedPDF where
  encrypted : Bool
  unsupported : Option String
  pageCount : Int

structure Decoders where
  readAndValidate : Bytes → Option ParsedPDF
  detectContentType : Bytes → Option Mime
  decodeConfig : Bytes → Option (Nat × Nat)
  decodes : Bytes → Bool

/-- The file type, the number of pages and the size of a photo. -/
structure ImportBytes where
  mime : Mime
  pages : Nat
  width : Nat
  height : Nat
  deriving DecidableEq

variable (D : Decoders)

def validatePDF (data : Bytes) : Except Error ImportBytes := do
  let parsed ← demand (D.readAndValidate data) (.invalid "PDF must be readable and unencrypted")
  refuse (parsed.encrypted = true)
    (.invalid "PDF must be unencrypted; export an unlocked copy first")
  refuse (parsed.unsupported.isSome = true) (.invalid (parsed.unsupported.getD ""))
  refuse (parsed.pageCount < 1 ∨ 10000 < parsed.pageCount)
    (.invalid "PDF must contain between 1 and 10000 pages")
  pure ⟨.pdf, parsed.pageCount.toNat, 0, 0⟩

def validatePhoto (data : Bytes) : Except Error ImportBytes := do
  let mime ← demand (D.detectContentType data)
    (.invalid "source must be PDF, JPEG or PNG; export HEIC photos as JPEG first")
  refuse (mime = .pdf)
    (.invalid "source must be PDF, JPEG or PNG; export HEIC photos as JPEG first")
  let (width, height) ← demand (D.decodeConfig data)
    (.invalid "photo must be readable and at most 20 megapixels")
  refuse (width < 1 ∨ height < 1 ∨ 20000000 < width * height)
    (.invalid "photo must be readable and at most 20 megapixels")
  refuse (D.decodes data = false) (.invalid "photo must contain complete image data")
  pure ⟨mime, 1, width, height⟩

def validateImportBytes (data : Bytes) : Except Error ImportBytes := do
  refuse (data = []) (.invalid "source must contain a PDF, JPEG or PNG")
  if (utf8 "%PDF-".toList).isPrefixOf data then validatePDF D data else validatePhoto D data

end Files

/-- `hex.DecodeString` gives 32 bytes. -/
def isChecksum (text : Text) : Bool := text.length == 64 && text.all Url.ishex

def validateReaderState (state : ReaderState) : Except Error Unit := do
  refuse (isChecksum state.pdfChecksumSHA256 = false)
    (.invalid "PDF checksum must be a SHA-256 checksum")
  refuse (state.mode ≠ "page".toList ∧ state.mode ≠ "scroll".toList)
    (.invalid "mode must be page or scroll")
  refuse (state.lastPage < 1) (.invalid "last page must be at least 1")
  refuse (state.scrollPosition < 0) (.invalid "scroll position cannot be negative")
  refuse (state.zoom < 1 / 2 ∨ 5 / 2 < state.zoom) (.invalid "zoom must be between 0.5 and 2.5")
  refuse (state.scrollSpeed < 1 ∨ 10 < state.scrollSpeed)
    (.invalid "scroll speed must be between 1 and 10")

section Pieces

theorem byteLen_le_of_sublist {s t : Text} (h : s.Sublist t) : byteLen s ≤ byteLen t :=
  (h.map Char.utf8Size).sum_le_sum fun _ _ => Nat.zero_le _

theorem byteLen_trimSpace_le (t : Text) : byteLen (trimSpace t) ≤ byteLen t :=
  byteLen_le_of_sublist
    ((List.rdropWhile_prefix goSpace _).sublist.trans (List.dropWhile_suffix goSpace).sublist)

def ValidURL (value : Text) : Prop := byteLen value ≤ 2000 ∧ (value = [] ∨ isWebURL value = true)

theorem validateOptionalURL_eq_ok {label : String} {value : Text} {u : Unit} :
    validateOptionalURL label value = .ok u ↔ ValidURL value := by
  simp only [validateOptionalURL, bind_eq_ok, refuse_eq_ok, ValidURL, not_lt, not_and_or,
    not_not, ne_eq, Bool.not_eq_false, exists_const]

def trimPiece (input : PieceInput) : PieceInput := { input with
  opus := trimSpace input.opus
  musicKey := trimSpace input.musicKey
  title := trimSpace input.title
  composer := trimSpace input.composer
  sourceURL := trimSpace input.sourceURL
  listeningURL := trimSpace input.listeningURL
  notes := trimSpace input.notes
  aliases := trimSpace input.aliases }

structure PieceInput.Valid (input : PieceInput) : Prop where
  opus : byteLen input.opus ≤ 100
  musicKey : byteLen input.musicKey ≤ 100
  title_ne : input.title ≠ []
  title : byteLen input.title ≤ 300
  composer : byteLen input.composer ≤ 300
  sourceURL : ValidURL input.sourceURL
  listeningURL : ValidURL input.listeningURL
  notes : byteLen input.notes ≤ 10000
  aliases : byteLen input.aliases ≤ 1000
  status : ∀ status ∈ input.status, validStatus status = true

/-- `validatePiece` trims every text and accepts what is then within its limits. -/
theorem validatePiece_eq_ok {input output : PieceInput} :
    validatePiece input = .ok output ↔ output = trimPiece input ∧ (trimPiece input).Valid := by
  simp only [validatePiece, bind_eq_ok, refuse_eq_ok, validateOptionalURL_eq_ok, exists_const,
    pure_eq_ok, Except.ok.injEq]
  constructor
  · intro h
    obtain ⟨hopus, hkey, htitle, hcomposer, hsource, hlistening, hnotes, haliases, hstatus, heq⟩ := h
    rw [not_or] at htitle
    refine ⟨heq.symm, ⟨?_, ?_, htitle.1, ?_, ?_, hsource, hlistening, ?_, ?_, ?_⟩⟩
    · exact Nat.le_of_not_lt hopus
    · exact Nat.le_of_not_lt hkey
    · exact Nat.le_of_not_lt htitle.2
    · exact Nat.le_of_not_lt hcomposer
    · exact Nat.le_of_not_lt hnotes
    · exact Nat.le_of_not_lt haliases
    · intro status hs
      have hs' : input.status = some status := hs
      simpa [hs'] using hstatus
  · intro h
    obtain ⟨rfl, h⟩ := h
    refine ⟨?_, ?_, ?_, ?_, h.sourceURL, h.listeningURL, ?_, ?_, ?_, rfl⟩
    · exact Nat.not_lt_of_le h.opus
    · exact Nat.not_lt_of_le h.musicKey
    · exact not_or.mpr ⟨h.title_ne, Nat.not_lt_of_le h.title⟩
    · exact Nat.not_lt_of_le h.composer
    · exact Nat.not_lt_of_le h.notes
    · exact Nat.not_lt_of_le h.aliases
    · have hs := h.status
      change ∀ status ∈ input.status, _ at hs
      cases hst : input.status with
      | none => simp
      | some status => simpa using hs status hst

@[simp] theorem trimPiece_trimPiece (input : PieceInput) :
    trimPiece (trimPiece input) = trimPiece input := by
  simp [trimPiece]

theorem validatePiece_validated {input output : PieceInput} (h : validatePiece input = .ok output) :
    trimPiece output = output ∧ output.Valid := by
  obtain ⟨rfl, hvalid⟩ := validatePiece_eq_ok.mp h
  exact ⟨trimPiece_trimPiece input, hvalid⟩

theorem validateIMSLP_eq_ok {value : GoString} {u : Unit} :
    validateIMSLP value = .ok u ↔ (value = [] ∨ isWorkLink value = true) := by
  rw [validateIMSLP, refuse_eq_ok, not_and_or, not_not, Bool.not_eq_false]

theorem containsCTL_of_isWebURL {value : Text} (h : isWebURL value = true) :
    Url.containsCTL value = false := by
  rw [Bool.eq_false_iff]
  intro hctl
  have hnone : Url.ParseRequestURI value = none := if_pos (by rw [asText_text, hctl])
  simp [isWebURL, hnone] at h

/-- A link that `validateIMSLP` accepts is one that `validatePiece` accepts, when its text
is short enough and holds no control character. -/
theorem validURL_workLink_iff {value : GoString} (h : isWorkLink value = true) :
    ValidURL (trimSpace (asText value)) ↔ byteLen (trimSpace (asText value)) ≤ 2000 ∧
      Url.containsCTL (trimSpace (asText value)) = false := by
  unfold isWorkLink at h
  split at h
  · cases h
  rename_i u hparse
  simp only [Bool.and_eq_true, Bool.or_eq_true, beq_iff_eq, decide_eq_true_eq] at h
  obtain ⟨⟨⟨⟨hscheme, hhost⟩, -⟩, hpath⟩, -⟩ := h
  have hschemene : u.scheme ≠ [] := by simp [hscheme]
  have hhostne : u.host ≠ [] := by
    intro hnil
    rw [hnil] at hhost
    exact absurd hhost (by decide)
  have hpathne : u.path ≠ [] := by
    intro hnil
    rw [hnil] at hpath
    exact absurd hpath (by decide)
  have hascii : ∀ b ∈ u.host, b < 0x80 := by
    obtain hhost | hhost := hhost
    · rw [hhost]
      decide +kernel
    · rw [hhost]
      decide +kernel
  obtain ⟨path, hread, hparse⟩ := Url.Parse_asText hparse hascii
  constructor
  · intro hvalid
    obtain ⟨hlength, hnil | hweb⟩ := hvalid
    · exact ⟨hlength, by rw [hnil]; rfl⟩
    · exact ⟨hlength, containsCTL_of_isWebURL hweb⟩
  · intro hfits
    obtain ⟨hlength, hctl⟩ := hfits
    obtain ⟨bytes, hrequest⟩ :=
      Url.parseRequestURI_of_Parse hparse hschemene hhostne (hread hpathne) hctl
    have hname : (⟨u.scheme, u.hasUser, u.host, bytes⟩ : Url.URL).hostname ≠ [] := by
      unfold Url.URL.hostname
      obtain hhost | hhost := hhost
      · simp only [hhost]
        decide
      · simp only [hhost]
        decide
    refine ⟨hlength, Or.inr ?_⟩
    simp only [isWebURL, hrequest, Bool.and_eq_true, bne_iff_ne]
    exact ⟨by simp [hscheme], hname⟩

end Pieces

section Provenance

theorem validateIMSLPAutoFill_eq_ok {metadata : PieceInput} {provenance : IMSLPAutoFill}
    {u : Unit} : validateIMSLPAutoFill metadata provenance = .ok u ↔
      (∀ title ∈ provenance.title, provenance.titleEdited = false ∧ byteLen title ≤ 300 ∧
        title = metadata.title) ∧
      ∀ composer ∈ provenance.composer, provenance.composerEdited = false ∧
        byteLen composer ≤ 300 ∧ composer = metadata.composer := by
  simp only [validateIMSLPAutoFill, bind_eq_ok, refuse_eq_ok, exists_const]
  cases provenance.title <;> cases provenance.composer <;> simp [and_assoc]

end Provenance

section Manifests

variable {validUUID : Text → Bool}

structure EditManifest.Valid (validUUID : Text → Bool) (assets : Id → Option AssetRow)
    (manifest : EditManifest) : Prop where
  version : manifest.version = 1
  length : manifest.pages.length ≤ maxPreparedPages
  ids : (manifest.pages.map PageEdit.id).Nodup
  uuids : ∀ p ∈ manifest.pages, validUUID p.id = true
  pages : ∀ p ∈ manifest.pages, validatePage assets p = .ok ⟨⟩

theorem validatePages_eq_ok {assets : Id → Option AssetRow} {seen : List Text}
    {pages : List PageEdit} {u : Unit} : validatePages validUUID assets seen pages = .ok u ↔
      (pages.map PageEdit.id).Nodup ∧ (∀ p ∈ pages, p.id ∉ seen) ∧
        (∀ p ∈ pages, validUUID p.id = true) ∧ ∀ p ∈ pages, validatePage assets p = .ok ⟨⟩ := by
  induction pages generalizing seen with
  | nil => simp [validatePages]
  | cons p ps ih =>
    simp only [validatePages, bind_eq_ok, refuse_eq_ok, exists_const, ih, not_or,
      Bool.not_eq_false, List.map_cons, List.nodup_cons, List.mem_cons, forall_eq_or_imp,
      List.mem_map, not_exists, not_and]
    grind

theorem validateManifest_eq_ok {manifest : EditManifest} {sources : List AssetRow}
    {allowEmpty : Bool} {u : Unit} : validateManifest validUUID manifest sources allowEmpty = .ok u ↔
      manifest.Valid validUUID (assetsOf sources) ∧ (allowEmpty = true ∨ manifest.pages ≠ []) := by
  simp only [validateManifest, bind_eq_ok, refuse_eq_ok, exists_const, validatePages_eq_ok,
    not_or, not_and_or, not_not, not_lt, Bool.not_eq_false]
  constructor
  · intro h
    obtain ⟨⟨hversion, hlength, hempty⟩, hids, -, huuids, hpages⟩ := h
    exact ⟨⟨hversion, hlength, hids, huuids, hpages⟩, hempty⟩
  · intro h
    obtain ⟨h, hempty⟩ := h
    refine ⟨⟨h.version, h.length, hempty⟩, h.ids, ?_, h.uuids, h.pages⟩
    simp

theorem validatePage_source {assets : Id → Option AssetRow} {p : PageEdit} {u : Unit}
    (h : validatePage assets p = .ok u) : ∃ a, assets p.sourceId = some a := by
  simp only [validatePage, bind_eq_ok, demand_eq_ok] at h
  obtain ⟨a, ha, -⟩ := h
  exact ⟨a, ha⟩

theorem EditManifest.Valid.mono {assets assets' : Id → Option AssetRow} {manifest : EditManifest}
    (h : manifest.Valid validUUID assets)
    (hkeep : ∀ p ∈ manifest.pages, ∀ a, assets p.sourceId = some a → assets' p.sourceId = some a) :
    manifest.Valid validUUID assets' := by
  refine ⟨h.version, h.length, h.ids, h.uuids, ?_⟩
  intro p hp
  obtain ⟨a, ha⟩ := validatePage_source (h.pages p hp)
  have hpage := h.pages p hp
  rw [validatePage, ha] at hpage
  rw [validatePage, hkeep p hp a ha]
  exact hpage

theorem EditManifest.valid_nil (assets : Id → Option AssetRow) :
    EditManifest.Valid validUUID assets ⟨1, []⟩ :=
  ⟨rfl, by simp, by simp, by simp, by simp⟩

theorem validatePage_fresh {assets : Id → Option AssetRow} {a : AssetRow} {id : Text} {n : Nat}
    (ha : assets a.id = some a) (hn : n < a.pageCount) :
    validatePage assets (PageEdit.fresh id a.id n) = .ok ⟨⟩ := by
  have hadjust : validateAdjustments a (PageEdit.fresh id a.id n) = .ok ⟨⟩ := by
    rfl
  simp only [validatePage, bind_eq_ok, demand_eq_ok, refuse_eq_ok, exists_const]
  refine ⟨a, ha, ?_, hadjust⟩
  simp only [PageEdit.fresh]
  omega

theorem assetsOf_eq_some {sources : List AssetRow} (hnodup : (sources.map AssetRow.id).Nodup)
    {id : Id} {a : AssetRow} : assetsOf sources id = some a ↔ a ∈ sources ∧ a.id = id := by
  constructor
  · intro h
    have hmem := List.mem_of_find?_eq_some h
    have hid := List.find?_some h
    exact ⟨List.mem_reverse.mp hmem, by simpa using hid⟩
  · intro h
    obtain ⟨ha, rfl⟩ := h
    cases hf : assetsOf sources a.id with
    | none =>
      have hnone := List.find?_eq_none.mp hf a (List.mem_reverse.mpr ha)
      simp at hnone
    | some b =>
      have hmem := List.mem_reverse.mp (List.mem_of_find?_eq_some hf)
      have hid : b.id = a.id := by simpa using List.find?_some hf
      rw [List.inj_on_of_nodup_map hnodup hmem ha hid]

end Manifests

section Sources

variable {D : Decoders}

theorem validateImportBytes_pages {data : Bytes} {file : ImportBytes}
    (h : validateImportBytes D data = .ok file) :
    1 ≤ file.pages ∧ (file.mime ≠ .pdf → file.pages = 1) := by
  simp only [validateImportBytes, bind_eq_ok, refuse_eq_ok, exists_const] at h
  obtain ⟨-, h⟩ := h
  split at h
  · simp only [validatePDF, bind_eq_ok, refuse_eq_ok, demand_eq_ok, exists_const, pure_eq_ok,
      Except.ok.injEq] at h
    obtain ⟨parsed, -, -, -, hcount, rfl⟩ := h
    refine ⟨?_, fun hne => absurd rfl hne⟩
    change 1 ≤ parsed.pageCount.toNat
    omega
  · simp only [validatePhoto, bind_eq_ok, refuse_eq_ok, demand_eq_ok, exists_const, pure_eq_ok,
      Except.ok.injEq] at h
    obtain ⟨mime, -, -, size, -, -, -, rfl⟩ := h
    exact ⟨Nat.le_refl 1, fun _ => rfl⟩

end Sources

end Noted
