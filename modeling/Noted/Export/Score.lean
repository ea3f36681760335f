import Noted.Export.Stream

/-!
# A stored score is exported byte for byte (internal/app/export.go, writeExportScore)

What a reader gives is said of the reader alone, read again and again with the buffers
that a score of its size is read with. The copying follows it read for read: it goes on
for as long as the reader can still deliver the score, and fails otherwise.
-/

namespace Noted.Export

open Library

def asked (size copied : Nat) : Nat :=
  if copied < size then min (32 * 1024) (size - copied) else 1

namespace Reader

variable (r : Reader) (size : Nat)

def given : Nat → Bytes
  | 0 => []
  | k + 1 => given k ++ (r.read k (asked size (given k).length)).1

def answer (k : Nat) : Bytes × Option ReadError := r.read k (asked size (r.given size k).length)

/-- The reads one after the other before the `k`-th that gave no byte. -/
def idle : Nat → Nat
  | 0 => 0
  | k + 1 => if (r.answer size k).1 = [] then idle k + 1 else 0

/-- A read without an error, but that the end may come together with the last byte. -/
def GoesOn (k : Nat) : Prop :=
  (r.answer size k).2 = none ∨ ((r.answer size k).2 = some .eof ∧ (r.answer size k).1 ≠ [] ∧
    (r.given size (k + 1)).length = size)

structure Underway (k : Nat) : Prop where
  goesOn : ∀ j < k, r.GoesOn size j
  idle : ∀ j ≤ k, r.idle size j < 100

/-- After `n` reads the reader has given the bytes, `size` of them, and it answers the
next read with the end. No 100 reads one after the other make no progress. -/
structure DeliversIn (bytes : Bytes) (n : Nat) : Prop where
  underway : r.Underway size n
  given : r.given size n = bytes
  length : bytes.length = size
  ended : r.answer size n = ([], some .eof)

def Delivers (bytes : Bytes) : Prop := ∃ n, r.DeliversIn size bytes n

variable {r size} {k n : Nat} {bytes : Bytes}

theorem given_succ : r.given size (k + 1) = r.given size k ++ (r.answer size k).1 := rfl

theorem given_initial (h : k ≤ n) : r.given size k <+: r.given size n := by
  induction h with
  | refl => exact List.prefix_refl _
  | step _ ih => exact ih.trans (List.prefix_append _ _)

theorem Underway.start : r.Underway size 0 := by
  refine ⟨fun j hj => ?_, fun j hj => ?_⟩
  · omega
  · rw [Nat.le_zero.mp hj]
    exact Nat.zero_lt_succ 99

theorem Underway.succ (h : r.Underway size k) (hk : r.GoesOn size k)
    (hidle : r.idle size (k + 1) < 100) : r.Underway size (k + 1) := by
  refine ⟨fun j hj => ?_, fun j hj => ?_⟩
  · obtain hj | rfl := Nat.lt_succ_iff_lt_or_eq.mp hj
    · exact h.goesOn j hj
    · exact hk
  · obtain hj | rfl := Nat.le_succ_iff.mp hj
    · exact h.idle j hj
    · exact hidle

theorem not_goesOn_of_ended (h : r.answer size k = ([], some .eof)) : ¬ r.GoesOn size k := by
  rintro (hnone | ⟨-, hdata, -⟩)
  · rw [h] at hnone
    cases hnone
  · rw [h] at hdata
    exact hdata rfl

theorem DeliversIn.le (h : r.DeliversIn size bytes n) (hk : r.Underway size k) : k ≤ n := by
  by_contra hlt
  exact not_goesOn_of_ended h.ended (hk.goesOn n (by omega))

theorem DeliversIn.next (h : r.DeliversIn size bytes n) (hk : r.Underway size k) :
    (k = n ∧ r.answer size k = ([], some .eof)) ∨
      (r.GoesOn size k ∧ r.idle size (k + 1) < 100 ∧ (r.given size (k + 1)).length ≤ size) := by
  obtain rfl | hlt := (h.le hk).eq_or_lt
  · exact .inl ⟨rfl, h.ended⟩
  · refine .inr ⟨h.underway.goesOn k hlt, h.underway.idle (k + 1) hlt, ?_⟩
    have hinitial : r.given size (k + 1) <+: r.given size n := given_initial hlt
    have hlen := hinitial.length_le
    rw [h.given, h.length] at hlen
    exact hlen

end Reader

def Recorded (p : Packages) (pdf : ExportPDF) (reader : Reader) (bytes : Bytes) : Prop :=
  reader.Delivers pdf.sizeBytes.toNat bytes ∧ p.sha256 bytes = pdf.checksumSHA256

def Copied (a : Archive) (path : Text) (bytes : Bytes) (a' : Archive) : Prop :=
  ∃ chunks : List Bytes, chunks.flatten = bytes ∧
    a' = { a.create path with current := some ⟨path, chunks.map .bytes⟩ }

structure Open (log : List Called) (k : Nat) (A : Archive → Prop) (w : World) : Prop where
  calls : ∃ calls, w.log = log ++ calls ∧
    ∀ c ∈ calls, c.failed = none ∧ c.kind ≠ .closeReader
  reads : w.reads = k
  written : A w.archive

/-- A failure: some call since has failed, or what was to be has not been the case. -/
def Refused (log : List Called) (D : Prop) (w : World) : Prop :=
  ∃ calls, w.log = log ++ calls ∧ (∀ c ∈ calls, c.kind ≠ .closeReader) ∧
    (D → ∃ c ∈ calls, c.failed ≠ none)

theorem World.called_log (w : World) (kind : CallKind) (failed : Option Nat) :
    (w.called kind failed).log = w.log ++ [⟨kind, failed⟩] := rfl

section Copying

variable {log : List Called} {k size : Nat} {A B : Archive → Prop} {D : Prop} {p : Packages}
  {o : Outside} {reader : Reader} {a : Archive} {path : Text}

theorem Open.mono {w : World} (h : Open log k A w) (hAB : ∀ a, A a → B a) : Open log k B w :=
  ⟨h.calls, h.reads, hAB _ h.written⟩

theorem Open.refused {w : World} (h : Open log k A w) (hD : ¬ D) : Refused log D w := by
  obtain ⟨calls, hlog, hcalls⟩ := h.calls
  exact ⟨calls, hlog, fun c hc => (hcalls c hc).2, fun hd => absurd hd hD⟩

theorem refuse {α : Type} {e : ExportError} {Q : α → World → Prop} (hD : ¬ D) :
    Failing.Spec (Open log k A) (Failing.fail e) Q (fun _ => Refused log D) :=
  Failing.Spec.fail fun _ h => h.refused hD

theorem calls_concat {calls : List Called} {c : Called} {P : Called → Prop}
    (h : ∀ c ∈ calls, P c) (hc : P c) : ∀ c' ∈ calls ++ [c], P c' := by
  intro c' hc'
  obtain hold | hnew := List.mem_append.mp hc'
  · exact h c' hold
  · rw [List.mem_singleton.mp hnew]
    exact hc

theorem call_answered {kind : CallKind} {answer : Nat → Option Nat} {P Q : World → Prop}
    {E : ExportError → World → Prop}
    (hok : ∀ w, P w → Q (w.called kind none))
    (herror : ∀ w code, P w → E (.outside code) (w.called kind (some code))) :
    Failing.Spec P (call kind answer) (fun _ => Q) E := by
  refine Failing.Spec.looking fun t ht => ?_
  cases hanswer : answer t.log.length with
  | none =>
    refine Failing.Spec.bind (Q := fun _ => Q) (Failing.Spec.change ?_) fun _ =>
      Failing.Spec.pure fun w hw => hw
    rintro w rfl
    rw [hanswer]
    exact hok w ht
  | some code =>
    refine Failing.Spec.bind (Q := fun _ => E (.outside code)) (Failing.Spec.change ?_) fun _ =>
      Failing.Spec.fail fun w hw => hw
    rintro w rfl
    rw [hanswer]
    exact herror w code ht

theorem call_spec {kind : CallKind} {answer : Nat → Option Nat} {Q : World → Prop}
    (hkind : kind ≠ .closeReader) (h : ∀ w, Open log k A w → Q (w.called kind none)) :
    Failing.Spec (Open log k A) (call kind answer) (fun _ => Q) (fun _ => Refused log D) := by
  refine call_answered h fun w code hw => ?_
  obtain ⟨calls, hlog, hcalls⟩ := hw.calls
  refine ⟨calls ++ [⟨kind, some code⟩], ?_, ?_, fun _ => ?_⟩
  · rw [World.called_log, hlog, List.append_assoc]
  · exact calls_concat (fun c hc => (hcalls c hc).2) hkind
  · exact ⟨_, List.mem_append_right _ (List.mem_singleton_self _), by simp⟩

theorem call_open {kind : CallKind} {answer : Nat → Option Nat} (hkind : kind ≠ .closeReader) :
    Failing.Spec (Open log k A) (call kind answer) (fun _ => Open log k A)
      (fun _ => Refused log D) := by
  refine call_spec hkind fun w h => ?_
  obtain ⟨calls, hlog, hcalls⟩ := h.calls
  refine ⟨⟨calls ++ [⟨kind, none⟩], ?_, calls_concat hcalls ⟨rfl, hkind⟩⟩, h.reads, h.written⟩
  rw [World.called_log, hlog, List.append_assoc]

theorem writing_open {f : Archive → Archive} (hf : ∀ a, A a → B (f a)) :
    Failing.Spec (Open log k A) (writing o f) (fun _ => Open log k B)
      (fun _ => Refused log D) := by
  refine Failing.Spec.looking fun t ht => ?_
  obtain ⟨calls, hlog, hcalls⟩ := ht.calls
  cases o.write t.log.length with
  | none =>
    refine Failing.Spec.bind (Q := fun _ => Open log k B) (Failing.Spec.change ?_) fun _ =>
      Failing.Spec.pure fun w hw => hw
    rintro w rfl
    refine ⟨⟨calls ++ [⟨.write, none⟩], ?_, calls_concat hcalls ⟨rfl, by simp⟩⟩, ht.reads,
      hf _ ht.written⟩
    change w.log ++ [⟨.write, none⟩] = _
    rw [hlog, List.append_assoc]
  | some failure =>
    refine Failing.Spec.bind (Q := fun _ => Refused log D) (Failing.Spec.change ?_) fun _ =>
      Failing.Spec.fail fun w hw => hw
    rintro w rfl
    refine ⟨calls ++ [⟨.write, some failure.code⟩], ?_, ?_, fun _ => ?_⟩
    · change w.log ++ [⟨.write, some failure.code⟩] = _
      rw [hlog, List.append_assoc]
    · exact calls_concat (fun c hc => (hcalls c hc).2) (by simp)
    · exact ⟨_, List.mem_append_right _ (List.mem_singleton_self _), by simp⟩

theorem createHeader_open {name : Text} (h : ∀ a, A a → B (a.create name)) :
    Failing.Spec (Open log k A) (createHeader o name) (fun _ => Open log k B)
      (fun _ => Refused log D) :=
  writing_open h

theorem write_open {part : Part} (h : ∀ a, A a → B (a.add part)) :
    Failing.Spec (Open log k A) (write o part) (fun _ => Open log k B)
      (fun _ => Refused log D) :=
  writing_open h

theorem read_open (asked : Nat) :
    Failing.Spec (Open log k A) (read reader asked)
      (fun q w => q = reader.read k asked ∧ Open log (k + 1) A w) (fun _ => Refused log D) := by
  refine Failing.Spec.looking fun t ht => ?_
  obtain ⟨calls, hlog, hcalls⟩ := ht.calls
  refine Failing.Spec.bind (Q := fun _ => Open log (k + 1) A) (Failing.Spec.change ?_) fun _ =>
    Failing.Spec.pure fun w h => ⟨by rw [ht.reads], h⟩
  rintro w rfl
  refine ⟨⟨calls ++ [⟨.read, none⟩], ?_, calls_concat hcalls ⟨rfl, by simp⟩⟩, ?_, ht.written⟩
  · change w.log ++ [⟨.read, none⟩] = _
    rw [hlog, List.append_assoc]
  · rw [ht.reads]

theorem takeChunk_open (hD : D → ∃ bytes, reader.Delivers size bytes)
    (hunder : reader.Underway size k) (hshort : (reader.given size k).length < size) :
    Failing.Spec (Open log (k + 1) (Copied a path (reader.given size k)))
      (takeChunk o (reader.answer size k).1 (reader.idle size k))
      (fun n w => (n = reader.idle size (k + 1) ∧ n < 100) ∧
        Open log (k + 1) (Copied a path (reader.given size (k + 1))) w)
      (fun _ => Refused log D) := by
  unfold takeChunk
  split_ifs with hchunk hlast
  · refine (write_open (B := Copied a path (reader.given size (k + 1))) fun a' h => ?_).bind
      fun _ => Failing.Spec.pure fun w h => ⟨⟨?_, by omega⟩, h⟩
    · obtain ⟨chunks, hchunks, rfl⟩ := h
      refine ⟨chunks ++ [(reader.answer size k).1], ?_, ?_⟩
      · rw [List.flatten_append, hchunks, Reader.given_succ]
        simp
      · simp [Archive.add]
    · rw [Reader.idle, if_neg hchunk]
  · -- The score cannot be delivered with a hundred such reads in a row.
    refine refuse fun hd => ?_
    obtain ⟨bytes, n, hn⟩ := hD hd
    have hidle : reader.idle size (k + 1) = reader.idle size k + 1 := by
      rw [Reader.idle, if_pos (not_not.mp hchunk)]
    obtain ⟨rfl, -⟩ | ⟨-, hless, -⟩ := hn.next hunder
    · rw [hn.given, hn.length] at hshort
      exact lt_irrefl _ hshort
    · omega
  · have hnil := not_not.mp hchunk
    refine Failing.Spec.pure fun w h => ⟨⟨?_, by omega⟩, h.mono fun a' ha => ?_⟩
    · rw [Reader.idle, if_pos hnil]
    · rw [Reader.given_succ, hnil, List.append_nil]
      exact ha

theorem copyTurn_open (hD : D → ∃ bytes, reader.Delivers size bytes)
    (hunder : reader.Underway size k) (hshort : (reader.given size k).length < size) :
    Failing.Spec (Open log k (Copied a path (reader.given size k)))
      (copyTurn o reader size (reader.given size k) (reader.idle size k))
      (fun q w => (q.1 = reader.given size (k + 1) ∧ q.2.1 = reader.idle size (k + 1) ∧
        (q.2.2 = true → q.1.length = size) ∧ reader.Underway size (k + 1)) ∧
        Open log (k + 1) (Copied a path (reader.given size (k + 1))) w)
      (fun _ => Refused log D) := by
  have hasked : min (32 * 1024) (size - (reader.given size k).length) =
      asked size (reader.given size k).length := by rw [asked, if_pos hshort]
  unfold copyTurn
  rw [hasked]
  refine (call_open (by simp)).bind fun _ => ?_
  refine (read_open _).bind fun q => Failing.Spec.assume fun hq => ?_
  change q = reader.answer size k at hq
  obtain ⟨chunk, readErr⟩ := q
  obtain ⟨hchunk, hread⟩ := Prod.ext_iff.mp hq
  dsimp only at hchunk hread ⊢
  rw [hchunk]
  refine (call_open (by simp)).bind fun _ => ?_
  refine (takeChunk_open hD hunder hshort).bind fun n => Failing.Spec.assume fun hn => ?_
  obtain ⟨rfl, hidle⟩ := hn
  rw [← Reader.given_succ]
  cases readErr with
  | none =>
    refine Failing.Spec.pure fun w h => ⟨⟨rfl, rfl, fun h => ?_, ?_⟩, h⟩
    · cases h
    · exact hunder.succ (.inl hread.symm) hidle
  | some e =>
    dsimp only
    split_ifs with hend
    · obtain ⟨rfl, hlen⟩ := hend
      refine Failing.Spec.pure fun w h => ⟨⟨rfl, rfl, fun _ => hlen, ?_⟩, h⟩
      refine hunder.succ (.inr ⟨hread.symm, fun hnil => ?_, hlen⟩) hidle
      rw [Reader.given_succ, hnil, List.append_nil] at hlen
      omega
    · refine refuse fun hd => ?_
      obtain ⟨bytes, n, hn⟩ := hD hd
      obtain ⟨rfl, -⟩ | ⟨hnone | ⟨heof, -, hlen⟩, -, -⟩ := hn.next hunder
      · rw [hn.given, hn.length] at hshort
        exact lt_irrefl _ hshort
      · rw [← hread] at hnone
        cases hnone
      · rw [← hread] at heof
        exact hend ⟨Option.some.inj heof, hlen⟩

/-- Every turn leaves fewer bytes or fewer idle reads to come, so that the turns do. -/
theorem turns_left (hshort : (reader.given size k).length < size)
    (hless : reader.idle size k < 100) (hlen : (reader.given size (k + 1)).length ≤ size)
    (hidle : reader.idle size (k + 1) < 100) :
    100 * (size - (reader.given size (k + 1)).length) + (100 - reader.idle size (k + 1)) <
      100 * (size - (reader.given size k).length) + (100 - reader.idle size k) := by
  rw [Reader.given_succ] at *
  rw [Reader.idle] at *
  rw [List.length_append] at *
  split_ifs at * with hnil
  · rw [hnil, List.length_nil]
    omega
  · have hpos := List.length_pos_of_ne_nil hnil
    omega

theorem given_fits (hshort : (reader.given size k).length < size) :
    (reader.given size (k + 1)).length ≤ size := by
  have hread := reader.fits k (asked size (reader.given size k).length)
  rw [asked, if_pos hshort] at hread
  rw [Reader.given_succ, List.length_append, Reader.answer, asked, if_pos hshort]
  omega

theorem copyScore_open (hD : D → ∃ bytes, reader.Delivers size bytes) {turns : Nat}
    (hunder : reader.Underway size k) (hlen : (reader.given size k).length ≤ size)
    (hidle : (reader.given size k).length = size → reader.idle size k = 0)
    (hturns : 100 * (size - (reader.given size k).length) + (100 - reader.idle size k) ≤ turns) :
    Failing.Spec (Open log k (Copied a path (reader.given size k)))
      (copyScore o reader size turns (reader.given size k) (reader.idle size k))
      (fun copied w => ∃ n, (copied = reader.given size n ∧ copied.length = size ∧
        reader.idle size n = 0 ∧ reader.Underway size n) ∧
        Open log n (Copied a path (reader.given size n)) w)
      (fun _ => Refused log D) := by
  induction turns generalizing k with
  | zero =>
    have hless := hunder.idle k le_rfl
    omega
  | succ turns ih =>
    unfold copyScore
    split_ifs with hshort
    · refine (copyTurn_open hD hunder hshort).bind fun q => Failing.Spec.assume fun hq => ?_
      obtain ⟨copied, n, ended⟩ := q
      obtain ⟨rfl, rfl, hended, hunder'⟩ := hq
      have hlen' := given_fits hshort
      have hless := turns_left hshort (hunder.idle k le_rfl) hlen' (hunder'.idle (k + 1) le_rfl)
      have hidle' : (reader.given size (k + 1)).length = size → reader.idle size (k + 1) = 0 := by
        intro hall
        rw [Reader.given_succ, List.length_append] at hall
        rw [Reader.idle, if_neg]
        intro hnil
        rw [hnil, List.length_nil] at hall
        omega
      cases ended with
      | true =>
        have hall := hended rfl
        exact Failing.Spec.pure fun w h => ⟨k + 1, ⟨rfl, hall, hidle' hall, hunder'⟩, h⟩
      | false => exact ih hunder' hlen' hidle' (by omega)
    · have hall : (reader.given size k).length = size := by omega
      exact Failing.Spec.pure fun w h => ⟨k, ⟨rfl, hall, hidle hall, hunder⟩, h⟩

def Checked (log : List Called) (A : Archive → Prop) (w : World) : Prop :=
  ∃ calls, w.log = log ++ calls ++ [⟨.context, none⟩] ∧
    (∀ c ∈ calls, c.failed = none ∧ c.kind ≠ .closeReader) ∧ A w.archive

theorem checkContext_checked : Failing.Spec (Open log k A) (checkContext o)
    (fun _ => Checked log A) (fun _ => Refused log D) := by
  refine call_spec (by simp) fun w h => ?_
  obtain ⟨calls, hlog, hcalls⟩ := h.calls
  exact ⟨calls, by rw [World.called_log, hlog], hcalls, h.written⟩

theorem verifyEnd_open {checksum : Text} {copied : Bytes} {turns : Nat}
    (hunder : reader.Underway size k) (hcopied : reader.given size k = copied)
    (hlen : copied.length = size) (hturns : turns + reader.idle size k = 100)
    (hD : D → ∃ bytes, reader.Delivers size bytes ∧ p.sha256 bytes = checksum) :
    Failing.Spec (Open log k A) (verifyEnd p o reader checksum copied turns)
      (fun _ w => (reader.Delivers size copied ∧ p.sha256 copied = checksum) ∧ Checked log A w)
      (fun _ => Refused log D) := by
  induction turns generalizing k with
  | zero =>
    have hless := hunder.idle k le_rfl
    omega
  | succ turns ih =>
    have hasked : asked size (reader.given size k).length = 1 := by
      rw [asked, if_neg]
      rw [hcopied]
      omega
    have hnext : ∀ {e : ExportError}, ¬ reader.GoesOn size k ∨ ¬ (reader.answer size k).1 = [] →
        reader.answer size k ≠ ([], some .eof) →
        Failing.Spec (Open log (k + 1) A) (Failing.fail e : Exporting Unit)
          (fun _ w => (reader.Delivers size copied ∧ p.sha256 copied = checksum) ∧ Checked log A w)
          (fun _ => Refused log D) := by
      intro e hstop hend
      refine refuse fun hd => ?_
      obtain ⟨bytes, ⟨n, hn⟩, -⟩ := hD hd
      obtain ⟨rfl, hended⟩ | ⟨hgoes, -, hle⟩ := hn.next hunder
      · exact hend hended
      · obtain hstop | hdata := hstop
        · exact hstop hgoes
        · have hpos := List.length_pos_of_ne_nil hdata
          rw [Reader.given_succ, List.length_append, hcopied] at hle
          omega
    refine (call_open (by simp)).bind fun _ => ?_
    refine (read_open _).bind fun q => Failing.Spec.assume fun hq => ?_
    rw [← hasked] at hq
    change q = reader.answer size k at hq
    obtain ⟨chunk, readErr⟩ := q
    by_cases hmore : chunk ≠ []
    · simp only [if_pos hmore]
      refine hnext (.inr ?_) ?_
      · rw [← hq]
        exact hmore
      · rw [← hq]
        intro hend
        exact hmore (congrArg Prod.fst hend)
    obtain rfl : chunk = [] := not_not.mp hmore
    simp only [if_neg hmore]
    have hgiven : reader.given size (k + 1) = copied := by
      rw [Reader.given_succ, ← hq, List.append_nil, hcopied]
    have hidle : reader.idle size (k + 1) = reader.idle size k + 1 := by
      rw [Reader.idle, ← hq, if_pos rfl]
    cases readErr with
    | none =>
      have hgoes : reader.GoesOn size k := .inl (by rw [← hq])
      by_cases hlast : turns = 0
      · -- The hundredth read in a row without progress.
        subst hlast
        refine refuse fun hd => ?_
        obtain ⟨bytes, ⟨n, hn⟩, -⟩ := hD hd
        obtain ⟨rfl, hended⟩ | ⟨-, hless, -⟩ := hn.next hunder
        · rw [← hq] at hended
          cases hended
        · omega
      · exact ih (hunder.succ hgoes (by omega)) hgiven (by omega)
    | some e =>
      cases e with
      | eof =>
        have hdelivers : reader.Delivers size copied := ⟨k, hunder, hcopied, hlen, hq.symm⟩
        dsimp only
        split_ifs with hsum
        · refine refuse fun hd => ?_
          obtain ⟨bytes, ⟨n, hn⟩, hbytes⟩ := hD hd
          obtain ⟨rfl, -⟩ | ⟨hgoes, -, -⟩ := hn.next hunder
          · rw [← hn.given, hcopied] at hbytes
            exact hsum hbytes
          · exact Reader.not_goesOn_of_ended hq.symm hgoes
        · exact checkContext_checked.of_post fun _ w h => ⟨⟨hdelivers, not_not.mp hsum⟩, h⟩
      | other code =>
        refine hnext (.inl ?_) ?_
        · rintro (hnone | ⟨heof, -, -⟩)
          · rw [← hq] at hnone
            cases hnone
          · rw [← hq] at heof
            cases heof
        · rw [← hq]
          intro hend
          cases hend

theorem scoreEntry_open {pdf : ExportPDF}
    (hD : D → ∃ bytes, Recorded p pdf reader bytes) :
    Failing.Spec (Open log 0 (fun a' => a' = a)) (scoreEntry p o pdf reader)
      (fun _ w => ∃ bytes, Recorded p pdf reader bytes ∧
        Checked log (Copied a pdf.path bytes) w)
      (fun _ => Refused log D) := by
  have hdelivers : D → ∃ bytes, reader.Delivers pdf.sizeBytes.toNat bytes := by
    intro hd
    obtain ⟨bytes, hbytes, -⟩ := hD hd
    exact ⟨bytes, hbytes⟩
  refine (createHeader_open (B := Copied a pdf.path []) fun a' h => ?_).bind fun _ => ?_
  · subst h
    exact ⟨[], rfl, rfl⟩
  have hturns : 100 * (pdf.sizeBytes.toNat - (reader.given pdf.sizeBytes.toNat 0).length) +
      (100 - reader.idle pdf.sizeBytes.toNat 0) ≤ 100 * (pdf.sizeBytes.toNat + 1) := by
    rw [Reader.given, Reader.idle, List.length_nil]
    omega
  refine (copyScore_open hdelivers Reader.Underway.start (Nat.zero_le _) (fun _ => rfl)
    hturns).bind fun copied => Failing.Spec.witness fun n => Failing.Spec.assume fun h => ?_
  obtain ⟨rfl, hlen, hidle, hunder⟩ := h
  refine (verifyEnd_open hunder rfl hlen (by omega) hD).of_post fun _ w h => ?_
  exact ⟨_, h.1, h.2⟩

def Finished (log : List Called) (A : Archive → Prop) (w : World) : Prop :=
  ∃ calls, w.log = log ++ calls ++ [⟨.context, none⟩, ⟨.closeReader, none⟩] ∧
    (∀ c ∈ calls, c.failed = none ∧ c.kind ≠ .closeReader) ∧ A w.archive

def Failed (log : List Called) (D : Prop) (w : World) : Prop :=
  ∃ calls failed, w.log = log ++ calls ++ [⟨.closeReader, failed⟩] ∧
    (∀ c ∈ calls, c.kind ≠ .closeReader) ∧
    (D → ∃ c ∈ calls ++ [⟨.closeReader, failed⟩], c.failed ≠ none)

theorem closeReader_checked : Failing.Spec (Checked log A) (call .closeReader o.closeReader)
    (fun _ => Finished log A) (fun _ => Failed log D) := by
  refine call_answered (fun w h => ?_) fun w code h => ?_
  · obtain ⟨calls, hlog, hcalls, ha⟩ := h
    refine ⟨calls, ?_, hcalls, ha⟩
    rw [World.called_log, hlog, List.append_assoc]
    rfl
  · obtain ⟨calls, hlog, hcalls, ha⟩ := h
    refine ⟨calls ++ [⟨.context, none⟩], some code, ?_, ?_, fun _ => ?_⟩
    · rw [World.called_log, hlog, List.append_assoc log]
    · exact calls_concat (fun c hc => (hcalls c hc).2) (by simp)
    · exact ⟨_, List.mem_append_right _ (List.mem_singleton_self _), by simp⟩

theorem closeReader_refused : Failing.Spec (Refused log D) (call .closeReader o.closeReader)
    (fun _ => Failed log D) (fun _ => Failed log D) := by
  have hclosed : ∀ w failed, Refused log D w → Failed log D (w.called .closeReader failed) := by
    intro w failed h
    obtain ⟨calls, hlog, hcalls, hfailed⟩ := h
    refine ⟨calls, failed, by rw [World.called_log, hlog], hcalls, fun hd => ?_⟩
    obtain ⟨c, hc, hne⟩ := hfailed hd
    exact ⟨c, List.mem_append_left _ hc, hne⟩
  exact call_answered (fun w h => hclosed w none h) fun w code h => hclosed w (some code) h

theorem deferred_entry (log : List Called) {pdf : ExportPDF}
    (hD : D → ∃ bytes, Recorded p pdf reader bytes) :
    Failing.Spec (Open log 0 (fun a' => a' = a))
      (Failing.deferring (scoreEntry p o pdf reader) (call .closeReader o.closeReader) .join)
      (fun _ w => ∃ bytes, Recorded p pdf reader bytes ∧ Finished log (Copied a pdf.path bytes) w)
      (fun _ => Failed log D) := by
  refine Failing.Spec.deferring (scoreEntry_open hD) (fun _ => ?_) fun _ => closeReader_refused
  refine Failing.Spec.witness fun bytes => Failing.Spec.assume fun hbytes => ?_
  exact closeReader_checked.of_post fun _ w h => ⟨bytes, hbytes, h⟩

end Copying

theorem openObject_error {o : Outside} {key : Key} {w : World} {code : Nat}
    (h : o.openObject w.log.length key = .error code) :
    openObject o key w = (.error (.outside code), w.called .openObject (some code)) := by
  simp only [openObject, Failing.looking, h]
  rfl

theorem openObject_ok {o : Outside} {key : Key} {w : World} {reader : Reader}
    (h : o.openObject w.log.length key = .ok reader) :
    openObject o key w = (.ok reader, { w.called .openObject none with reads := 0 }) := by
  simp only [openObject, Failing.looking, h]
  rfl

def callsSince (w w' : World) : List Called := w'.log.drop w.log.length

def ReaderClosed (calls : List Called) : Prop :=
  calls = [] ∨ (∃ code, calls = [⟨.openObject, some code⟩]) ∨
    ∃ between failed, calls = ⟨.openObject, none⟩ :: between ++ [⟨.closeReader, failed⟩] ∧
      ∀ c ∈ between, c.kind ≠ .closeReader

/-- `writeExportScore` succeeds exactly when no call fails and the reader delivers the
score that is recorded. The bytes written are then those of the score, and the context
has been checked last of all. -/
theorem writeExportScore_exact (p : Packages) (o : Outside) (pdf : ExportPDF) (key : Key) (w : World)
    (hsize : 0 < pdf.sizeBytes) (hsha256 : ∀ bytes, isChecksum (p.sha256 bytes) = true) :
    ((writeExportScore p o pdf key w).1 = .ok () ↔
      (∀ c ∈ callsSince w (writeExportScore p o pdf key w).2, c.failed = none) ∧
        ∃ reader bytes, o.openObject w.log.length key = .ok reader ∧
          Recorded p pdf reader bytes) ∧
    ((writeExportScore p o pdf key w).1 = .ok () →
      ∃ reader bytes, o.openObject w.log.length key = .ok reader ∧ Recorded p pdf reader bytes ∧
        Copied w.archive pdf.path bytes (writeExportScore p o pdf key w).2.archive ∧
        [⟨.context, none⟩, ⟨.closeReader, none⟩] <:+
          callsSince w (writeExportScore p o pdf key w).2) ∧
    ReaderClosed (callsSince w (writeExportScore p o pdf key w).2) := by
  by_cases hsum : isChecksum pdf.checksumSHA256 = false
  · have hrun : writeExportScore p o pdf key w =
        (.error (.new "invalid export asset checksum"), w) := by
      rw [writeExportScore, if_neg (by omega), if_pos hsum]
      rfl
    rw [hrun]
    refine ⟨⟨fun h => ?_, fun h => ?_⟩, fun h => ?_, .inl ?_⟩
    · cases h
    · obtain ⟨-, reader, bytes, -, -, hbytes⟩ := h
      rw [← hbytes, hsha256] at hsum
      cases hsum
    · cases h
    · exact List.drop_length
  cases hopen : o.openObject w.log.length key with
  | error code =>
    have hrun : writeExportScore p o pdf key w =
        (.error (.outside code), w.called .openObject (some code)) := by
      rw [writeExportScore, if_neg (by omega), if_neg hsum]
      exact Failing.bind_error (openObject_error hopen)
    rw [hrun]
    refine ⟨⟨fun h => ?_, fun h => ?_⟩, fun h => ?_, .inr (.inl ⟨code, ?_⟩)⟩
    · cases h
    · obtain ⟨-, reader, bytes, hreader, -⟩ := h
      cases hreader
    · cases h
    · rw [callsSince, World.called_log, List.drop_left]
  | ok reader =>
    have hrun : writeExportScore p o pdf key w =
        Failing.deferring (scoreEntry p o pdf reader) (call .closeReader o.closeReader) .join
          { w.called .openObject none with reads := 0 } := by
      rw [writeExportScore, if_neg (by omega), if_neg hsum]
      exact Failing.bind_ok (openObject_ok hopen)
    rw [hrun]
    obtain ⟨hok, herror⟩ := deferred_entry (p := p) (o := o) (a := w.archive)
      (D := ∃ bytes, Recorded p pdf reader bytes) (w.log ++ [⟨.openObject, none⟩]) id
      { w.called .openObject none with reads := 0 } ⟨⟨[], by simp [World.called], by simp⟩, rfl, rfl⟩
    rcases hresult : Failing.deferring (scoreEntry p o pdf reader)
      (call .closeReader o.closeReader) .join { w.called .openObject none with reads := 0 }
      with ⟨e | u, w'⟩
    · obtain ⟨calls, failed, hlog, hcalls, hfailed⟩ := herror e w' hresult
      have hsince : callsSince w w' =
          ⟨.openObject, none⟩ :: calls ++ [⟨.closeReader, failed⟩] := by
        rw [callsSince, hlog, List.append_assoc, List.append_assoc, List.drop_left]
        rfl
      refine ⟨⟨fun h => ?_, fun h => ?_⟩, fun h => ?_, .inr (.inr ⟨calls, failed, hsince, hcalls⟩)⟩
      · cases h
      · obtain ⟨hnone, reader', bytes, hreader, hbytes⟩ := h
        obtain rfl := Except.ok.inj hreader
        obtain ⟨c, hc, hne⟩ := hfailed ⟨bytes, hbytes⟩
        rw [hsince] at hnone
        exact absurd (hnone c (List.mem_cons_of_mem _ hc)) hne
      · cases h
    · obtain ⟨bytes, hbytes, calls, hlog, hcalls, hwritten⟩ := hok u w' hresult
      have hsince : callsSince w w' = ⟨.openObject, none⟩ :: (calls ++ [⟨.context, none⟩]) ++
          [⟨.closeReader, none⟩] := by
        rw [callsSince, hlog, List.append_assoc, List.append_assoc, List.drop_left]
        simp
      refine ⟨⟨fun _ => ⟨?_, reader, bytes, rfl, hbytes⟩, fun _ => rfl⟩,
        fun _ => ⟨reader, bytes, rfl, hbytes, hwritten, ?_⟩, .inr (.inr ⟨_, none, hsince, ?_⟩)⟩
      · rw [hsince]
        intro c hc
        simp only [List.cons_append, List.mem_cons, List.mem_append, List.not_mem_nil,
          or_false] at hc
        obtain rfl | (hc | rfl) | rfl := hc
        · rfl
        · exact (hcalls c hc).1
        · rfl
        · rfl
      · rw [hsince]
        exact ⟨⟨.openObject, none⟩ :: calls, by simp⟩
      · exact calls_concat (fun c hc => (hcalls c hc).2) (by simp)

def oneByte : Reader where
  read k size := if k = 0 then ([], none) else if k = 1 then ([1].take size, some .eof)
    else ([], some .eof)
  fits k size := by
    split_ifs
    · exact Nat.zero_le _
    · exact List.length_take_le _ _
    · exact Nat.zero_le _

def oneBytePackages : Packages where
  isFormat _ := false
  parse _ := .error 0
  formatTime _ := []
  marshal _ := .ok []
  sha256 _ := "4bf5122f344554c53bde2ebb8cd2b7e3d1600ad631c385a5d7cce23c7785459a".toList

def willing : Outside where
  cancelled _ := none
  page _ := none
  openObject _ _ := .ok oneByte
  closeReader _ := none
  write _ := none
  commit _ := none

def onePDF : ExportPDF where
  path := "scores/score-a-12345678-1.pdf".toList
  originalFilename := "a.pdf".toList
  sizeBytes := 1
  checksumSHA256 := "4bf5122f344554c53bde2ebb8cd2b7e3d1600ad631c385a5d7cce23c7785459a".toList
  pageCount := 1
  uploadedAt := 0

theorem writeExportScore_exact_byte :
    (∀ c ∈ callsSince World.start
      (writeExportScore oneBytePackages willing onePDF 7 World.start).2, c.failed = none) ∧
    ∃ reader bytes, willing.openObject 0 7 = .ok reader ∧
      Recorded oneBytePackages onePDF reader bytes ∧
      Copied World.start.archive onePDF.path bytes
        (writeExportScore oneBytePackages willing onePDF 7 World.start).2.archive := by
  obtain ⟨hiff, hwritten, -⟩ := writeExportScore_exact oneBytePackages willing onePDF 7
    World.start (by decide)
    fun _ => (by decide : isChecksum onePDF.checksumSHA256 = true)
  have hok : (writeExportScore oneBytePackages willing onePDF 7 World.start).1 = .ok () := by
    decide +kernel
  obtain ⟨reader, bytes, hopen, hrecorded, hcopied, -⟩ := hwritten hok
  exact ⟨(hiff.mp hok).1, reader, bytes, hopen, hrecorded, hcopied⟩

end Noted.Export
