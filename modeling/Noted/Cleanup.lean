import Noted.Integrity
import Noted.Library.Batches

/-!
# Runs of the import cleanup (internal/app/imports.go)

`cleanupImports` run after run, with no other call between: a run expires drafts, reads
the oldest rows of the deletion queue, and deletes the file of each key that nothing
refers to. A delete that fails is counted in `attempts`, which no statement reads. Rows
queued at one time are read in any order, and in each run in another.
-/

namespace Noted

open Library

/-- The database and the files at a time. No row of the queue is from the future. -/
structure Files where
  db : Db
  store : Key → Option Bytes
  clock : Time
  past : ∀ q ∈ db.queue, q.queuedAt ≤ clock

/-- What each run reads when it asks for the queue in its order. -/
structure Orders where
  rows : Nat → Db → List QueueRow
  ordered : ∀ i db, OrderedQueue db (rows i db)

theorem time_le_of_place {t t' r r' : Nat} (h : 3 * t + r ≤ 3 * t' + r') (hr' : r' < 3) :
    t ≤ t' ∧ (t = t' → r ≤ r') := by
  omega

def ranked (rank : QueueRow → Nat) (rows : List QueueRow) : List QueueRow :=
  rows.mergeSort fun p q => 3 * p.queuedAt + rank p ≤ 3 * q.queuedAt + rank q

theorem ranked_pairwise (rank : QueueRow → Nat) (rows : List QueueRow) :
    (ranked rank rows).Pairwise fun p q => 3 * p.queuedAt + rank p ≤ 3 * q.queuedAt + rank q := by
  refine (List.pairwise_mergeSort ?_ ?_ rows).imp of_decide_eq_true
  · intro a b c hab hbc
    exact decide_eq_true ((of_decide_eq_true hab).trans (of_decide_eq_true hbc))
  · intro a b
    rw [Bool.or_eq_true, decide_eq_true_iff, decide_eq_true_iff]
    exact Nat.le_total _ _

def Orders.ranked (rank : Nat → QueueRow → Nat) (hrank : ∀ i q, rank i q < 3) : Orders where
  rows i db := Noted.ranked (rank i) db.queue.rows
  ordered i db := by
    refine ⟨List.mergeSort_perm .., (ranked_pairwise (rank i) db.queue.rows).imp ?_⟩
    exact fun hle => (time_le_of_place hle (hrank i _)).1

namespace Db

variable {db : Db} {now : Time} {key : Key}

theorem enqueue_rows (db : Db) (now : Time) (key : Key) : ∃ new,
    (db.enqueue now key).queue.rows = db.queue.rows ++ new ∧
      ∀ q ∈ new, q.queuedAt = now ∧ q.storageKey = key := by
  rw [enqueue_queue, Table.insertNew]
  cases hinsert : db.queue.insert? ⟨key, now, 0⟩ with
  | none => exact ⟨[], (List.append_nil _).symm, fun q hq => by cases hq⟩
  | some queue =>
    refine ⟨[⟨key, now, 0⟩], (Table.insert?_eq_some.mp hinsert).2, ?_⟩
    intro q hq
    obtain rfl := List.mem_singleton.mp hq
    exact ⟨rfl, rfl⟩

theorem enqueue_foldl_rows (now : Time) (keys : List Key) (db : Db) : ∃ new,
    (keys.foldl (fun db key => db.enqueue now key) db).queue.rows = db.queue.rows ++ new ∧
      ∀ q ∈ new, q.queuedAt = now ∧ q.storageKey ∈ keys := by
  induction keys generalizing db with
  | nil => exact ⟨[], (List.append_nil _).symm, fun q hq => by cases hq⟩
  | cons key keys ih =>
    obtain ⟨first, hfirst, hnow⟩ := enqueue_rows db now key
    obtain ⟨rest, hrest, hlater⟩ := ih (db.enqueue now key)
    refine ⟨first ++ rest, ?_, ?_⟩
    · rw [List.foldl_cons, hrest, hfirst, List.append_assoc]
    · intro q hq
      obtain hq | hq := List.mem_append.mp hq
      · obtain ⟨htime, hkey⟩ := hnow q hq
        exact ⟨htime, List.mem_cons.mpr (Or.inl hkey)⟩
      · obtain ⟨htime, hkey⟩ := hlater q hq
        exact ⟨htime, List.mem_cons_of_mem _ hkey⟩

theorem expireDrafts_rows (now : Time) (db : Db) : ∃ new,
    (expireDrafts now db).queue.rows = db.queue.rows ++ new ∧
      ∀ q ∈ new, q.queuedAt = now ∧ db.referenced q.storageKey = true := by
  obtain ⟨new, hrows, hnew⟩ := enqueue_foldl_rows now
    (((db.deleteDrafts fun d => d.updatedAt + sevenDays < now).assets.rows.filter fun a =>
      (db.deleteDrafts fun d => d.updatedAt + sevenDays < now).orphan a &&
        !(db.deleteDrafts fun d => d.updatedAt + sevenDays < now).pdfHolds a.storageKey).map
      AssetRow.storageKey) _
  refine ⟨new, hrows, ?_⟩
  intro q hq
  obtain ⟨htime, hkey⟩ := hnew q hq
  refine ⟨htime, ?_⟩
  obtain ⟨a, ha, hk⟩ := List.mem_map.mp hkey
  have hheld : db.assetHolds q.storageKey = true := by
    rw [← hk]
    exact List.any_eq_true.mpr ⟨a, List.mem_of_mem_filter ha, beq_self_eq_true _⟩
  rw [referenced, hheld, Bool.true_or]

end Db

namespace Files

variable (f : Files)

def wait (elapsed : Time) : Files :=
  { f with
    clock := f.clock + elapsed
    past := fun q hq => Nat.le_add_right_of_le (f.past q hq) }

def expire : Files where
  db := expireDrafts f.clock f.db
  store := f.store
  clock := f.clock
  past := by
    obtain ⟨new, hrows, hnew⟩ := Db.expireDrafts_rows f.clock f.db
    intro q hq
    rw [← Table.mem_rows, hrows] at hq
    obtain hq | hq := List.mem_append.mp hq
    · exact f.past q hq
    · exact Nat.le_of_eq (hnew q hq).1

def countAttempt (key : Key) : Files where
  db := f.db.countAttempt key
  store := f.store
  clock := f.clock
  past := by
    intro q hq
    rw [Db.countAttempt_queue] at hq
    simp only [Table.mem_modify] at hq
    obtain ⟨r, hr, rfl⟩ := hq
    split_ifs <;> exact f.past r hr

def remove (key : Key) : Files where
  db := f.db.dequeue key
  store := fun k => if k = key then none else f.store k
  clock := f.clock
  past := fun q hq => f.past q (Table.mem_delete.mp hq).1

def cleanKey (fails : Key → Bool) (key : Key) : Files :=
  if f.db.referenced key then f
  else if fails key then f.countAttempt key
  else f.remove key

def cleanupImports (rows : Db → List QueueRow) (fails : Key → Bool) : Files :=
  (queuedKeys (rows f.expire.db)).foldl (fun f key => f.cleanKey fails key) f.expire

def after (orders : Orders) (fails : Key → Bool) (gap : Nat → Time) : Nat → Files
  | 0 => f
  | i + 1 => ((after orders fails gap i).wait (gap i + 1)).cleanupImports (orders.rows i) fails

/-- The files when at the same times drafts expire and nothing is cleaned up. -/
def expired (gap : Nat → Time) : Nat → Files
  | 0 => f
  | i + 1 => ((expired gap i).wait (gap i + 1)).expire

/-- A key whose row a run leaves in the queue: its delete fails, or something still
refers to it. -/
def blocked (fails : Key → Bool) (gap : Nat → Time) (i : Nat) (key : Key) : Bool :=
  fails key || (f.expired gap (i + 1)).db.referenced key

/-- The rounds that clear a queue of that many rows if each row needs one look. -/
def rounds : Nat := (f.db.queue.rows.length + 99) / 100

def keys : List Key := f.db.queue.rows.map QueueRow.storageKey

/-- Every key queued that nothing refers to, and whose delete does not fail, is gone from
the files and from the queue after so many runs. -/
def Cleared (orders : Orders) (fails : Key → Bool) (gap : Nat → Time) (n : Nat) : Prop :=
  ∀ key ∈ f.keys, f.db.referenced key = false → fails key = false →
    (f.after orders fails gap n).store key = none ∧ key ∉ (f.after orders fails gap n).keys

/-- How many of the rows queued at a time so many runs leave at the worst: each takes as
many as the older rows leave room for in its hundred, the blocked ones of them first. -/
def leftOf (fails : Key → Bool) (gap : Nat → Time) : Nat → Time → Nat :=
  left 100 (fun t => f.db.queue.rows.countP fun q => q.queuedAt = t) fun i t =>
    f.db.queue.rows.countP fun q => f.blocked fails gap i q.storageKey && q.queuedAt = t

section Facts

variable {f} {g : Files} {orders : Orders} {fails : Key → Bool} {gap : Nat → Time} {i : Nat}
  {key k : Key}

def Agrees (f g : Files) : Prop := ∃ queue, g.db = { f.db with queue := queue }

theorem Agrees.refl (f : Files) : f.Agrees f := ⟨f.db.queue, rfl⟩

theorem Agrees.referenced (h : f.Agrees g) (k : Key) :
    g.db.referenced k = f.db.referenced k := by
  obtain ⟨queue, heq⟩ := h
  rw [heq]
  rfl

theorem Agrees.trans {e : Files} (h : f.Agrees g) (h' : g.Agrees e) : f.Agrees e := by
  obtain ⟨queue, heq⟩ := h
  obtain ⟨queue', heq'⟩ := h'
  exact ⟨queue', by rw [heq', heq]⟩

theorem Agrees.expire (h : f.Agrees g) (hclock : g.clock = f.clock) :
    f.expire.Agrees g.expire := by
  obtain ⟨queue, heq⟩ := h
  have hg : g.expire.db = expireDrafts f.clock { f.db with queue := queue } := by
    rw [← heq, ← hclock]
    rfl
  obtain ⟨first, hfirst, -⟩ := Db.collectOrphans_eq
    (f.db.deleteDrafts fun d => d.updatedAt + sevenDays < f.clock) f.clock
  obtain ⟨second, hsecond, -⟩ := Db.collectOrphans_eq
    (({ f.db with queue := queue } : Db).deleteDrafts fun d => d.updatedAt + sevenDays < f.clock)
    f.clock
  have hf : f.expire.db = _ := hfirst
  have hg' : expireDrafts f.clock { f.db with queue := queue } = _ := hsecond
  refine ⟨second, ?_⟩
  rw [hg, hg', hf]
  rfl

def entry (q : QueueRow) : Key × Time := (q.storageKey, q.queuedAt)

def entries (f : Files) : List (Key × Time) := f.db.queue.rows.map entry

theorem keys_eq (f : Files) : f.keys = f.entries.map Prod.fst := by
  rw [keys, entries, List.map_map]
  rfl

theorem nodup_entries (f : Files) : f.entries.Nodup := by
  apply List.Nodup.of_map Prod.fst
  rw [← keys_eq]
  exact f.db.queue.nodup

theorem mem_entries {q : QueueRow} (h : q ∈ f.db.queue) : entry q ∈ f.entries :=
  List.mem_map_of_mem h

theorem mem_keys {e : Key × Time} (h : e ∈ f.entries) : e.1 ∈ f.keys := by
  rw [keys_eq]
  exact List.mem_map_of_mem h

theorem entry_unique {e d : Key × Time} (he : e ∈ f.entries) (hd : d ∈ f.entries)
    (h : e.1 = d.1) : e = d := by
  have hnodup : (f.entries.map Prod.fst).Nodup := by
    rw [← keys_eq]
    exact f.db.queue.nodup
  exact List.inj_on_of_nodup_map hnodup he hd h

theorem entries_countAttempt : (f.countAttempt key).entries = f.entries := by
  have hsame : ∀ q : QueueRow, entry (if q.storageKey == key then
      { q with attempts := q.attempts + 1 } else q) = entry q := by
    intro q
    split_ifs <;> rfl
  show ((f.db.queue.rows.map _).map entry) = _
  rw [List.map_map]
  exact List.map_congr_left fun q _ => hsame q

theorem entries_remove : (f.remove key).entries = f.entries.filter fun e => e.1 ≠ key := by
  show ((f.db.queue.rows.filter _).map entry) = _
  rw [entries, List.filter_map]
  congr 1
  apply List.filter_congr
  intro q _
  by_cases hk : q.storageKey = key <;> simp [entry, hk]

def stays (f : Files) (fails : Key → Bool) (key : Key) : Bool :=
  fails key || f.db.referenced key

theorem Agrees.stays (h : f.Agrees g) : g.stays fails = f.stays fails := by
  funext key
  rw [Files.stays, Files.stays, h.referenced]

theorem cleanKey_agrees (f : Files) (fails : Key → Bool) (key : Key) :
    f.Agrees (f.cleanKey fails key) := by
  unfold cleanKey
  split_ifs
  · exact .refl f
  · exact ⟨_, rfl⟩
  · exact ⟨_, rfl⟩

theorem cleanKey_of_stays (hstays : f.stays fails key = true) :
    (f.cleanKey fails key).entries = f.entries ∧ (f.cleanKey fails key).store = f.store := by
  unfold cleanKey
  by_cases href : f.db.referenced key = true
  · rw [if_pos href]
    exact ⟨rfl, rfl⟩
  · have hfails : fails key = true := (Bool.or_eq_true _ _ ▸ hstays).resolve_right href
    rw [if_neg href, if_pos hfails]
    exact ⟨entries_countAttempt, rfl⟩

theorem cleanKey_of_not (hstays : f.stays fails key = false) :
    f.cleanKey fails key = f.remove key := by
  obtain ⟨hfails, href⟩ := Bool.or_eq_false_iff.mp hstays
  rw [cleanKey, href, hfails]
  rfl

theorem cleanKey_entries (f : Files) (fails : Key → Bool) (key : Key) :
    (f.cleanKey fails key).entries =
      f.entries.filter fun e => e.1 ≠ key || f.stays fails e.1 := by
  cases hstays : f.stays fails key with
  | true =>
    rw [(cleanKey_of_stays hstays).1]
    symm
    apply List.filter_eq_self.mpr
    intro e _
    by_cases hk : e.1 = key
    · rw [hk, hstays, Bool.or_true]
    · simp [hk]
  | false =>
    rw [cleanKey_of_not hstays, entries_remove]
    apply List.filter_congr
    intro e _
    by_cases hk : e.1 = key
    · rw [hk, hstays]
      simp
    · simp [hk]

theorem cleanKey_store (f : Files) (fails : Key → Bool) (key k : Key) :
    (f.cleanKey fails key).store k =
      if k = key ∧ f.stays fails k = false then none else f.store k := by
  cases hstays : f.stays fails key with
  | true =>
    rw [(cleanKey_of_stays hstays).2, if_neg]
    intro h
    rw [h.1, hstays] at h
    exact absurd h.2 (by decide)
  | false =>
    rw [cleanKey_of_not hstays]
    show (if k = key then none else f.store k) = _
    by_cases hk : k = key
    · rw [if_pos hk, if_pos ⟨hk, hk ▸ hstays⟩]
    · rw [if_neg hk, if_neg fun h => hk h.1]

theorem foldl_cleanKey (fails : Key → Bool) (batch : List Key) (f : Files) :
    f.Agrees (batch.foldl (fun f key => f.cleanKey fails key) f) ∧
      (batch.foldl (fun f key => f.cleanKey fails key) f).entries =
        f.entries.filter (fun e => e.1 ∉ batch || f.stays fails e.1) ∧
      ∀ k, (batch.foldl (fun f key => f.cleanKey fails key) f).store k =
        if k ∈ batch ∧ f.stays fails k = false then none else f.store k := by
  induction batch generalizing f with
  | nil =>
    refine ⟨.refl f, ?_, fun k => ?_⟩
    · simp
    · simp
  | cons key batch ih =>
    obtain ⟨hagrees, hentries, hstore⟩ := ih (f.cleanKey fails key)
    have hfirst := cleanKey_agrees f fails key
    rw [hfirst.stays] at hentries hstore
    refine ⟨hfirst.trans hagrees, ?_, fun k => ?_⟩
    · rw [List.foldl_cons, hentries, cleanKey_entries, List.filter_filter]
      apply List.filter_congr
      intro e _
      simp only [List.mem_cons, not_or]
      cases f.stays fails e.1 <;> simp [Bool.and_comm]
    · rw [List.foldl_cons, hstore k, cleanKey_store]
      simp only [List.mem_cons]
      cases f.stays fails k with
      | true => simp
      | false => by_cases hk : k = key <;> simp [hk]

theorem mem_queuedKeys {rows : List QueueRow} (hrows : OrderedQueue f.db rows) {e : Key × Time}
    (he : e ∈ f.entries) : e.1 ∈ queuedKeys rows ↔ e ∈ (rows.map entry).take 100 := by
  rw [queuedKeys, ← List.map_take]
  constructor
  · intro hmem
    obtain ⟨q, hq, hkey⟩ := List.mem_map.mp hmem
    have hqueued : entry q ∈ f.entries :=
      mem_entries (hrows.1.mem_iff.mp (List.mem_of_mem_take hq))
    rw [← entry_unique hqueued he hkey]
    exact List.mem_map_of_mem hq
  · intro hmem
    obtain ⟨q, hq, rfl⟩ := List.mem_map.mp hmem
    exact List.mem_map_of_mem hq

/-- A run is a round of its queue after the expiry. -/
theorem cleanupImports_entries (f : Files) (rows : Db → List QueueRow) (fails : Key → Bool)
    (hrows : OrderedQueue f.expire.db (rows f.expire.db)) :
    (f.cleanupImports rows fails).entries =
      workBatch 100 (fun e => f.expire.stays fails e.1) ((rows f.expire.db).map entry)
        f.expire.entries := by
  rw [cleanupImports, (foldl_cleanKey fails _ f.expire).2.1, workBatch]
  apply List.filter_congr
  intro e he
  have hmem := mem_queuedKeys hrows he
  by_cases hbatch : e ∈ ((rows f.expire.db).map entry).take 100
  · simp [hbatch, hmem.mpr hbatch]
  · simp [hbatch, mt hmem.mp hbatch]

theorem cleanupImports_agrees (f : Files) (rows : Db → List QueueRow) (fails : Key → Bool) :
    f.expire.Agrees (f.cleanupImports rows fails) :=
  (foldl_cleanKey fails (queuedKeys (rows f.expire.db)) f.expire).1

theorem cleanupImports_clock (f : Files) (rows : Db → List QueueRow) (fails : Key → Bool) :
    (f.cleanupImports rows fails).clock = f.clock := by
  have hfold : ∀ (batch : List Key) (f : Files),
      (batch.foldl (fun f key => f.cleanKey fails key) f).clock = f.clock := by
    intro batch
    induction batch with
    | nil => exact fun f => rfl
    | cons key batch ih =>
      intro f
      rw [List.foldl_cons, ih]
      unfold cleanKey
      split_ifs <;> rfl
  exact hfold _ f.expire

theorem expire_entries (f : Files) :
    ∃ new, f.expire.entries = f.entries ++ new ∧
      ∀ e ∈ new, e.2 = f.clock ∧ f.db.referenced e.1 = true := by
  obtain ⟨new, hrows, hnew⟩ := Db.expireDrafts_rows f.clock f.db
  refine ⟨new.map entry, ?_, ?_⟩
  · show (expireDrafts f.clock f.db).queue.rows.map _ = _
    rw [hrows, List.map_append]
    rfl
  · intro e he
    obtain ⟨q, hq, rfl⟩ := List.mem_map.mp he
    exact hnew q hq

theorem referenced_expire (h : f.expire.db.referenced k = true) : f.db.referenced k = true := by
  obtain ⟨queue, heq, -⟩ := Db.collectOrphans_eq
    (f.db.deleteDrafts fun d => d.updatedAt + sevenDays < f.clock) f.clock
  have hdb : f.expire.db = _ := heq
  rw [hdb] at h
  obtain hasset | hpdf := Bool.or_eq_true _ _ ▸ h
  · obtain ⟨a, ha, hk⟩ := List.any_eq_true.mp hasset
    have hheld : f.db.assetHolds k = true :=
      List.any_eq_true.mpr ⟨a, (Table.mem_delete.mp ha).1, hk⟩
    rw [Db.referenced, hheld, Bool.true_or]
  · have hheld : f.db.pdfHolds k = true := hpdf
    rw [Db.referenced, hheld, Bool.or_true]

def reading (f : Files) (orders : Orders) (fails : Key → Bool) (gap : Nat → Time) (i : Nat) :
    Files :=
  ((f.after orders fails gap i).wait (gap i + 1)).expire

theorem after_succ (f : Files) (orders : Orders) (fails : Key → Bool) (gap : Nat → Time) (i : Nat) :
    f.after orders fails gap (i + 1) =
      (queuedKeys (orders.rows i (f.reading orders fails gap i).db)).foldl
        (fun f key => f.cleanKey fails key) (f.reading orders fails gap i) := rfl

/-- Runs leave everything but the queue and the files as the expiries do. -/
theorem after_agrees (f : Files) (orders : Orders) (fails : Key → Bool) (gap : Nat → Time)
    (i : Nat) : (f.expired gap i).Agrees (f.after orders fails gap i) ∧
      (f.after orders fails gap i).clock = (f.expired gap i).clock := by
  induction i with
  | zero => exact ⟨.refl f, rfl⟩
  | succ i ih =>
    obtain ⟨hagrees, hclock⟩ := ih
    have hwait : ((f.after orders fails gap i).wait (gap i + 1)).clock =
        ((f.expired gap i).wait (gap i + 1)).clock := congrArg (· + (gap i + 1)) hclock
    have hexpire := Agrees.expire (f := (f.expired gap i).wait (gap i + 1))
      (g := (f.after orders fails gap i).wait (gap i + 1)) hagrees hwait
    refine ⟨hexpire.trans (cleanupImports_agrees _ _ fails), ?_⟩
    rw [after, cleanupImports_clock]
    exact hwait

theorem referenced_expired (h : (f.expired gap i).db.referenced k = true) :
    f.db.referenced k = true := by
  induction i with
  | zero => exact h
  | succ i ih => exact ih (referenced_expire (f := (f.expired gap i).wait (gap i + 1)) h)

theorem stays_reading (f : Files) (orders : Orders) (fails : Key → Bool) (gap : Nat → Time)
    (i : Nat) : (f.reading orders fails gap i).stays fails = f.blocked fails gap i := by
  obtain ⟨hagrees, hclock⟩ := after_agrees f orders fails gap i
  have hexpire := Agrees.expire (f := (f.expired gap i).wait (gap i + 1))
    (g := (f.after orders fails gap i).wait (gap i + 1)) hagrees
    (congrArg (· + (gap i + 1)) hclock)
  exact hexpire.stays

theorem clock_le_expired (f : Files) (gap : Nat → Time) (i : Nat) :
    f.clock ≤ (f.expired gap i).clock := by
  induction i with
  | zero => exact le_rfl
  | succ i ih => exact ih.trans (Nat.le_add_right _ _)

/-- What a run finds in the queue that the last one did not leave is later than all that
was queued at first, and its key had a reference then. -/
theorem reading_entries (f : Files) (orders : Orders) (fails : Key → Bool) (gap : Nat → Time)
    (i : Nat) : ∃ later, (f.reading orders fails gap i).entries =
      (f.after orders fails gap i).entries ++ later ∧
      ∀ e ∈ later, f.clock < e.2 ∧ f.db.referenced e.1 = true := by
  obtain ⟨later, hentries, hlater⟩ := expire_entries ((f.after orders fails gap i).wait (gap i + 1))
  refine ⟨later, hentries, fun e he => ?_⟩
  obtain ⟨htime, href⟩ := hlater e he
  obtain ⟨hagrees, hclock⟩ := after_agrees f orders fails gap i
  constructor
  · have hlast : e.2 = (f.expired gap i).clock + (gap i + 1) := by
      rw [htime, ← hclock]
      rfl
    rw [hlast]
    exact Nat.lt_of_le_of_lt (clock_le_expired f gap i) (Nat.lt_add_of_pos_right (Nat.succ_pos _))
  · rw [show ((f.after orders fails gap i).wait (gap i + 1)).db =
      (f.after orders fails gap i).db from rfl, hagrees.referenced] at href
    exact referenced_expired href

theorem mem_reading {e : Key × Time} (he : e.2 ≤ f.clock) :
    e ∈ (f.reading orders fails gap i).entries ↔ e ∈ (f.after orders fails gap i).entries := by
  obtain ⟨later, hentries, hlater⟩ := reading_entries f orders fails gap i
  rw [hentries, List.mem_append, or_iff_left]
  exact fun hmem => Nat.not_le.mpr (hlater e hmem).1 he

theorem blocked_stops (f : Files) (fails : Key → Bool) (gap : Nat → Time) (i : Nat) (key : Key)
    (h : f.blocked fails gap (i + 1) key = true) : f.blocked fails gap i key = true := by
  obtain hfails | href := Bool.or_eq_true _ _ ▸ h
  · rw [blocked, hfails, Bool.true_or]
  · rw [blocked, Bool.or_eq_true]
    exact Or.inr (referenced_expire (f := (f.expired gap (i + 1)).wait (gap (i + 1) + 1)) href)

theorem worked (f : Files) (orders : Orders) (fails : Key → Bool) (gap : Nat → Time) :
    Worked 100 Prod.snd f.clock (fun i e => f.blocked fails gap i e.1)
      (fun i => (f.reading orders fails gap i).entries)
      (fun i => (orders.rows i (f.reading orders fails gap i).db).map entry) where
  nodup i := nodup_entries _
  perm i := (orders.ordered i _).1.map entry
  sorted i := List.pairwise_map.mpr (orders.ordered i _).2
  next i := by
    obtain ⟨later, hentries, hlater⟩ := reading_entries f orders fails gap (i + 1)
    refine ⟨later, ?_, fun e he => (hlater e he).1⟩
    rw [hentries, after, cleanupImports_entries _ _ _ (orders.ordered i _),
      ← stays_reading f orders fails gap i]
    rfl
  stops i e := blocked_stops f fails gap i e.1

theorem countP_reading (f : Files) (orders : Orders) (fails : Key → Bool) (gap : Nat → Time)
    (p : Key × Time → Bool) (t : Time) (ht : t ≤ f.clock) :
    ((f.reading orders fails gap 0).entries.countP fun e => p e && e.2 = t) =
      f.db.queue.rows.countP fun q => p (entry q) && q.queuedAt = t := by
  obtain ⟨later, hentries, hlater⟩ := reading_entries f orders fails gap 0
  have hnone : later.countP (fun e => p e && e.2 = t) = 0 := by
    apply List.countP_eq_zero.mpr
    intro e he htime
    have hgt := (hlater e he).1
    rw [of_decide_eq_true (Bool.and_eq_true_iff.mp htime).2] at hgt
    exact absurd ht (Nat.not_le.mpr hgt)
  rw [hentries, List.countP_append, hnone, Nat.add_zero]
  show (f.db.queue.rows.map entry).countP _ = _
  rw [List.countP_map]
  rfl

theorem left_reading (f : Files) (orders : Orders) (fails : Key → Bool) (gap : Nat → Time)
    (i : Nat) {t : Time} (ht : t ≤ f.clock) :
    left 100 (size Prod.snd (f.reading orders fails gap 0).entries)
      (staying Prod.snd (fun i e => f.blocked fails gap i e.1)
        (f.reading orders fails gap 0).entries) i t = f.leftOf fails gap i t := by
  refine left_congr ?_ ?_ i t ht
  · intro t ht
    have hcount := countP_reading f orders fails gap (fun _ => true) t ht
    simp only [Bool.true_and] at hcount
    exact hcount
  · intro i t ht
    exact countP_reading f orders fails gap (fun e => f.blocked fails gap i e.1) t ht

theorem sum_left_reading (f : Files) (orders : Orders) (fails : Key → Bool) (gap : Nat → Time)
    (i : Nat) {q : QueueRow} (hq : q ∈ f.db.queue) :
    ∑ t ∈ Finset.range (q.queuedAt + 1),
      left 100 (size Prod.snd (f.reading orders fails gap 0).entries)
        (staying Prod.snd (fun i e => f.blocked fails gap i e.1)
          (f.reading orders fails gap 0).entries) i t =
      ∑ t ∈ Finset.range (q.queuedAt + 1), f.leftOf fails gap i t :=
  Finset.sum_congr rfl fun _ ht => left_reading f orders fails gap i
    ((Nat.lt_succ_iff.mp (Finset.mem_range.mp ht)).trans (f.past q hq))

theorem after_store (hkey : key ∈ f.keys) (hfree : ∀ i, f.blocked fails gap i key = false) :
    key ∈ (f.after orders fails gap i).keys ∨
      (f.after orders fails gap i).store key = none := by
  induction i with
  | zero => exact Or.inl hkey
  | succ i ih =>
    let g := f.reading orders fails gap i
    obtain ⟨-, hentries, hstore⟩ := foldl_cleanKey fails (queuedKeys (orders.rows i g.db)) g
    have hnot : g.stays fails key = false := by
      rw [stays_reading]
      exact hfree i
    have hgone : (f.after orders fails gap (i + 1)).store key =
        if key ∈ queuedKeys (orders.rows i g.db) then none
        else (f.after orders fails gap i).store key := by
      rw [after_succ, hstore key, hnot]
      simp only [and_true]
      rfl
    by_cases hbatch : key ∈ queuedKeys (orders.rows i g.db)
    · right
      rw [hgone, if_pos hbatch]
    · obtain hqueued | hnone := ih
      · left
        rw [keys_eq] at hqueued
        obtain ⟨e, he, rfl⟩ := List.mem_map.mp hqueued
        obtain ⟨later, hreading, -⟩ := reading_entries f orders fails gap i
        have hmem : e ∈ g.entries := by
          rw [hreading]
          exact List.mem_append_left _ he
        apply mem_keys
        rw [after_succ, hentries]
        exact List.mem_filter.mpr ⟨hmem, by simp [hbatch]⟩
      · right
        rw [hgone, if_neg hbatch, hnone]

theorem not_blocked (href : f.db.referenced key = false) (hfails : fails key = false) :
    ∀ i, f.blocked fails gap i key = false := by
  intro i
  rw [blocked, hfails, Bool.false_or, Bool.eq_false_iff]
  intro hstill
  rw [referenced_expired hstill] at href
  cases href

theorem after_entries {e : Key × Time} (he : e ∈ (f.after orders fails gap i).entries) :
    e ∈ f.entries ∨ f.db.referenced e.1 = true := by
  induction i with
  | zero => exact Or.inl he
  | succ i ih =>
    obtain ⟨later, hreading, hlater⟩ := reading_entries f orders fails gap i
    rw [after_succ, (foldl_cleanKey fails _ _).2.1, hreading] at he
    obtain hmem | hmem := List.mem_append.mp (List.mem_of_mem_filter he)
    · exact ih hmem
    · exact Or.inr (hlater e hmem).2

theorem mem_keys_after {q : QueueRow} (hq : q ∈ f.db.queue)
    (href : f.db.referenced q.storageKey = false) :
    q.storageKey ∈ (f.after orders fails gap i).keys ↔
      entry q ∈ (f.reading orders fails gap i).entries := by
  rw [mem_reading (f.past q hq)]
  constructor
  · intro hmem
    rw [keys_eq] at hmem
    obtain ⟨e, he, hkey⟩ := List.mem_map.mp hmem
    obtain hfirst | hheld := after_entries he
    · rw [← entry_unique hfirst (mem_entries hq) hkey]
      exact he
    · rw [hkey, href] at hheld
      cases hheld
  · exact mem_keys

/-- A row that can be deleted is gone once what is left up to its time fits into a batch. -/
theorem cleared_of_fits {q : QueueRow} (hq : q ∈ f.db.queue)
    (href : f.db.referenced q.storageKey = false) (hfails : fails q.storageKey = false) {n : Nat}
    (hi : i < n) (hfits : ∑ t ∈ Finset.range (q.queuedAt + 1), f.leftOf fails gap i t ≤ 100) :
    (f.after orders fails gap n).store q.storageKey = none ∧
      q.storageKey ∉ (f.after orders fails gap n).keys := by
  have hworked := worked f orders fails gap
  have hfree : ∀ i, f.blocked fails gap i q.storageKey = false := not_blocked href hfails
  have hgone : q.storageKey ∉ (f.after orders fails gap n).keys := by
    rw [mem_keys_after hq href]
    rw [← sum_left_reading f orders fails gap i hq] at hfits
    exact hworked.not_mem_next hi (f.past q hq)
      (hworked.not_mem_of_fits (a := entry q) (f.past q hq) hfree hfits)
  have hkey : q.storageKey ∈ f.keys := List.mem_map_of_mem hq
  exact ⟨(after_store hkey hfree).resolve_left hgone, hgone⟩

end Facts

section Worst

variable (f : Files) (fails : Key → Bool) (gap : Nat → Time) (key : Key)

/-- Of the rows of one time those that stay are read first, and a key's row last. -/
def lastRank (i : Nat) (q : QueueRow) : Nat :=
  if q.storageKey = key then 2 else if f.blocked fails gap i q.storageKey then 0 else 1

theorem lastRank_lt (i : Nat) (q : QueueRow) : f.lastRank fails gap key i q < 3 := by
  unfold lastRank
  split_ifs <;> omega

def lastOrders : Orders := Orders.ranked (f.lastRank fails gap key) (f.lastRank_lt fails gap key)

theorem lastOrders_pairwise (i : Nat) (db : Db) :
    ((f.lastOrders fails gap key).rows i db).Pairwise fun p q =>
      p.queuedAt ≤ q.queuedAt ∧ (p.queuedAt = q.queuedAt →
        f.lastRank fails gap key i p ≤ f.lastRank fails gap key i q) :=
  (ranked_pairwise (f.lastRank fails gap key i) db.queue.rows).imp fun hle =>
    time_le_of_place hle (f.lastRank_lt fails gap key i _)

variable {f fails gap} {q : QueueRow} {i n : Nat}

theorem lastRank_of_blocked {p : QueueRow} (hkey : p.storageKey ≠ key)
    (h : f.blocked fails gap i p.storageKey = true) : f.lastRank fails gap key i p = 0 := by
  rw [lastRank, if_neg hkey, if_pos h]

theorem blocked_of_lastRank {p : QueueRow} (h : f.lastRank fails gap key i p = 0) :
    f.blocked fails gap i p.storageKey = true := by
  unfold lastRank at h
  split_ifs at h with hkey hblocked
  exact hblocked

theorem key_of_lastRank {p : QueueRow} (h : 2 ≤ f.lastRank fails gap key i p) :
    p.storageKey = key := by
  unfold lastRank at h
  split_ifs at h with hkey
  · exact hkey
  · omega
  · omega

/-- In that order a row that can be deleted is left for as long as what is left at the
worst up to its time does not fit into a batch. -/
theorem stuck_of_full (hq : q ∈ f.db.queue) (href : f.db.referenced q.storageKey = false)
    (hfails : fails q.storageKey = false)
    (hfull : ∀ i < n, 100 < ∑ t ∈ Finset.range (q.queuedAt + 1), f.leftOf fails gap i t) :
    q.storageKey ∈ (f.after (f.lastOrders fails gap q.storageKey) fails gap n).keys := by
  let orders := f.lastOrders fails gap q.storageKey
  have hworked := worked f orders fails gap
  have hfree : ∀ i, f.blocked fails gap i q.storageKey = false := not_blocked href hfails
  rw [mem_keys_after hq href]
  refine hworked.mem_of_worst (a := entry q) (f.past q hq) ?_ ?_ ?_ ?_
  · intro i
    refine List.pairwise_map.mpr ((lastOrders_pairwise f fails gap q.storageKey i _).imp ?_)
    intro p p' hle htime hstays
    have hkey : p'.storageKey ≠ q.storageKey := by
      intro heq
      have hblocked := hfree i
      rw [← heq] at hblocked
      exact absurd hstays (by rw [entry, hblocked]; decide)
    have hrank := hle.2 htime
    rw [lastRank_of_blocked q.storageKey hkey hstays] at hrank
    exact blocked_of_lastRank q.storageKey (Nat.le_zero.mp hrank)
  · intro i u v horder e he
    obtain ⟨ru, rest, hrows, -, hrest⟩ := List.map_eq_append_iff.mp horder
    obtain ⟨r, rv, rfl, hr, rfl⟩ := List.map_eq_cons_iff.mp hrest
    obtain ⟨p, hp, rfl⟩ := List.mem_map.mp he
    have hpairs := lastOrders_pairwise f fails gap q.storageKey i
      (f.reading orders fails gap i).db
    rw [show (f.lastOrders fails gap q.storageKey).rows i _ = ru ++ r :: rv from hrows] at hpairs
    obtain ⟨hle, hrank⟩ :=
      (List.pairwise_cons.mp (List.pairwise_append.mp hpairs).2.1).1 p hp
    obtain ⟨hkey, htime⟩ := Prod.mk.inj hr
    refine Nat.lt_of_le_of_ne (htime.symm.trans_le hle) fun hsame => ?_
    have hlast : f.lastRank fails gap q.storageKey i r = 2 := if_pos hkey
    have htwo := hrank (htime.trans hsame)
    rw [hlast] at htwo
    have hnodup := ((hworked.perm i).nodup_iff.mpr (hworked.nodup i))
    rw [horder] at hnodup
    have hapart := (List.nodup_cons.mp (List.nodup_append.mp hnodup).2.1).1
    apply hapart
    have heq : entry q = entry p := Prod.ext (key_of_lastRank q.storageKey htwo).symm hsame
    rw [heq]
    exact List.mem_map_of_mem hp
  · rw [mem_reading (f.past q hq)]
    exact mem_entries hq
  · intro i hi
    exact (hfull i hi).trans_eq (sum_left_reading f orders fails gap i hq).symm

end Worst

/-- Whatever order the runs read rows of one time in, after as many runs as the queue has
batches every key that can be deleted is gone, if and only if for each such row there was
a run before which the rows left up to its time, at the worst, fitted into a batch. -/
theorem cleanup_clears (f : Files) (fails : Key → Bool) (gap : Nat → Time) :
    (∀ orders : Orders, f.Cleared orders fails gap f.rounds) ↔
      ∀ q ∈ f.db.queue, f.db.referenced q.storageKey = false → fails q.storageKey = false →
        ∃ i < f.rounds, ∑ t ∈ Finset.range (q.queuedAt + 1), f.leftOf fails gap i t ≤ 100 := by
  constructor
  · intro hcleared q hq href hfails
    by_contra hnone
    push Not at hnone
    exact (hcleared _ _ (List.mem_map_of_mem hq) href hfails).2
      (stuck_of_full hq href hfails hnone)
  · intro hfits orders key hkey href hfails
    obtain ⟨q, hq, rfl⟩ := List.mem_map.mp hkey
    obtain ⟨i, hi, hfit⟩ := hfits q hq href hfails
    exact cleared_of_fits hq href hfails hi hfit

theorem cleared_of_free (f : Files) (orders : Orders) (fails : Key → Bool) (gap : Nat → Time)
    (hfree : ∀ key ∈ f.keys, f.db.referenced key = false ∧ fails key = false) :
    ∀ key ∈ f.keys, (f.after orders fails gap f.rounds).store key = none ∧
      key ∉ (f.after orders fails gap f.rounds).keys := by
  have hnone : ∀ i t, (f.db.queue.rows.countP fun q =>
      f.blocked fails gap i q.storageKey && q.queuedAt = t) = 0 := by
    intro i t
    apply List.countP_eq_zero.mpr
    intro q hq hblocked
    obtain ⟨href, hfails⟩ := hfree q.storageKey (List.mem_map_of_mem hq)
    rw [not_blocked href hfails i] at hblocked
    cases hblocked
  intro key hkey
  obtain ⟨q, hq, rfl⟩ := List.mem_map.mp hkey
  obtain ⟨href, hfails⟩ := hfree q.storageKey hkey
  have hlong : 0 < f.db.queue.rows.length := List.length_pos_of_mem hq
  have hrounds : f.rounds - 1 < f.rounds := by
    rw [rounds]
    omega
  refine cleared_of_fits hq href hfails hrounds ?_
  have hleft : f.leftOf fails gap =
      left 100 (fun t => f.db.queue.rows.countP fun q => q.queuedAt = t) fun _ _ => 0 := by
    rw [leftOf]
    congr 1
    funext i t
    exact hnone i t
  have hall : ∑ t ∈ Finset.range (q.queuedAt + 1),
      (f.db.queue.rows.countP fun q => q.queuedAt = t) ≤ f.db.queue.rows.length := by
    rw [← countP_lt_eq_sum]
    exact List.countP_le_length
  rw [hleft, sum_left_free]
  rw [rounds]
  omega

/-- A hundred rows whose delete fails shut out every row queued after them, however often
the cleanup runs. -/
theorem cleanup_stuck (f : Files) (orders : Orders) (fails : Key → Bool) (gap : Nat → Time)
    {t : Time} (ht : t ≤ f.clock)
    (hfails : 100 ≤ f.db.queue.rows.countP fun q => q.queuedAt < t && fails q.storageKey)
    {q : QueueRow} (hq : q ∈ f.db.queue) (href : f.db.referenced q.storageKey = false)
    (hlate : t ≤ q.queuedAt) (n : Nat) :
    q.storageKey ∈ (f.after orders fails gap n).keys := by
  rw [mem_keys_after hq href]
  refine (worked f orders fails gap).mem_of_stuck (p := fun e => e.2 < t && fails e.1) ht ?_ ?_
    hlate ?_ n
  · intro e he
    obtain ⟨htime, hfail⟩ := Bool.and_eq_true_iff.mp he
    refine ⟨of_decide_eq_true htime, fun i => ?_⟩
    rw [blocked, hfail, Bool.true_or]
  · obtain ⟨later, hentries, -⟩ := reading_entries f orders fails gap 0
    rw [hentries, List.countP_append]
    show 100 ≤ (f.db.queue.rows.map entry).countP _ + _
    rw [List.countP_map]
    exact hfails.trans (Nat.le_add_right _ _)
  · rw [mem_reading (f.past q hq)]
    exact mem_entries hq

/-- Rows queued one after another, whose first hundred files cannot be deleted. -/
def stuckFiles : Files where
  db :=
    { pieces := ∅
      pdfs := ∅
      readers := ∅
      drafts := ∅
      assets := ∅
      draftSources := ∅
      pieceSources := ∅
      queue := ⟨(List.range 101).map fun k => ⟨k, k, 0⟩, by
        rw [List.map_map]
        exact List.nodup_range.map fun _ _ h => h⟩
      foldVersion := 3 }
  store := fun _ => some []
  clock := 101
  past := by
    intro q hq
    obtain ⟨k, hk, rfl⟩ := List.mem_map.mp hq
    exact (List.mem_range.mp hk).le

theorem stuckFiles_not_cleared (orders : Orders) (n : Nat) :
    ¬stuckFiles.Cleared orders (· < 100) (fun _ => 60000000) n := by
  intro hcleared
  have hq : (⟨100, 100, 0⟩ : QueueRow) ∈ stuckFiles.db.queue :=
    List.mem_map.mpr ⟨100, List.mem_range.mpr (Nat.lt_succ_self 100), rfl⟩
  have hgone := (hcleared 100 (List.mem_map_of_mem hq) rfl rfl).2
  refine hgone (cleanup_stuck (t := 100) stuckFiles orders (· < 100) _ ?_ ?_ hq rfl le_rfl n)
  · exact Nat.le_succ 100
  · decide +kernel

theorem not_cleanup_clears :
    ¬∀ (f : Files) (orders : Orders) (fails : Key → Bool) (gap : Nat → Time),
      f.Cleared orders fails gap f.rounds := by
  intro hall
  exact stuckFiles_not_cleared _ _
    (hall stuckFiles (Orders.ranked (fun _ _ => 0) fun _ _ => Nat.zero_lt_succ 2) _ _)

end Files

end Noted
