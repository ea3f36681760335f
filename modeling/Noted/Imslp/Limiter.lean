import Noted.Imslp.Breaker
import Noted.Library.Pacing

/-!
# The outbound limiter (internal/app/ratelimit.go, internal/app/imslp.go)

A request takes its token when it arrives and then waits, first until the token is
due and then for one of the slots. It goes out when it has both, and hands the token
back when its context ends before. Tokens and times are exact numbers.
-/

namespace Noted.Imslp

open Library

structure TokenBucket where
  tokens : ℚ
  last : ℚ
  deriving DecidableEq

namespace TokenBucket

def refill (now rate : ℚ) (burst : Int) (b : TokenBucket) : TokenBucket :=
  if b.last = 0 then ⟨burst, now⟩
  else if 0 < now - b.last then ⟨min burst (b.tokens + (now - b.last) * rate), now⟩
  else b

def wait (rate : ℚ) (b : TokenBucket) : ℚ := if b.tokens < 1 then (1 - b.tokens) / rate else 0

def reserve (now rate : ℚ) (burst : Int) (maxWait : ℚ) (b : TokenBucket) :
    Option ℚ × TokenBucket :=
  let b := b.refill now rate burst
  if maxWait < b.wait rate then (none, b)
  else (some (b.wait rate), { b with tokens := b.tokens - 1 })

def refund (burst : Int) (b : TokenBucket) : TokenBucket :=
  { b with tokens := min burst (b.tokens + 1) }

end TokenBucket

structure Waiting where
  id : Nat
  due : ℚ
  deadline : ℚ
  deriving DecidableEq

structure Outbound where
  clock : ℚ
  bucket : TokenBucket
  waiting : List Waiting
  slots : Nat

namespace Outbound

inductive Event
  | tick (clock : ℚ)
  | reserve (id : Nat)
  | leave (w : Waiting)
  | timeout (w : Waiting)
  | release
  deriving DecidableEq

inductive Answer
  | done
  | reserved (w : Waiting)
  | unavailable
  deriving DecidableEq

def start (clock : ℚ) : Outbound where
  clock := clock
  bucket := ⟨0, 0⟩
  waiting := []
  slots := 0

def reserve (cfg : Controls) (σ : Outbound) (id : Nat) : Answer × Outbound :=
  match σ.bucket.reserve σ.clock cfg.outboundRate cfg.outboundBurst cfg.outboundMaxWait with
  | (none, b) => (.unavailable, { σ with bucket := b })
  | (some wait, b) =>
    (.reserved ⟨id, σ.clock + wait, σ.clock + cfg.outboundMaxWait⟩,
      { σ with
        bucket := b
        waiting := ⟨id, σ.clock + wait, σ.clock + cfg.outboundMaxWait⟩ :: σ.waiting })

/-- `acquireOutbound`, of which `release` gives the slot back. -/
def step (cfg : Controls) (σ : Outbound) (e : Event) : Option (Answer × Outbound) :=
  match e with
  | .tick clock => if σ.clock ≤ clock then some (.done, { σ with clock := clock }) else none
  | .reserve id => some (σ.reserve cfg id)
  | .leave w =>
    if w ∈ σ.waiting ∧ w.due ≤ σ.clock ∧ (σ.slots : Int) < cfg.outboundConcurrency then
      some (.done, { σ with waiting := σ.waiting.erase w, slots := σ.slots + 1 })
    else none
  | .timeout w =>
    if w ∈ σ.waiting ∧ w.deadline ≤ σ.clock then
      some (.unavailable, { σ with
        bucket := σ.bucket.refund cfg.outboundBurst, waiting := σ.waiting.erase w })
    else none
  | .release => if 0 < σ.slots then some (.done, { σ with slots := σ.slots - 1 }) else none

end Outbound

open Outbound

variable {cfg : Controls} {clock : ℚ} {σ σ' : Outbound} {e : Outbound.Event} {a : Outbound.Answer}
  {t : List (Entry Outbound Outbound.Event Outbound.Answer)}

def takes (x : Entry Outbound Outbound.Event Outbound.Answer) : Option ℚ :=
  match x.response with
  | .reserved w => some w.due
  | _ => none

def departs (x : Entry Outbound Outbound.Event Outbound.Answer) : Option ℚ :=
  match x.event with
  | .leave _ => some x.before.clock
  | _ => none

/-- No request hands its token back, and one that goes out does so when its token is due. -/
def onTime (x : Entry Outbound Outbound.Event Outbound.Answer) : Bool :=
  match x.event with
  | .leave w => x.before.clock == w.due
  | .timeout _ => false
  | _ => true

section Bucket

namespace TokenBucket

variable {b b' : TokenBucket} {now later rate maxWait wait : ℚ} {burst : Int} {due : List ℚ}

theorem refill_tokens (now rate : ℚ) (h : b.tokens ≤ burst) :
    (b.refill now rate burst).tokens ≤ burst := by
  unfold refill
  split_ifs
  · exact le_rfl
  · exact min_le_left _ _
  · exact h

theorem reserve_none (h : b.reserve now rate burst maxWait = (none, b')) :
    b' = b.refill now rate burst := by
  unfold reserve at h
  dsimp only at h
  split_ifs at h
  · exact (Prod.mk.inj h).2.symm
  · exact absurd (Prod.mk.inj h).1 (by simp)

theorem reserve_some (h : b.reserve now rate burst maxWait = (some wait, b')) :
    now + wait = Paced.dueAt rate (b.refill now rate burst).tokens now ∧
      b' = { b.refill now rate burst with tokens := (b.refill now rate burst).tokens - 1 } := by
  unfold reserve at h
  dsimp only at h
  split_ifs at h with hmax
  · exact absurd (Prod.mk.inj h).1 (by simp)
  · obtain ⟨hwait, rfl⟩ := Prod.mk.inj h
    obtain rfl := Option.some.inj hwait
    refine ⟨?_, rfl⟩
    unfold Paced.dueAt TokenBucket.wait
    split_ifs
    · rfl
    · exact add_zero now

structure Keeps (rate : ℚ) (burst : Int) (now : ℚ) (due : List ℚ) (b : TokenBucket) : Prop where
  paced : Paced (burst : ℚ) rate b.tokens b.last due
  unused : b.last = 0 → due = []
  tokens_le : b.tokens ≤ burst
  last_le : b.last ≤ now

theorem Keeps.mono (h : b.Keeps rate burst now due) (hle : now ≤ later) :
    b.Keeps rate burst later due := ⟨h.paced, h.unused, h.tokens_le, h.last_le.trans hle⟩

theorem Keeps.refill (h : b.Keeps rate burst now due) (hnow : 0 < now) (hrate : 0 < rate)
    (hburst : 0 < burst) :
    (b.refill now rate burst).Keeps rate burst now due ∧ (b.refill now rate burst).last = now := by
  have hburst' : (0 : ℚ) ≤ burst := by exact_mod_cast hburst.le
  have htokens := refill_tokens now rate h.tokens_le
  unfold TokenBucket.refill at htokens ⊢
  split_ifs at htokens ⊢ with hzero hlater
  · rw [h.unused hzero]
    exact ⟨⟨.nil hburst' hrate.le, fun _ => rfl, htokens, le_rfl⟩, rfl⟩
  · refine ⟨⟨h.paced.refill ?_, ?_, htokens, le_rfl⟩, rfl⟩
    · rw [mul_comm rate]
      exact min_le_right _ _
    · intro hzero'
      exact absurd hzero' hnow.ne'
  · have hlast : b.last = now := by linarith [h.last_le]
    exact ⟨h, hlast⟩

theorem Keeps.reserve (h : b.Keeps rate burst now due) (hnow : 0 < now) (hrate : 0 < rate)
    (hburst : 0 < burst) (hwait : b.reserve now rate burst maxWait = (some wait, b')) :
    b'.Keeps rate burst now (due ++ [now + wait]) := by
  have hburst' : (1 : ℚ) ≤ burst := by exact_mod_cast hburst
  obtain ⟨hfilled, hlast⟩ := h.refill hnow hrate hburst
  have hpaced := hfilled.paced
  rw [hlast] at hpaced
  obtain ⟨hdue, rfl⟩ := reserve_some hwait
  rw [hdue]
  constructor
  · rw [hlast]
    exact hpaced.take hburst' hrate hfilled.tokens_le
  · intro hzero
    exact absurd (hlast.symm.trans hzero) hnow.ne'
  · have := hfilled.tokens_le
    simp only
    linarith
  · exact hlast.le

end TokenBucket

end Bucket

namespace Outbound

inductive Stepped (cfg : Controls) (σ : Outbound) : Event → Answer → Outbound → Prop
  | ticked (clock : ℚ) (hclock : σ.clock ≤ clock) :
      Stepped cfg σ (.tick clock) .done { σ with clock := clock }
  | reserved (id : Nat) (wait : ℚ) (b : TokenBucket)
      (hwait : σ.bucket.reserve σ.clock cfg.outboundRate cfg.outboundBurst cfg.outboundMaxWait =
        (some wait, b)) :
      Stepped cfg σ (.reserve id) (.reserved ⟨id, σ.clock + wait, σ.clock + cfg.outboundMaxWait⟩)
        { σ with
          bucket := b
          waiting := ⟨id, σ.clock + wait, σ.clock + cfg.outboundMaxWait⟩ :: σ.waiting }
  | refused (id : Nat) :
      Stepped cfg σ (.reserve id) .unavailable
        { σ with bucket := σ.bucket.refill σ.clock cfg.outboundRate cfg.outboundBurst }
  | left (w : Waiting) (hw : w ∈ σ.waiting) (hdue : w.due ≤ σ.clock)
      (hslots : (σ.slots : Int) < cfg.outboundConcurrency) :
      Stepped cfg σ (.leave w) .done
        { σ with waiting := σ.waiting.erase w, slots := σ.slots + 1 }
  | timedOut (w : Waiting) (hw : w ∈ σ.waiting) (hdeadline : w.deadline ≤ σ.clock) :
      Stepped cfg σ (.timeout w) .unavailable
        { σ with
          bucket := σ.bucket.refund cfg.outboundBurst, waiting := σ.waiting.erase w }
  | released (hslots : 0 < σ.slots) :
      Stepped cfg σ .release .done { σ with slots := σ.slots - 1 }

theorem stepped (h : step cfg σ e = some (a, σ')) : Stepped cfg σ e a σ' := by
  cases e with
  | tick clock =>
    simp only [step] at h
    split_ifs at h with hclock
    obtain ⟨rfl, rfl⟩ := Prod.mk.inj (Option.some.inj h)
    exact .ticked clock hclock
  | reserve id =>
    simp only [step, reserve] at h
    split at h
    · rename_i b hwait
      obtain ⟨rfl, rfl⟩ := Prod.mk.inj (Option.some.inj h)
      rw [TokenBucket.reserve_none hwait]
      exact .refused id
    · rename_i wait b hwait
      obtain ⟨rfl, rfl⟩ := Prod.mk.inj (Option.some.inj h)
      exact .reserved id wait b hwait
  | leave w =>
    simp only [step] at h
    split_ifs at h with hw
    obtain ⟨rfl, rfl⟩ := Prod.mk.inj (Option.some.inj h)
    exact .left w hw.1 hw.2.1 hw.2.2
  | timeout w =>
    simp only [step] at h
    split_ifs at h with hw
    obtain ⟨rfl, rfl⟩ := Prod.mk.inj (Option.some.inj h)
    exact .timedOut w hw.1 hw.2
  | release =>
    simp only [step] at h
    split_ifs at h with hslots
    obtain ⟨rfl, rfl⟩ := Prod.mk.inj (Option.some.inj h)
    exact .released hslots

theorem tokens_le_step (hσ : σ.bucket.tokens ≤ cfg.outboundBurst)
    (h : step cfg σ e = some (a, σ')) : σ'.bucket.tokens ≤ cfg.outboundBurst := by
  have hfilled := TokenBucket.refill_tokens σ.clock cfg.outboundRate hσ
  cases stepped h with
  | ticked clock hclock => exact hσ
  | reserved id wait b hwait =>
    obtain ⟨-, rfl⟩ := TokenBucket.reserve_some hwait
    simp only
    linarith
  | refused id => exact hfilled
  | left w hw hdue hslots => exact hσ
  | timedOut w hw hdeadline => exact min_le_left _ _
  | released hslots => exact hσ

/-- The due times are paced, and each is that of a request that went out at that time
or is still waiting. -/
structure Accounted (cfg : Controls) (t : List (Entry Outbound Event Answer)) (σ : Outbound) :
    Prop where
  clock_pos : 0 < σ.clock
  keeps : σ.bucket.Keeps cfg.outboundRate cfg.outboundBurst σ.clock (t.filterMap takes)
  perm : (t.filterMap takes).Perm (t.filterMap departs ++ σ.waiting.map Waiting.due)

theorem start_accounted (hclock : 0 < clock) : Accounted cfg [] (start clock) where
  clock_pos := hclock
  keeps :=
    have hburst : (0 : ℚ) ≤ cfg.outboundBurst := by exact_mod_cast cfg.outboundBurst_pos.le
    ⟨.nil hburst cfg.outboundRate_pos.le, fun _ => rfl, hburst, hclock.le⟩
  perm := .refl _

theorem Accounted.step (hσ : Accounted cfg t σ) (h : step cfg σ e = some (a, σ'))
    (htime : onTime ⟨σ, e, a, σ'⟩ = true) : Accounted cfg (t ++ [⟨σ, e, a, σ'⟩]) σ' := by
  obtain ⟨hpos, hkeeps, hperm⟩ := hσ
  cases stepped h with
  | ticked clock hclock =>
    constructor
    · exact hpos.trans_le hclock
    · simpa [List.filterMap_cons, takes] using hkeeps.mono hclock
    · simpa [List.filterMap_cons, takes, departs] using hperm
  | reserved id wait b hwait =>
    constructor
    · exact hpos
    · simpa [List.filterMap_cons, takes] using
        hkeeps.reserve hpos cfg.outboundRate_pos cfg.outboundBurst_pos hwait
    · have hmore := hperm.append_right [σ.clock + wait]
      rw [List.append_assoc] at hmore
      simpa [List.filterMap_cons, takes, departs] using
        hmore.trans ((List.perm_append_singleton _ _).append_left _)
  | refused id =>
    constructor
    · exact hpos
    · simpa [List.filterMap_cons, takes] using
        (hkeeps.refill hpos cfg.outboundRate_pos cfg.outboundBurst_pos).1
    · simpa [List.filterMap_cons, takes, departs] using hperm
  | left w hw hdue hslots =>
    have hleft : σ.clock = w.due := by simpa [onTime] using htime
    constructor
    · exact hpos
    · simpa [List.filterMap_cons, takes] using hkeeps
    · have hmoved := (List.perm_cons_erase hw).map Waiting.due
      simpa [List.filterMap_cons, takes, departs, hleft] using hperm.trans (hmoved.append_left _)
  | timedOut w hw hdeadline => simp [onTime] at htime
  | released hslots =>
    constructor
    · exact hpos
    · simpa [List.filterMap_cons, takes] using hkeeps
    · simpa [List.filterMap_cons, takes, departs] using hperm

theorem run_accounted (h : Run (step cfg) (start clock) t σ) (hclock : 0 < clock)
    (htime : ∀ x ∈ t, onTime x = true) : Accounted cfg t σ := by
  induction h with
  | nil => exact start_accounted hclock
  | snoc _ hlast ih =>
    have hprior := ih fun x hx => htime x (List.mem_append_left _ hx)
    exact hprior.step hlast (htime _ (by simp))

end Outbound

section Budget

/-- The bucket never holds more than its burst. In a run in which every request that
takes a token goes out when the token is due, no window sees more requests go out than
the burst and what the rate adds. -/
theorem outbound_budget (h : Run (Outbound.step cfg) (start clock) t σ) (hclock : 0 < clock) :
    σ.bucket.tokens ≤ cfg.outboundBurst ∧
      ((∀ x ∈ t, onTime x = true) → ∀ a b, a ≤ b →
        (within (t.filterMap departs) a b : ℚ) ≤
          cfg.outboundBurst + cfg.outboundRate * (b - a)) := by
  constructor
  · have hburst : (0 : ℚ) ≤ cfg.outboundBurst := by exact_mod_cast cfg.outboundBurst_pos.le
    exact h.invariant (P := fun σ => σ.bucket.tokens ≤ (cfg.outboundBurst : ℚ))
      tokens_le_step hburst
  · intro htime a b hab
    have hσ := run_accounted h hclock htime
    have hgone : within (t.filterMap departs) a b ≤ within (t.filterMap takes) a b := by
      rw [within_perm hσ.perm, within_append]
      exact Nat.le_add_right _ _
    have hwindow := hσ.keeps.paced.window a b hab
    have hgone' : (within (t.filterMap departs) a b : ℚ) ≤ within (t.filterMap takes) a b := by
      exact_mod_cast hgone
    exact hgone'.trans hwindow

/-- Ten requests arrive at once; four take the slots, and the others wait for one until
all their tokens are due. -/
def bunchedEvents : List Outbound.Event :=
  (List.range 10).map .reserve ++
    (List.range 4).map (fun id => .leave ⟨id, 1, 3⟩) ++ [.tick 2] ++
    (List.range 6).flatMap fun n => [.release, .leave ⟨n + 4, 1 + n / 5, 3⟩]

/-- Six requests go out at second 2, of a budget of five in an instant. -/
theorem not_outbound_bounded :
    ¬ ∀ (cfg : Controls) (clock : ℚ) (t : List (Entry Outbound Outbound.Event Outbound.Answer))
      (σ : Outbound), Run (Outbound.step cfg) (start clock) t σ → 0 < clock →
      ∀ a b, a ≤ b → (within (t.filterMap departs) a b : ℚ) ≤
        cfg.outboundBurst + cfg.outboundRate * (b - a) := by
  intro hall
  obtain ⟨t, σ, hrun, hp⟩ : ∃ t σ, Run (Outbound.step defaults) (start 1) t σ ∧
      (within (t.filterMap departs) 2 2 == 6) = true :=
    exists_run bunchedEvents (by decide +kernel)
  have hle := hall defaults 1 t σ hrun (by norm_num) 2 2 le_rfl
  rw [beq_iff_eq.mp hp] at hle
  norm_num [defaults, IMSLPSearchConfig.withDefaults, setDefault] at hle

theorem outbound_budget_spaced :
    ∃ t σ, Run (Outbound.step defaults) (start 1) t σ ∧ within (t.filterMap departs) 1 2 = 7 ∧
      ((within (t.filterMap departs) 1 2 : Nat) : ℚ) ≤ 5 + 5 * (2 - 1) := by
  obtain ⟨t, σ, hrun, hp⟩ : ∃ t σ, Run (Outbound.step defaults) (start 1) t σ ∧
      (t.all onTime && within (t.filterMap departs) 1 2 == 7) = true :=
    exists_run ((List.range 7).map .reserve ++
      (List.range 4).map (fun id => .leave ⟨id, 1, 3⟩) ++
      [.release, .release, .release, .leave ⟨4, 1, 3⟩, .tick (6 / 5), .leave ⟨5, 6 / 5, 3⟩,
        .tick (7 / 5), .leave ⟨6, 7 / 5, 3⟩]) (by decide +kernel)
  simp only [Bool.and_eq_true, List.all_eq_true, beq_iff_eq] at hp
  obtain ⟨htime, hcount⟩ := hp
  have hle := (outbound_budget hrun (by norm_num)).2 htime 1 2 (by norm_num)
  refine ⟨t, σ, hrun, hcount, ?_⟩
  simpa [defaults, IMSLPSearchConfig.withDefaults, setDefault] using hle

end Budget

end Noted.Imslp
