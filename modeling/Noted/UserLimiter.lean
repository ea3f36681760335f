import Noted.Imslp.Limiter

/-!
# The limit of each user (internal/app/ratelimit.go)

Every user has a bucket, which is dropped when the user has been idle and made anew,
full, at the next call. Tokens and times are exact numbers, and time 0 is Go's zero
time. A bucket that was dropped is one that would be full again, so the answers to a user
are those of one bucket that is never dropped.
-/

namespace Noted.Imslp.TokenBucket

def allow (now rate : ℚ) (burst : Int) (b : TokenBucket) : Bool × TokenBucket :=
  let b := b.refill now rate burst
  if b.tokens < 1 then (false, b) else (true, { b with tokens := b.tokens - 1 })

end Noted.Imslp.TokenBucket

namespace Noted

open Library
open Imslp (TokenBucket)

structure UserBucket where
  bucket : TokenBucket
  seen : ℚ

/-- The settings of a limiter, none of which is negative. -/
structure UserLimits where
  rate : ℚ
  burst : Int
  idle : ℚ
  rate_nonneg : 0 ≤ rate
  burst_nonneg : 0 ≤ burst

structure UserLimiter (User : Type*) where
  users : User → Option UserBucket
  nextSweep : ℚ

structure UserCall (User : Type*) where
  now : ℚ
  user : User
  deriving DecidableEq

namespace UserLimiter

variable {User : Type*}

def new : UserLimiter User where
  users := fun _ => none
  nextSweep := 0

/-- Every idle period the buckets of idle users are deleted. -/
def sweep (cfg : UserLimits) (now : ℚ) (l : UserLimiter User) : UserLimiter User :=
  if l.nextSweep ≤ now then
    { users := fun id => (l.users id).filter fun user => decide (now - user.seen < cfg.idle)
      nextSweep := now + cfg.idle }
  else l

def allow [DecidableEq User] (cfg : UserLimits) (c : UserCall User) (l : UserLimiter User) :
    Bool × UserLimiter User :=
  let l := l.sweep cfg c.now
  let user := (l.users c.user).getD ⟨⟨0, 0⟩, 0⟩
  let answer := user.bucket.allow c.now cfg.rate cfg.burst
  (answer.1, { l with users := Function.update l.users c.user (some ⟨answer.2, c.now⟩) })

def answers [DecidableEq User] (cfg : UserLimits) :
    UserLimiter User → List (UserCall User) → List (UserCall User × Bool)
  | _, [] => []
  | l, c :: cs => (c, (l.allow cfg c).1) :: answers cfg (l.allow cfg c).2 cs

def allowed (answers : List (UserCall User × Bool)) : List ℚ :=
  answers.filterMap fun a => if a.2 = true then some a.1.now else none

/-- Calls after Go's zero time, in the order of a clock that never goes back. -/
structure Clocked (calls : List (UserCall User)) : Prop where
  pos : ∀ c ∈ calls, 0 < c.now
  sorted : calls.Pairwise fun c d => c.now ≤ d.now

end UserLimiter

namespace Imslp.TokenBucket

variable {b b' : TokenBucket} {now rate : ℚ} {burst : Int} {due : List ℚ}

theorem allow_eq_reserve (hrate : 0 < rate) :
    b.allow now rate burst =
      ((b.reserve now rate burst 0).1.isSome, (b.reserve now rate burst 0).2) := by
  unfold allow reserve wait
  dsimp only
  by_cases hlow : (b.refill now rate burst).tokens < 1
  · have hwait : 0 < (1 - (b.refill now rate burst).tokens) / rate :=
      div_pos (sub_pos.mpr hlow) hrate
    simp [hlow, hwait]
  · simp [hlow]

theorem reserve_zero {wait : ℚ} (hrate : 0 < rate)
    (h : b.reserve now rate burst 0 = (some wait, b')) : wait = 0 := by
  unfold reserve TokenBucket.wait at h
  dsimp only at h
  split_ifs at h with hlow hwait hwait
  · cases (Prod.mk.inj h).1
  · exact absurd (div_pos (sub_pos.mpr hlow) hrate) hwait
  · cases (Prod.mk.inj h).1
  · exact (Option.some.inj (Prod.mk.inj h).1).symm

theorem Keeps.allow (h : b.Keeps rate burst now due) (hnow : 0 < now) (hrate : 0 < rate)
    (hburst : 0 < burst) :
    (b.allow now rate burst).2.Keeps rate burst now
      (due ++ if (b.allow now rate burst).1 = true then [now] else []) := by
  rw [allow_eq_reserve hrate]
  cases hreserve : b.reserve now rate burst 0 with
  | mk answer b' =>
    cases answer with
    | none =>
      rw [reserve_none hreserve]
      simpa using (h.refill hnow hrate hburst).1
    | some wait =>
      have hkept := h.reserve hnow hrate hburst hreserve
      rw [reserve_zero hrate hreserve, add_zero] at hkept
      simpa using hkept

/-- A bucket without debt that holds no more than its burst, last used in the past. -/
structure Held (burst : Int) (now : ℚ) (b : TokenBucket) : Prop where
  nonneg : 0 ≤ b.tokens
  le : b.tokens ≤ burst
  last_le : b.last ≤ now

theorem Held.refill (h : b.Held burst now) (hrate : 0 ≤ rate) (hburst : 0 ≤ burst) :
    (b.refill now rate burst).Held burst now ∧ (b.refill now rate burst).last = now := by
  have hburst' : (0 : ℚ) ≤ burst := by exact_mod_cast hburst
  unfold TokenBucket.refill
  split_ifs with hzero hlater
  · exact ⟨⟨hburst', le_rfl, le_rfl⟩, rfl⟩
  · have hgain : 0 ≤ (now - b.last) * rate := mul_nonneg hlater.le hrate
    have hnonneg : 0 ≤ b.tokens + (now - b.last) * rate := by linarith [h.nonneg]
    exact ⟨⟨le_min hburst' hnonneg, min_le_left _ _, le_rfl⟩, rfl⟩
  · have hlast : b.last = now := by linarith [h.last_le]
    exact ⟨h, hlast⟩

theorem Held.allow (h : b.Held burst now) (hrate : 0 ≤ rate) (hburst : 0 ≤ burst) :
    (b.allow now rate burst).2.Held burst now ∧ (b.allow now rate burst).2.last = now := by
  obtain ⟨hheld, hlast⟩ := h.refill hrate hburst
  unfold TokenBucket.allow
  dsimp only
  split_ifs with hlow
  · exact ⟨hheld, hlast⟩
  · have hone : 1 ≤ (b.refill now rate burst).tokens := not_lt.mp hlow
    refine ⟨⟨?_, ?_, hheld.last_le⟩, hlast⟩
    · dsimp only
      linarith
    · dsimp only
      linarith [hheld.le]

/-- After an idle time in which the rate fills it, a bucket is like a new one. -/
theorem Held.refill_idle {idle : ℚ} (h : b.Held burst now) (hrate : 0 ≤ rate)
    (hidle : burst ≤ idle * rate) (hpast : idle ≤ now - b.last) :
    b.refill now rate burst = (⟨0, 0⟩ : TokenBucket).refill now rate burst := by
  have hfull : (⟨0, 0⟩ : TokenBucket).refill now rate burst = ⟨burst, now⟩ := if_pos rfl
  have hgain : idle * rate ≤ (now - b.last) * rate := mul_le_mul_of_nonneg_right hpast hrate
  rw [hfull]
  unfold TokenBucket.refill
  split_ifs with hzero hlater
  · rfl
  · rw [min_eq_left]
    linarith [h.nonneg]
  · have hlast : b.last = now := by linarith [h.last_le]
    have hnone : (now - b.last) * rate = 0 := by rw [hlast, sub_self, zero_mul]
    have htokens : b.tokens = burst := by linarith [h.nonneg, h.le]
    rw [← htokens, ← hlast]

end Imslp.TokenBucket

namespace UserLimiter

variable {User : Type*} {cfg : UserLimits} {now later : ℚ}
  {l : UserLimiter User} {user : User} {b : TokenBucket} {c : UserCall User} {calls : List (UserCall User)}

def bucketAnswers (cfg : UserLimits) : TokenBucket → List (UserCall User) → List (UserCall User × Bool)
  | _, [] => []
  | b, c :: cs =>
    (c, (b.allow c.now cfg.rate cfg.burst).1) ::
      bucketAnswers cfg (b.allow c.now cfg.rate cfg.burst).2 cs

/-- The limiter answers a user as the bucket `b` does: it holds that bucket, or holds none
and the bucket is unused or has been idle. -/
structure Serves (cfg : UserLimits) (now : ℚ) (l : UserLimiter User) (user : User)
    (b : TokenBucket) : Prop where
  held : b.Held cfg.burst now
  entry : l.users user = some ⟨b, b.last⟩ ∨
    l.users user = none ∧ (b = ⟨0, 0⟩ ∨ cfg.idle ≤ now - b.last)

theorem serves_new (hnow : 0 ≤ now) : (new : UserLimiter User).Serves cfg now user ⟨0, 0⟩ where
  held := ⟨le_rfl, Int.cast_nonneg cfg.burst_nonneg, hnow⟩
  entry := Or.inr ⟨rfl, Or.inl rfl⟩

theorem Serves.mono (h : l.Serves cfg now user b) (hle : now ≤ later) :
    l.Serves cfg later user b where
  held := ⟨h.held.nonneg, h.held.le, h.held.last_le.trans hle⟩
  entry := by
    obtain hsome | ⟨hnone, hunused | hidle⟩ := h.entry
    · exact Or.inl hsome
    · exact Or.inr ⟨hnone, Or.inl hunused⟩
    · exact Or.inr ⟨hnone, Or.inr (by linarith)⟩

theorem Serves.sweep (h : l.Serves cfg now user b) : (l.sweep cfg now).Serves cfg now user b where
  held := h.held
  entry := by
    unfold UserLimiter.sweep
    split_ifs with hdue
    · obtain hsome | ⟨hnone, hpast⟩ := h.entry
      · by_cases hidle : now - b.last < cfg.idle
        · left
          simp [hsome, hidle]
        · right
          refine ⟨?_, Or.inr (not_lt.mp hidle)⟩
          simp only [hsome, Option.filter_some, hidle, decide_false, Bool.false_eq_true, if_false]
      · right
        refine ⟨?_, hpast⟩
        simp [hnone]
    · exact h.entry

theorem Serves.refill (h : l.Serves cfg now user b) (hidle : cfg.burst ≤ cfg.idle * cfg.rate) :
    ((l.users user).getD ⟨⟨0, 0⟩, 0⟩).bucket.refill now cfg.rate cfg.burst =
      b.refill now cfg.rate cfg.burst := by
  obtain hsome | ⟨hnone, hunused | hpast⟩ := h.entry
  · rw [hsome]
    rfl
  · rw [hnone, hunused]
    rfl
  · rw [hnone]
    exact (h.held.refill_idle cfg.rate_nonneg hidle hpast).symm

theorem Clocked.tail (h : Clocked (c :: calls)) : Clocked calls where
  pos d hd := h.pos d (List.mem_cons_of_mem c hd)
  sorted := (List.pairwise_cons.mp h.sorted).2

theorem Clocked.filter (h : Clocked calls) (p : UserCall User → Bool) : Clocked (calls.filter p) where
  pos d hd := h.pos d (List.mem_filter.mp hd).1
  sorted := h.sorted.filter p

theorem bucketAnswers_window {due : List ℚ} (hrate : 0 < cfg.rate) (hburst : 0 < cfg.burst)
    (h : b.Keeps cfg.rate cfg.burst now due) (hclock : Clocked calls)
    (hnow : ∀ c ∈ calls, now ≤ c.now) {start stop : ℚ} (hwindow : start ≤ stop) :
    (within (due ++ allowed (bucketAnswers cfg b calls)) start stop : ℚ) ≤
      cfg.burst + cfg.rate * (stop - start) := by
  induction calls generalizing b now due with
  | nil =>
    rw [bucketAnswers, allowed, List.filterMap_nil, List.append_nil]
    exact h.paced.window start stop hwindow
  | cons c cs ih =>
    have hlater : ∀ d ∈ cs, c.now ≤ d.now := (List.pairwise_cons.mp hclock.sorted).1
    have hkept := (h.mono (hnow c List.mem_cons_self)).allow (hclock.pos c List.mem_cons_self)
      hrate hburst
    have hrest := ih hkept hclock.tail hlater
    rw [List.append_assoc] at hrest
    have hfirst : allowed (bucketAnswers cfg b (c :: cs)) =
        (if (b.allow c.now cfg.rate cfg.burst).1 = true then [c.now] else []) ++
          allowed (bucketAnswers cfg (b.allow c.now cfg.rate cfg.burst).2 cs) := by
      rw [bucketAnswers, allowed, allowed, List.filterMap_cons]
      split_ifs with hanswer
      · rfl
      · rfl
    rw [hfirst]
    exact hrest

theorem bucketAnswers_none (hburst : cfg.burst = 0) (h : b.Held cfg.burst now)
    (hclock : Clocked calls) (hnow : ∀ c ∈ calls, now ≤ c.now) :
    allowed (bucketAnswers cfg b calls) = [] := by
  induction calls generalizing b now with
  | nil => rfl
  | cons c cs ih =>
    have hlater : ∀ d ∈ cs, c.now ≤ d.now := (List.pairwise_cons.mp hclock.sorted).1
    have hheld : b.Held cfg.burst c.now :=
      ⟨h.nonneg, h.le, h.last_le.trans (hnow c List.mem_cons_self)⟩
    have hnext := (hheld.allow cfg.rate_nonneg cfg.burst_nonneg).1
    have hfew : (b.refill c.now cfg.rate cfg.burst).tokens < 1 := by
      have hle := (hheld.refill cfg.rate_nonneg cfg.burst_nonneg).1.le
      rw [hburst] at hle ⊢
      norm_num at hle
      linarith
    have hanswer : (b.allow c.now cfg.rate cfg.burst).1 = false := by
      rw [TokenBucket.allow, if_pos hfew]
    rw [bucketAnswers, allowed, List.filterMap_cons, hanswer]
    exact ih hnext hclock.tail hlater

variable [DecidableEq User]

theorem Serves.other (h : l.Serves cfg c.now user b) (hother : c.user ≠ user) :
    (l.allow cfg c).2.Serves cfg c.now user b where
  held := h.held
  entry := by
    have hsame : (l.allow cfg c).2.users user = (l.sweep cfg c.now).users user :=
      Function.update_of_ne hother.symm _ _
    rw [hsame]
    exact h.sweep.entry

theorem Serves.call (h : l.Serves cfg c.now c.user b)
    (hidle : cfg.burst ≤ cfg.idle * cfg.rate) :
    (l.allow cfg c).1 = (b.allow c.now cfg.rate cfg.burst).1 ∧
      (l.allow cfg c).2.Serves cfg c.now c.user (b.allow c.now cfg.rate cfg.burst).2 := by
  obtain ⟨hheld, hlast⟩ := h.held.allow cfg.rate_nonneg cfg.burst_nonneg
  have hsame : (((l.sweep cfg c.now).users c.user).getD ⟨⟨0, 0⟩, 0⟩).bucket.allow c.now cfg.rate
      cfg.burst = b.allow c.now cfg.rate cfg.burst := by
    unfold TokenBucket.allow
    rw [h.sweep.refill hidle]
  refine ⟨congrArg Prod.fst hsame, hheld, Or.inl ?_⟩
  have hentry : (l.allow cfg c).2.users c.user =
      some ⟨(((l.sweep cfg c.now).users c.user).getD ⟨⟨0, 0⟩, 0⟩).bucket.allow c.now cfg.rate
        cfg.burst |>.2, c.now⟩ := Function.update_self _ _ _
  rw [hentry, hsame, hlast]

/-- The answers to one user are those of one bucket to the user's own calls. -/
theorem answers_user (h : l.Serves cfg now user b) (hidle : cfg.burst ≤ cfg.idle * cfg.rate)
    (hclock : Clocked calls) (hnow : ∀ c ∈ calls, now ≤ c.now) :
    (answers cfg l calls).filter (fun a => a.1.user = user) =
      bucketAnswers cfg b (calls.filter fun c => c.user = user) := by
  induction calls generalizing l b now with
  | nil => rfl
  | cons c cs ih =>
    have hserves := h.mono (hnow c List.mem_cons_self)
    have hlater : ∀ d ∈ cs, c.now ≤ d.now := (List.pairwise_cons.mp hclock.sorted).1
    by_cases huser : c.user = user
    · subst huser
      obtain ⟨hanswer, hnext⟩ := hserves.call hidle
      rw [answers, List.filter_cons_of_pos (by simp), List.filter_cons_of_pos (by simp),
        bucketAnswers, hanswer, ih hnext hclock.tail hlater]
    · rw [answers, List.filter_cons_of_neg (by simpa using huser),
        List.filter_cons_of_neg (by simpa using huser)]
      exact ih (hserves.other huser) hclock.tail hlater

theorem answers_map_fst (l : UserLimiter User) (calls : List (UserCall User)) :
    (answers cfg l calls).map Prod.fst = calls := by
  induction calls generalizing l with
  | nil => rfl
  | cons c cs ih => rw [answers, List.map_cons, ih]

/-- Where an idle period fills a bucket, no window allows a user more calls than the burst
and what the rate adds, whatever the sweeps drop, and the answers to a user are those that
the user would get alone. -/
theorem user_limited (cfg : UserLimits) (hidle : cfg.burst ≤ cfg.idle * cfg.rate)
    (calls : List (UserCall User)) (hclock : Clocked calls) (user : User) :
    (∀ start stop, start ≤ stop →
      (within (allowed ((answers cfg new calls).filter fun a => a.1.user = user)) start stop : ℚ) ≤
        cfg.burst + cfg.rate * (stop - start)) ∧
      (answers cfg new calls).filter (fun a => a.1.user = user) =
        answers cfg new (calls.filter fun c => c.user = user) := by
  have hnew : (new : UserLimiter User).Serves cfg 0 user ⟨0, 0⟩ := serves_new le_rfl
  have hpos : ∀ c ∈ calls, 0 ≤ c.now := fun c hc => (hclock.pos c hc).le
  have hown := hclock.filter fun c => c.user = user
  have hown_pos : ∀ c ∈ calls.filter (fun c => c.user = user), 0 ≤ c.now :=
    fun c hc => (hown.pos c hc).le
  have hsame := answers_user hnew hidle hclock hpos
  constructor
  · intro start stop hwindow
    rw [hsame]
    obtain hburst | hburst := cfg.burst_nonneg.eq_or_lt
    · rw [bucketAnswers_none hburst.symm hnew.held hown hown_pos, ← hburst]
      have hgain := mul_nonneg cfg.rate_nonneg (sub_nonneg.mpr hwindow)
      simpa [within] using hgain
    · have hrate : 0 < cfg.rate := by
        obtain hzero | hrate := cfg.rate_nonneg.eq_or_lt
        · rw [← hzero, mul_zero] at hidle
          exact absurd (by exact_mod_cast hidle) (not_le.mpr hburst)
        · exact hrate
      have hkeeps : (⟨0, 0⟩ : TokenBucket).Keeps cfg.rate cfg.burst 0 [] :=
        ⟨.nil (by exact_mod_cast hburst.le) hrate.le, fun _ => rfl, hnew.held.le, le_rfl⟩
      exact bucketAnswers_window hrate hburst hkeeps hown hown_pos hwindow
  · have halone := answers_user hnew hidle hown hown_pos
    rw [List.filter_filter] at halone
    simp only [Bool.and_self] at halone
    rw [hsame, ← halone, List.filter_eq_self]
    intro a ha
    have hmem := List.mem_map_of_mem (f := Prod.fst) ha
    rw [answers_map_fst] at hmem
    exact (List.mem_filter.mp hmem).2

def twoTokens : UserLimits where
  rate := 1
  burst := 2
  idle := 2
  rate_nonneg := by norm_num
  burst_nonneg := by norm_num

def sweptCalls : List (UserCall Nat) :=
  [⟨1, 0⟩, ⟨1, 0⟩, ⟨1, 0⟩, ⟨3, 1⟩, ⟨3, 0⟩, ⟨3, 0⟩, ⟨3, 0⟩]

theorem user_limited_swept :
    (within (allowed ((answers twoTokens new sweptCalls).filter fun a => a.1.user = 0)) 1 3 : ℚ) ≤
        2 + 1 * (3 - 1) ∧
      (answers twoTokens new sweptCalls).map Prod.snd =
        [true, true, false, true, true, true, false] := by
  have hclock : Clocked sweptCalls := ⟨by decide +kernel, by decide +kernel⟩
  have hlimited := user_limited twoTokens (by norm_num [twoTokens]) sweptCalls hclock 0
  exact ⟨by simpa [twoTokens] using hlimited.1 1 3 (by norm_num), by decide +kernel⟩

end UserLimiter

end Noted
