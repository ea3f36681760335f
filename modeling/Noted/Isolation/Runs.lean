import Noted.Isolation.Serving
import Noted.Library.Isolation

/-!
# Users are isolated

The service gives each user a library of their own: in any two runs in which a user has
the same library at the start and asks for the same things at the same times, the user
gets the same answers, whatever everybody else does and whatever work the service does
for itself. The same things include the ids and the keys that the service generates for
the user's requests; the times include when drafts expire and when texts are refolded.
-/

namespace Noted

open Library Db

variable {s : Service} {σ σ' σ₁ σ₂ σ₁' σ₂' : Sys} {user owner : Id} {answer : Answer}

inductive Concern
  | request (request : Request)
  | refold (force : Bool)
  | expiry
  deriving DecidableEq

def Request.concern (user : Id) : Request → Option Concern
  | .call (.refoldSearchText force) _ => some (.refold force)
  | .work .cleanupBegin => some .expiry
  | request => if request.owner? = some user then some (.request request) else none

def Concern.attend (s : Service) (user : Id) (now : Time) (v : Seen) : Concern → Answer × Seen
  | .request (.call c fresh) => attendCall s user c fresh now v
  | .request (.attachSource _ id filename revision data key fresh) =>
    attendAttach s user id filename revision data key fresh now v
  | .request (.finalizeImport _ id revision data key fresh) =>
    attendFinalize s user id revision data key fresh now v
  | .request (.query _ q) => attendQuery s user q now v
  | .request (.work _) => (.response .done, v)
  | .refold force => attendCall s user (.refoldSearchText force) ⟨0, 0, []⟩ now v
  | .expiry => (.response .done, .show ((expireDrafts now v.db).view s user) v.files)

theorem Request.concern_of_owner {request : Request} (howner : request.owner? = some user) :
    request.concern user = some (.request request) := by
  unfold Request.concern
  split
  · cases howner
  · cases howner
  · exact if_pos howner

/-- A user's answer, and what the user sees after it, come from what the user saw before. -/
theorem serve_seen (hσ : Ready s σ) {request : Request} {c : Concern}
    (hc : request.concern user = some c) (h : σ.serve s request = some (answer, σ')) :
    (answer, σ'.seen s user) = c.attend s user σ.clock (σ.seen s user) := by
  unfold Request.concern at hc
  split at hc
  · rename_i force fresh
    obtain rfl := Option.some.inj hc
    exact (call_seen (fun _ => refoldSearchText_local) h :)
  · obtain rfl := Option.some.inj hc
    obtain ⟨rfl, rfl⟩ := Prod.mk.inj (Option.some.inj h)
    refine Prod.ext rfl ?_
    change Seen.show ((expireDrafts σ.clock σ.db).view s user) σ.store = _
    rw [expireDrafts_view hσ.sound.coherent]
    refine seen_of_keys (expireDrafts_keys _ _) fun k hk => ?_
    obtain hk | hk := hk
    · exact (Seen.show_files hk).symm
    · cases hk
  · obtain ⟨howner, heq⟩ := Option.ite_none_right_eq_some.mp hc
    obtain rfl := Option.some.inj heq
    cases request with
    | call c fresh => exact call_seen (fun hfresh => Call.local_run hσ hfresh howner) h
    | attachSource _ id filename revision data key fresh =>
      obtain rfl := Option.some.inj howner
      exact attach_seen hσ h
    | finalizeImport _ id revision data key fresh =>
      obtain rfl := Option.some.inj howner
      exact finalize_seen hσ h
    | query _ q =>
      obtain rfl := Option.some.inj howner
      exact query_seen hσ h
    | work e => cases howner

theorem view_of_rows {db db' : Db} (h : db'.ownRows user = db.ownRows user) :
    db'.view s user = db.view s user := by
  rw [Db.view, h, ← Db.view]

/-- A request that does not concern a user changes nothing for the user. -/
theorem serve_unseen (hσ : Ready s σ) {request : Request} (hc : request.concern user = none)
    (h : σ.serve s request = some (answer, σ')) : σ'.seen s user = σ.seen s user := by
  cases howner : request.owner? with
  | some owner =>
    have hne : owner ≠ user := by
      rintro rfl
      rw [Request.concern_of_owner howner] at hc
      cases hc
    obtain ⟨t, hrun, hall⟩ := serve_run howner h
    have hrows := hσ.others_run hrun fun x hx =>
      (isForeign_of_owner (hall x hx)).mpr hne
    exact seen_others hσ hrun (view_of_rows hrows)
  | none =>
    cases request with
    | call c fresh =>
      obtain ⟨r, hstep⟩ := serve_step h
      refine seen_others hσ (Run.snoc .nil hstep) ?_
      cases c with
      | repairComposerKeys =>
        cases Sys.step_stepped hstep with
        | callDone _ _ db hfresh hrun =>
          obtain rfl := Except.ok.inj hrun
          exact repairComposerKeys_view
        | callFailed _ _ e hfresh hrun => rfl
      | refoldSearchText force => cases hc
      | _ => cases howner
    | work e =>
      obtain ⟨hwork, r, hstep⟩ := serve_work h
      have hforeign : e.isForeign user = true := by
        cases e with
        | cleanupBegin => cases hc
        | call | beginAttach | beginFinalize | commit | abort => cases hwork
        | _ => rfl
      exact seen_others hσ (Run.snoc .nil hstep) (view_of_rows (hσ.others hforeign hstep))
    | _ => cases howner

theorem serve_unwinds (s : Service) (user : Id) :
    Unwinds (Sys.serve s) (Ready s) (Request.concern user) Sys.clock (Sys.seen s user) where
  invariant hσ h := hσ.serve h
  others hσ h hc := serve_unseen hσ hc h
  own h₁ h₂ hstep₁ hstep₂ hc₁ hc₂ htime hseen := by
    have hfirst := serve_seen h₁ hc₁ hstep₁
    rw [htime, hseen, ← serve_seen h₂ hc₂ hstep₂] at hfirst
    exact Prod.mk.inj hfirst

/-- Two runs in which a user starts with the same library and asks for the same things at
the same times give the user the same answers, and the same library at the end. -/
theorem users_isolated {t₁ t₂ : List (Entry Sys Request Answer)} (hinitial₁ : Initial σ₁)
    (hinitial₂ : Initial σ₂) (hseen : σ₁.seen s user = σ₂.seen s user)
    (hrun₁ : Run (Sys.serve s) σ₁ t₁ σ₁') (hrun₂ : Run (Sys.serve s) σ₂ t₂ σ₂')
    (hsame : ownEvents (Request.concern user) Sys.clock t₁ =
      ownEvents (Request.concern user) Sys.clock t₂) :
    ownResponses (Request.concern user) t₁ = ownResponses (Request.concern user) t₂ ∧
      σ₁'.seen s user = σ₂'.seen s user := by
  have hready : ∀ {σ}, Initial σ → Ready s σ := fun h => ⟨h.sound, h.used, h.generated⟩
  exact (serve_unwinds s user).agree hrun₁ hrun₂ (hready hinitial₁) (hready hinitial₂) hseen hsame

/-- While only others act, in any interleaving of the steps of their calls and of the service's
own work, a user's rows and their files stay. -/
theorem rows_kept {t : List (Entry Sys Event Response)} (hσ : Reachable s σ)
    (hrun : Run (Sys.step s) σ t σ') (hothers : ∀ x ∈ t, x.event.isForeign user = true) :
    σ'.db.ownRows user = σ.db.ownRows user ∧
      ∀ k ∈ (σ.db.ownRows user).refs, σ'.store k = σ.store k ∧ (σ.store k).isSome = true := by
  have hready := hσ.ready
  have hrows := hready.others_run hrun hothers
  have hrefs : ∀ {db : Db} {k}, k ∈ (db.ownRows user).refs → k ∈ db.refs := by
    intro db k hk
    obtain ⟨a, ha, rfl⟩ | ⟨f, hf, rfl⟩ := mem_refs.mp hk
    · exact mem_refs.mpr (Or.inl ⟨a, (Table.mem_filter.mp ha).1, rfl⟩)
    · exact mem_refs.mpr (Or.inr ⟨f, (Table.mem_filter.mp hf).1, rfl⟩)
  refine ⟨hrows, fun k hk => ⟨?_, hready.sound.keys.live_stored _ (hrefs hk)⟩⟩
  exact hready.store hrun (hrefs hk) (hrefs (hrows ▸ hk))

section Examples

def foreignEvents : List Event :=
  [.call (.createImport 2 ⟨.absent, []⟩ none) (plainFresh 9),
    .beginAttach 2 18 "score.pdf".toList 0 plainPDF 5, .call (.deletePiece 2 6) (plainFresh 12),
    .cleanupRead [], .tick 3]

def endsForeign (t : List (Entry Sys Event Response)) (σ : Sys) : Bool :=
  ((t.drop 6).all fun x => x.event.isForeign 1) && σ.clock == 3 &&
    σ.db.pieces.rows.any fun p => p.userId == 1

theorem rows_kept_foreign : ∃ σ σ' : Sys, Reachable plainService σ ∧ σ'.clock = 3 ∧
    (∃ p ∈ σ'.db.pieces, p.userId = 1) ∧ σ'.db.ownRows 1 = σ.db.ownRows 1 := by
  obtain ⟨t, σ', hrun, ht⟩ : ∃ t σ', Run (Sys.step plainService) emptyLibrary t σ' ∧
      endsForeign t σ' = true :=
    exists_run (plainEvents ++ .cleanupBegin :: foreignEvents) (by decide +kernel)
  simp only [endsForeign, Bool.and_eq_true, List.all_eq_true, beq_iff_eq, List.any_eq_true] at ht
  obtain ⟨⟨hforeign, hclock⟩, p, hp, howner⟩ := ht
  rw [← List.take_append_drop 6 t] at hrun
  obtain ⟨σ, hfirst, hrest⟩ := hrun.split
  have hσ : Reachable plainService σ := ⟨emptyLibrary, _, emptyLibrary_initial, hfirst⟩
  exact ⟨σ, σ', hσ, hclock, ⟨p, hp, howner⟩, (rows_kept hσ hrest hforeign).1⟩

def ownRequests : List Request :=
  [.call (.createImport 1 ⟨.absent, []⟩ none) (plainFresh 1),
    .attachSource 1 2 "score.pdf".toList 0 plainPDF 7 (plainFresh 2),
    .finalizeImport 1 2 1 plainPDF 8 (plainFresh 3), .query 1 (.getPiece 6)]

def sharedRequests : List Request :=
  [.call (.createImport 2 ⟨.absent, []⟩ none) (plainFresh 9),
    .call (.createImport 1 ⟨.absent, []⟩ none) (plainFresh 1),
    .attachSource 2 18 "score.pdf".toList 0 plainPDF 5 (plainFresh 10),
    .attachSource 1 2 "score.pdf".toList 0 plainPDF 7 (plainFresh 2),
    .finalizeImport 2 18 1 plainPDF 6 (plainFresh 11),
    .finalizeImport 1 2 1 plainPDF 8 (plainFresh 3),
    .call (.deletePiece 2 6) (plainFresh 12), .query 1 (.getPiece 6)]

def asksOwn (n : Nat) (t : List (Entry Sys Request Answer)) : Bool :=
  t.length == n && ownEvents (Request.concern 1) Sys.clock t ==
    ownRequests.map fun q => (0, Concern.request q)

theorem users_isolated_shared : ∃ t₁ t₂ σ₁ σ₂, Run (Sys.serve plainService) emptyLibrary t₁ σ₁ ∧
    Run (Sys.serve plainService) emptyLibrary t₂ σ₂ ∧ t₁.length = 4 ∧ t₂.length = 8 ∧
      ownResponses (Request.concern 1) t₁ = ownResponses (Request.concern 1) t₂ := by
  obtain ⟨t₁, σ₁, hrun₁, h₁⟩ : ∃ t σ, Run (Sys.serve plainService) emptyLibrary t σ ∧
      asksOwn 4 t = true := exists_run (p := fun t _ => asksOwn 4 t) ownRequests (by decide +kernel)
  obtain ⟨t₂, σ₂, hrun₂, h₂⟩ : ∃ t σ, Run (Sys.serve plainService) emptyLibrary t σ ∧
      asksOwn 8 t = true := exists_run (p := fun t _ => asksOwn 8 t) sharedRequests (by decide +kernel)
  simp only [asksOwn, Bool.and_eq_true, beq_iff_eq] at h₁ h₂
  have hsame := h₁.2.trans h₂.2.symm
  have hisolated := users_isolated emptyLibrary_initial emptyLibrary_initial rfl hrun₁ hrun₂ hsame
  exact ⟨t₁, t₂, σ₁, σ₂, hrun₁, hrun₂, h₁.1, h₂.1, hisolated.1⟩

end Examples

end Noted
