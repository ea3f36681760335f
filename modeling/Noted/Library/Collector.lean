import Mathlib.Data.Set.Insert
import Mathlib.Logic.Relation

/-!
# Collecting objects that nothing refers to

An object store whose files are deleted only after the references to them are gone.
The keys of a store are in sets: those a row refers to are live, those of a writer
that has not committed are held, and those of a writer that gave up are spare until
they are queued. A collector picks keys from the queue, condemns one that it finds
without a reference, deletes its file, and takes it off the queue; any number of
collectors and writers interleave. A commit may move keys between the live and the
queued ones and make held keys live.

No file of a live key is deleted, and no file is forgotten. The reason is that a
condemned key is neither live nor held, and only held keys become live.
-/

namespace Noted.Library.Collector

variable {κ : Type*}

@[ext] structure State (κ : Type*) where
  issued : Set κ
  stored : Set κ
  live : Set κ
  held : Set κ
  spare : Set κ
  queued : Set κ
  picked : Set κ
  condemned : Set κ
  deleted : Set κ

inductive Step : State κ → State κ → Prop
  | save (a : State κ) (k : κ) (hk : k ∉ a.issued) :
      Step a { a with
        issued := insert k a.issued, stored := insert k a.stored, held := insert k a.held }
  | commit (a : State κ) (new live queued : Set κ) (hnew : new ⊆ a.held)
      (hgain : live ⊆ a.live ∪ new) (hqueue : queued ⊆ a.queued ∪ (a.live ∪ new))
      (hstay : a.queued ⊆ queued) (hkept : a.live ∪ new ⊆ live ∪ queued) :
      Step a { a with live := live, queued := queued, held := a.held \ new }
  | giveUp (a : State κ) (k : κ) (hk : k ∈ a.held) :
      Step a { a with held := a.held \ {k}, spare := insert k a.spare }
  | queueSpare (a : State κ) (k : κ) (spare : Set κ) (hk : k ∈ a.spare) (hsub : spare ⊆ a.spare)
      (hrest : a.spare ⊆ insert k spare) :
      Step a { a with spare := spare, queued := insert k a.queued }
  | pick (a : State κ) (picked : Set κ) (hpicked : picked ⊆ a.picked ∪ a.queued) :
      Step a { a with picked := picked }
  | condemn (a : State κ) (k : κ) (hk : k ∈ a.picked) (hdead : k ∉ a.live) :
      Step a { a with condemned := insert k a.condemned }
  | delete (a : State κ) (k : κ) (hk : k ∈ a.condemned) :
      Step a { a with stored := a.stored \ {k}, deleted := insert k a.deleted }
  | dequeue (a : State κ) (k : κ) (hk : k ∈ a.deleted) :
      Step a { a with queued := a.queued \ {k} }
  | forget (a : State κ) (picked condemned deleted : Set κ) (hpicked : picked ⊆ a.picked)
      (hcondemned : condemned ⊆ a.condemned) (hdeleted : deleted ⊆ a.deleted) :
      Step a { a with picked := picked, condemned := condemned, deleted := deleted }

structure Safe (a : State κ) : Prop where
  stored_issued : ∀ k ∈ a.stored, k ∈ a.issued
  spare_issued : ∀ k ∈ a.spare, k ∈ a.issued
  queued_issued : ∀ k ∈ a.queued, k ∈ a.issued
  picked_issued : ∀ k ∈ a.picked, k ∈ a.issued
  condemned_issued : ∀ k ∈ a.condemned, k ∈ a.issued
  deleted_issued : ∀ k ∈ a.deleted, k ∈ a.issued
  live_stored : ∀ k ∈ a.live, k ∈ a.stored
  held_stored : ∀ k ∈ a.held, k ∈ a.stored
  held_free : ∀ k ∈ a.held, k ∉ a.live ∧ k ∉ a.spare ∧ k ∉ a.queued ∧ k ∉ a.picked
  condemned_dead : ∀ k ∈ a.condemned, k ∉ a.live ∧ k ∉ a.held
  deleted_gone : ∀ k ∈ a.deleted, k ∉ a.stored
  found : ∀ k ∈ a.stored, k ∈ a.live ∨ k ∈ a.held ∨ k ∈ a.spare ∨ k ∈ a.queued

theorem Step.safe {a b : State κ} (hstep : Step a b) (h : Safe a) : Safe b := by
  obtain ⟨h₁, h₂, h₃, h₄, h₅, h₆, h₇, h₈, h₉, h₁₀, h₁₁, h₁₂⟩ := h
  cases hstep with
  | save k hk =>
    constructor <;> simp only [Set.mem_insert_iff] <;> grind
  | commit new live queued hnew hgain hqueue hstay hkept =>
    simp only [Set.subset_def, Set.mem_union] at hnew hgain hqueue hstay hkept
    constructor <;> simp only [Set.mem_sdiff] <;> grind
  | giveUp k hk =>
    constructor <;> simp only [Set.mem_insert_iff, Set.mem_sdiff, Set.mem_singleton_iff] <;> grind
  | queueSpare k spare hk hsub hrest =>
    simp only [Set.subset_def, Set.mem_insert_iff] at hsub hrest
    constructor <;> simp only [Set.mem_insert_iff] <;> grind
  | pick picked hpicked =>
    simp only [Set.subset_def, Set.mem_union] at hpicked
    constructor <;> grind
  | condemn k hk hdead =>
    constructor <;> simp only [Set.mem_insert_iff] <;> grind
  | delete k hk =>
    constructor <;> simp only [Set.mem_insert_iff, Set.mem_sdiff, Set.mem_singleton_iff] <;> grind
  | dequeue k hk =>
    constructor <;> simp only [Set.mem_sdiff, Set.mem_singleton_iff] <;> grind
  | forget picked condemned deleted hpicked hcondemned hdeleted =>
    simp only [Set.subset_def] at hpicked hcondemned hdeleted
    constructor <;> grind

abbrev Steps : State κ → State κ → Prop := Relation.ReflTransGen Step

theorem Steps.safe {a b : State κ} (hsteps : Steps a b) (h : Safe a) : Safe b := by
  induction hsteps with
  | refl => exact h
  | tail _ hlast ih => exact hlast.safe ih

theorem Step.drop {a b : State κ} (hb : b = { a with
      picked := b.picked, condemned := b.condemned, deleted := b.deleted })
    (hpicked : b.picked ⊆ a.picked) (hcondemned : b.condemned ⊆ a.condemned)
    (hdeleted : b.deleted ⊆ a.deleted) : Step a b := by
  have hstep := Step.forget a b.picked b.condemned b.deleted hpicked hcondemned hdeleted
  rwa [← hb] at hstep

end Noted.Library.Collector
