/-
# Bluecross.Lib.Simulation — one transition system simulated by another.

Two systems with labels of their own are compared by what their steps show to the outside: a list of
observations for each label, empty for an internal step. `Simulates` asks that each guarded step of the
first, from related states, is matched by a guarded run of the second (of any length, so also by none
at all) that shows the same and ends in related states. Then runs are matched by runs
(`Simulates.steps`) and reachable states by reachable states (`Simulates.reach`), and simulations
compose (`Simulates.trans`). Where the second system is a function of the first, step for step, the run
that matches is the trail of the first one (`Steps.trail`).
-/
import Bluecross.Lib.Transition

namespace Bluecross.Lib

universe u v w

namespace LTS

variable {σ₁ σ₂ σ₃ : Type u} {l₁ l₂ l₃ : Type v} {ω : Type w}
variable {M₁ : LTS σ₁ l₁} {M₂ : LTS σ₂ l₂} {M₃ : LTS σ₃ l₃}
variable {G₁ : σ₁ → l₁ → Prop} {G₂ : σ₂ → l₂ → Prop} {shown₁ : l₁ → List ω} {shown₂ : l₂ → List ω}
variable {R : σ₁ → σ₂ → Prop}

/-- Each guarded step of `M₁` is matched by a guarded run of `M₂` that shows the same. -/
structure Simulates (M₁ : LTS σ₁ l₁) (G₁ : σ₁ → l₁ → Prop) (shown₁ : l₁ → List ω) (M₂ : LTS σ₂ l₂)
    (G₂ : σ₂ → l₂ → Prop) (shown₂ : l₂ → List ω) (R : σ₁ → σ₂ → Prop) : Prop where
  starts : ∀ s, M₁.init s → ∃ t, M₂.init t ∧ R s t
  matched : ∀ ⦃s t a s'⦄, R s t → G₁ s a → M₁.next s a = some s' →
    ∃ bs t', Steps M₂ G₂ t bs t' ∧ bs.flatMap shown₂ = shown₁ a ∧ R s' t'

/-- A run is matched by a run that shows the same. -/
theorem Simulates.steps (h : Simulates M₁ G₁ shown₁ M₂ G₂ shown₂ R) {s s' : σ₁} {t : σ₂}
    {as : List l₁} (hsteps : Steps M₁ G₁ s as s') (hrel : R s t) :
    ∃ bs t', Steps M₂ G₂ t bs t' ∧ bs.flatMap shown₂ = as.flatMap shown₁ ∧ R s' t' := by
  induction hsteps generalizing t with
  | nil => exact ⟨[], t, .nil t, rfl, hrel⟩
  | cons hguard hnext _ ih =>
      obtain ⟨bs, u, hrun, hshown, hu⟩ := h.matched hrel hguard hnext
      obtain ⟨cs, t', hrest, hshown', ht'⟩ := ih hu
      refine ⟨bs ++ cs, t', hrun.append hrest, ?_, ht'⟩
      rw [List.flatMap_append, List.flatMap_cons, hshown, hshown']

theorem Simulates.reach (h : Simulates M₁ G₁ shown₁ M₂ G₂ shown₂ R) {s : σ₁}
    (hreach : Reach M₁ G₁ s) : ∃ t, Reach M₂ G₂ t ∧ R s t := by
  obtain ⟨s₀, as, hinit, hsteps⟩ := hreach
  obtain ⟨t₀, hinit', hrel⟩ := h.starts s₀ hinit
  obtain ⟨bs, t, hrun, _, ht⟩ := h.steps hsteps hrel
  exact ⟨t, ⟨t₀, bs, hinit', hrun⟩, ht⟩

/-- Simulations compose. -/
theorem Simulates.trans {G₃ : σ₃ → l₃ → Prop} {shown₃ : l₃ → List ω} {R' : σ₂ → σ₃ → Prop}
    (h : Simulates M₁ G₁ shown₁ M₂ G₂ shown₂ R) (h' : Simulates M₂ G₂ shown₂ M₃ G₃ shown₃ R') :
    Simulates M₁ G₁ shown₁ M₃ G₃ shown₃ fun s u => ∃ t, R s t ∧ R' t u := by
  constructor
  · intro s hinit
    obtain ⟨t, hinit', hrel⟩ := h.starts s hinit
    obtain ⟨u, hinit'', hrel'⟩ := h'.starts t hinit'
    exact ⟨u, hinit'', t, hrel, hrel'⟩
  · rintro s u a s' ⟨t, hrel, hrel'⟩ hguard hnext
    obtain ⟨bs, t', hrun, hshown, hrel₁⟩ := h.matched hrel hguard hnext
    obtain ⟨cs, u', hrun', hshown', hrel₂⟩ := h'.steps hrun hrel'
    exact ⟨cs, u', hrun', hshown'.trans hshown, t', hrel₁, hrel₂⟩

/-! ## A system that is a function of another -/

/-- What there is to see of each step of a run, from its label and the state it leads to. -/
def trail (M : LTS σ₁ l₁) (see : l₁ → σ₁ → ω) : σ₁ → List l₁ → List ω
  | _, [] => []
  | s, a :: as =>
      match M.next s a with
      | some s' => see a s' :: M.trail see s' as
      | none => []

/-- Where each step is, under a function of the states, a step of the second system, the trail of a run
is a run between the values of the function at its ends. -/
theorem Steps.trail {I : σ₁ → Prop} {view : σ₁ → σ₂} {see : l₁ → σ₁ → l₂}
    (hpres : Preserves M₁ G₁ I)
    (hstep : ∀ s a s', I s → G₁ s a → M₁.next s a = some s' →
      G₂ (view s) (see a s') ∧ M₂.next (view s) (see a s') = some (view s'))
    {s t : σ₁} {as : List l₁} (h : Steps M₁ G₁ s as t) (hs : I s) :
    Steps M₂ G₂ (view s) (M₁.trail see s as) (view t) := by
  induction h with
  | nil s => exact .nil (view s)
  | cons hguard hnext _ ih =>
      obtain ⟨hguard', hnext'⟩ := hstep _ _ _ hs hguard hnext
      rw [LTS.trail, hnext]
      exact .cons hguard' hnext' (ih (hpres hs hguard hnext))

/-- The trail has an entry for each step. -/
theorem Steps.map_trail {see : l₁ → σ₁ → ω} {α : Type w} {f : ω → α} {g : l₁ → α}
    (hsee : ∀ a s, f (see a s) = g a) {s t : σ₁} {as : List l₁} (h : Steps M₁ G₁ s as t) :
    (M₁.trail see s as).map f = as.map g := by
  induction h with
  | nil s => rfl
  | cons _ hnext _ ih => rw [LTS.trail, hnext, List.map_cons, List.map_cons, hsee, ih]

end LTS

end Bluecross.Lib
