/-
# Bluecross.Lib.Transition — labelled transition systems whose labels carry every choice.

A system is a set of initial states and a partial function `next` from a state and a label to the
next state. All nondeterminism (scheduling, clocks, outcomes of I/O) sits in the labels, so `next`
is executable and a run is a list of labels. A run is *guarded* when each of its steps meets a
predicate on the state before the step and the label: `Steps M G`. Conditions on an environment are
stated as guards, and the trivial guard gives all runs.

Two rules carry every argument about runs: `Steps.invariant` (what one guarded step preserves, a
guarded run preserves) and its form for reachable states, `Reach.invariant`. An invariant that is
known already is available while a later one is proved (`Reach.invariant_of`). A log of a run is a
value computed along it (`record`), with an invariant rule of its own. Two runs with the same number
of steps are compared step by step (`Steps.lockstep`). Where a guard says exactly which steps keep a
property, the guarded runs are exactly those with the property throughout (`Steps.along_iff`).
-/
import Mathlib.Data.List.Forall2
import Mathlib.Logic.Basic

namespace Bluecross.Lib

universe u v w

/-- A labelled transition system. A state and a label determine the next state, if there is one. -/
structure LTS (σ : Type u) (l : Type v) where
  init : σ → Prop
  next : σ → l → Option σ

namespace LTS

variable {σ : Type u} {l : Type v} {γ : Type w} {M : LTS σ l} {G : σ → l → Prop} {I : σ → Prop}

/-- A run from one state to another, each of whose steps meets the guard `G`. -/
inductive Steps (M : LTS σ l) (G : σ → l → Prop) : σ → List l → σ → Prop
  | nil (s : σ) : Steps M G s [] s
  | cons {s s' t : σ} {a : l} {as : List l} :
      G s a → M.next s a = some s' → Steps M G s' as t → Steps M G s (a :: as) t

/-- The guard that every step meets. -/
def anyStep (_ : σ) (_ : l) : Prop := True

/-- The states that guarded runs reach from an initial state. -/
def Reach (M : LTS σ l) (G : σ → l → Prop) (t : σ) : Prop :=
  ∃ s ls, M.init s ∧ Steps M G s ls t

/-- What each guarded step preserves. -/
def Preserves (M : LTS σ l) (G : σ → l → Prop) (I : σ → Prop) : Prop :=
  ∀ ⦃s : σ⦄ ⦃a : l⦄ ⦃s' : σ⦄, I s → G s a → M.next s a = some s' → I s'

/-! ## Runs -/

theorem Steps.append {s t w : σ} {as bs : List l} (h₁ : Steps M G s as t)
    (h₂ : Steps M G t bs w) : Steps M G s (as ++ bs) w := by
  induction h₁ with
  | nil => exact h₂
  | cons hg hn _ ih => exact .cons hg hn (ih h₂)

theorem Steps.single {s s' : σ} {a : l} (hg : G s a) (hn : M.next s a = some s') :
    Steps M G s [a] s' :=
  .cons hg hn (.nil s')

/-- A run preserves what each of its steps preserves. -/
theorem Steps.invariant {s t : σ} {as : List l} (hpres : Preserves M G I)
    (h : Steps M G s as t) (hs : I s) : I t := by
  induction h with
  | nil => exact hs
  | cons hg hn _ ih => exact ih (hpres hs hg hn)

/-- A run that ends outside a property it had at its start leaves it for the last time at some step. -/
theorem Steps.last {P : σ → Prop} {s t : σ} {as : List l} (h : Steps M G s as t) (hs : P s)
    (ht : ¬ P t) : ∃ as₁ u a v as₂, as = as₁ ++ a :: as₂ ∧ Steps M G s as₁ u ∧ P u ∧ G u a ∧
      M.next u a = some v ∧ ¬ P v ∧ Steps M (fun w b => G w b ∧ ¬ P w) v as₂ t := by
  -- either the property never holds, or there is a last time
  have hsplit : (¬ P s ∧ Steps M (fun w b => G w b ∧ ¬ P w) s as t) ∨
      ∃ as₁ u a v as₂, as = as₁ ++ a :: as₂ ∧ Steps M G s as₁ u ∧ P u ∧ G u a ∧
        M.next u a = some v ∧ ¬ P v ∧ Steps M (fun w b => G w b ∧ ¬ P w) v as₂ t := by
    clear hs
    induction h with
    | nil s => exact Or.inl ⟨ht, .nil s⟩
    | @cons s s' t a as hg hn _ ih =>
        rcases ih ht with ⟨hnot, hrest⟩ | ⟨as₁, u, b, v, as₂, rfl, hfirst, hrest⟩
        · by_cases hs : P s
          · exact Or.inr ⟨[], s, a, s', as, rfl, .nil s, hs, hg, hn, hnot, hrest⟩
          · exact Or.inl ⟨hs, .cons ⟨hg, hs⟩ hn hrest⟩
        · exact Or.inr ⟨a :: as₁, u, b, v, as₂, rfl, .cons hg hn hfirst, hrest⟩
  rcases hsplit with ⟨hnot, _⟩ | hlast
  · exact absurd hs hnot
  · exact hlast

/-! ## Reachable states -/

theorem Reach.step {s s' : σ} {a : l} (h : Reach M G s) (hg : G s a)
    (hn : M.next s a = some s') : Reach M G s' := by
  obtain ⟨s₀, as, h₀, hs⟩ := h
  exact ⟨s₀, as ++ [a], h₀, hs.append (.single hg hn)⟩

theorem Reach.steps {s t : σ} {as : List l} (h : Reach M G s) (hs : Steps M G s as t) :
    Reach M G t := by
  obtain ⟨s₀, bs, h₀, hb⟩ := h
  exact ⟨s₀, bs ++ as, h₀, hb.append hs⟩

/-- The invariant rule: what holds initially and is preserved by every guarded step holds of every
reachable state. -/
theorem Reach.invariant {t : σ} (hinit : ∀ s, M.init s → I s) (hpres : Preserves M G I)
    (h : Reach M G t) : I t := by
  obtain ⟨s, as, h₀, hs⟩ := h
  exact hs.invariant hpres (hinit s h₀)

/-- The invariant rule relative to an invariant already known. -/
theorem Reach.invariant_of {t : σ} {K : σ → Prop} (hknown : ∀ s, Reach M G s → K s)
    (hinit : ∀ s, M.init s → I s)
    (hpres : Preserves M (fun s a => G s a ∧ K s) I) (h : Reach M G t) : I t := by
  obtain ⟨s, as, h₀, hs⟩ := h
  have hall : ∀ {s t : σ} {as : List l}, Reach M G s → Steps M G s as t → I s → I t := by
    intro s t as hr hs
    induction hs with
    | nil => exact id
    | cons hg hn _ ih =>
        intro hi
        exact ih (hr.step hg hn) (hpres hi ⟨hg, hknown _ hr⟩ hn)
  exact hall ⟨s, [], h₀, .nil s⟩ hs (hinit s h₀)

/-! ## Properties of all states of a run -/

/-- A property of every state that a list of labels passes through. -/
def Along (M : LTS σ l) (P : σ → Prop) : σ → List l → Prop
  | s, [] => P s
  | s, a :: as => P s ∧
      match M.next s a with
      | some s' => M.Along P s' as
      | none => True

theorem Along.head {P : σ → Prop} {s : σ} {as : List l} (h : M.Along P s as) : P s := by
  cases as with
  | nil => exact h
  | cons a as => exact h.1

/-- Where an invariant makes a property hold and a step keeps the property exactly when it meets the
guard, and then keeps the invariant too, the runs with the property throughout are the guarded ones. -/
theorem Steps.along_iff {P : σ → Prop} (hholds : ∀ s, I s → P s)
    (hstep : ∀ s a s', I s → M.next s a = some s' → (P s' ↔ G s a) ∧ (G s a → I s')) {s t : σ}
    {as : List l} (h : Steps M anyStep s as t) (hs : I s) :
    M.Along P s as ↔ Steps M G s as t := by
  induction h with
  | nil s => exact ⟨fun _ => .nil s, fun _ => hholds s hs⟩
  | @cons s s' t a as _ hnext _ ih =>
      obtain ⟨hexact, hkept⟩ := hstep s a s' hs hnext
      rw [Along, hnext]
      constructor
      · rintro ⟨_, hrest⟩
        have hguard := hexact.mp hrest.head
        exact .cons hguard hnext ((ih (hkept hguard)).mp hrest)
      · intro hsteps
        cases hsteps with
        | cons hguard hnext' hrest =>
            cases hnext.symm.trans hnext'
            exact ⟨hholds s hs, (ih (hkept hguard)).mpr hrest⟩

/-! ## Logs -/

/-- A log kept along a run: what `note` makes of each step, in turn. The run does not look at it. -/
def record (M : LTS σ l) (note : σ → l → γ → γ) : σ → List l → γ → γ
  | _, [], g => g
  | s, a :: as, g =>
      match M.next s a with
      | some s' => M.record note s' as (note s a g)
      | none => g

/-- The invariant rule for a state and a log. -/
theorem Steps.record_invariant {note : σ → l → γ → γ} {I : σ → γ → Prop}
    (hpres : ∀ s a s' g, I s g → G s a → M.next s a = some s' → I s' (note s a g)) {s t : σ}
    {as : List l} (h : Steps M G s as t) {g : γ} (hs : I s g) : I t (M.record note s as g) := by
  induction h generalizing g with
  | nil => exact hs
  | cons hg hn _ ih =>
      rw [record, hn]
      exact ih (hpres _ _ _ _ hs hg hn)

/-! ## Two runs -/

/-- The lockstep rule: a relation between two states with their logs that related steps preserve
holds after two runs whose labels are related one by one. -/
theorem Steps.lockstep {note : σ → l → γ → γ} {L : l → l → Prop} {I : σ → γ → σ → γ → Prop}
    (hpres : ∀ s g t h a b s' t', I s g t h → L a b → M.next s a = some s' → M.next t b = some t' →
      I s' (note s a g) t' (note t b h))
    {s s' t t' : σ} {as bs : List l} (hlabels : List.Forall₂ L as bs) (hs : Steps M G s as s')
    (ht : Steps M G t bs t') {g h : γ} (hstart : I s g t h) :
    I s' (M.record note s as g) t' (M.record note t bs h) := by
  induction hlabels generalizing s t g h with
  | nil =>
      cases hs
      cases ht
      exact hstart
  | cons hlabel _ ih =>
      cases hs with
      | cons _ hn hs =>
          cases ht with
          | cons _ hn' ht =>
              rw [record, record, hn, hn']
              exact ih hs ht (hpres _ _ _ _ _ _ _ _ hstart hlabel hn hn')

/-! ## Executing a list of labels -/

/-- Run a list of labels; `none` when one of them is not enabled. -/
def exec (M : LTS σ l) : σ → List l → Option σ
  | s, [] => some s
  | s, a :: as => (M.next s a).bind fun s' => M.exec s' as

/-- Every step of the execution meets the guard. -/
def Guarded (M : LTS σ l) (G : σ → l → Prop) : σ → List l → Prop
  | _, [] => True
  | s, a :: as => G s a ∧
      match M.next s a with
      | some s' => M.Guarded G s' as
      | none => True

/-- A guard that asks nothing of the state is met wherever the labels are run. -/
theorem guarded_of_forall {G : σ → l → Prop} {as : List l} (h : ∀ a ∈ as, ∀ s, G s a) (s : σ) :
    M.Guarded G s as := by
  induction as generalizing s with
  | nil => trivial
  | cons a as ih =>
      rw [List.forall_mem_cons] at h
      refine ⟨h.1 s, ?_⟩
      split
      · exact ih h.2 _
      · trivial

theorem guarded_anyStep (s : σ) (as : List l) : M.Guarded anyStep s as :=
  guarded_of_forall (fun _ _ _ => trivial) s

theorem steps_of_exec {s t : σ} {as : List l} (h : M.exec s as = some t)
    (hguard : M.Guarded G s as) : Steps M G s as t := by
  induction as generalizing s with
  | nil =>
      simp only [exec, Option.some.injEq] at h
      subst h
      exact .nil s
  | cons a as ih =>
      simp only [exec, Option.bind_eq_some_iff] at h
      obtain ⟨s', hn, hrest⟩ := h
      obtain ⟨ha, has⟩ := hguard
      rw [hn] at has
      exact .cons ha hn (ih hrest has)

end LTS

end Bluecross.Lib
