/-
# Bluecross.Lib.Settling — guarded runs that must come to rest.

A rank is a number for each state. Where every guarded step lowers it, a guarded run is at most as
long as the rank it starts from, and some guarded run leads to a state from which none goes on. The
steps may need an invariant to lower the rank; `Lowers` asks for both at once.

The rank of a system of many parts is the sum of the ranks of its parts; `sum_update` is how it
changes with one of them.
-/
import Bluecross.Lib.Transition
import Mathlib.Algebra.BigOperators.Group.List.Basic
import Mathlib.Algebra.GroupWithZero.Nat
import Mathlib.Algebra.Ring.Int.Defs

namespace Bluecross.Lib

universe u v

namespace LTS

variable {σ : Type u} {l : Type v} {M : LTS σ l} {G : σ → l → Prop} {I : σ → Prop} {rank : σ → Nat}

/-- No guarded step leads on. -/
def Settled (M : LTS σ l) (G : σ → l → Prop) (s : σ) : Prop :=
  ∀ a s', G s a → M.next s a ≠ some s'

/-- Guarded steps keep the invariant and lower the rank. -/
structure Lowers (M : LTS σ l) (G : σ → l → Prop) (I : σ → Prop) (rank : σ → Nat) : Prop where
  keeps : Preserves M G I
  lowers : ∀ s a s', I s → G s a → M.next s a = some s' → rank s' < rank s

/-- A run under one guard is a run under every weaker one. -/
theorem Steps.weaken {H : σ → l → Prop} (hle : ∀ s a, G s a → H s a) {s t : σ} {as : List l}
    (h : Steps M G s as t) : Steps M H s as t := by
  induction h with
  | nil s => exact .nil s
  | cons hguard hnext _ ih => exact .cons (hle _ _ hguard) hnext ih

theorem Steps.and {H : σ → l → Prop} {s t t' : σ} {as : List l} (h : Steps M G s as t)
    (h' : Steps M H s as t') : Steps M (fun s a => G s a ∧ H s a) s as t := by
  induction h with
  | nil s => exact .nil s
  | cons hguard hnext _ ih =>
      cases h' with
      | cons hguard' hnext' hrest =>
          cases hnext.symm.trans hnext'
          exact .cons ⟨hguard, hguard'⟩ hnext (ih hrest)

theorem Lowers.strengthen {H : σ → l → Prop} (h : Lowers M G I rank) (hle : ∀ s a, H s a → G s a) :
    Lowers M H I rank :=
  ⟨fun _ _ _ hs hguard => h.keeps hs (hle _ _ hguard),
    fun s a s' hs hguard => h.lowers s a s' hs (hle s a hguard)⟩

/-- A guarded run is no longer than the rank it uses up. -/
theorem Lowers.length_le (h : Lowers M G I rank) {s t : σ} {as : List l}
    (hsteps : Steps M G s as t) (hs : I s) : as.length + rank t ≤ rank s := by
  induction hsteps with
  | nil => exact Nat.le_of_eq (Nat.zero_add _)
  | @cons s s' t a as hguard hnext _ ih =>
      have hrest := ih (h.keeps hs hguard hnext)
      have hless := h.lowers s a s' hs hguard hnext
      rw [List.length_cons]
      omega

/-- From every state a guarded run leads to one from which none goes on. -/
theorem Lowers.settles (h : Lowers M G I rank) {s : σ} (hs : I s) :
    ∃ as t, Steps M G s as t ∧ Settled M G t := by
  induction hrank : rank s using Nat.strongRecOn generalizing s with
  | _ n ih =>
      subst hrank
      by_cases hsettled : Settled M G s
      · exact ⟨[], s, .nil s, hsettled⟩
      · unfold Settled at hsettled
        push Not at hsettled
        obtain ⟨a, s', hguard, hnext⟩ := hsettled
        obtain ⟨as, t, hsteps, ht⟩ :=
          ih (rank s') (h.lowers s a s' hs hguard hnext) (h.keeps hs hguard hnext) rfl
        exact ⟨a :: as, t, .cons hguard hnext hsteps, ht⟩

end LTS

/-! ## The rank of a family -/

variable {κ : Type u} [DecidableEq κ] {β : Type v}

/-- A change of one member changes the sum over distinct keys by the change of its weight. -/
theorem sum_update (weight : β → Nat) (f : κ → β) {keys : List κ} (hnodup : keys.Nodup) {k : κ}
    (hk : k ∈ keys) (b : β) :
    (keys.map fun i => weight (Function.update f k b i)).sum + weight (f k)
      = (keys.map fun i => weight (f i)).sum + weight b := by
  induction keys with
  | nil => cases hk
  | cons i keys ih =>
      obtain ⟨hi, hrest⟩ := List.nodup_cons.mp hnodup
      rw [List.map_cons, List.map_cons, List.sum_cons, List.sum_cons]
      by_cases heq : i = k
      · subst heq
        -- the key does not come again
        have hsame : (keys.map fun j => weight (Function.update f i b j))
            = keys.map fun j => weight (f j) := by
          apply List.map_congr_left
          intro j hj
          have hne : j ≠ i := fun h => hi (h ▸ hj)
          rw [Function.update_of_ne hne]
        rw [hsame, Function.update_self]
        omega
      · rw [Function.update_of_ne heq]
        have hmem : k ∈ keys := by
          rcases List.mem_cons.mp hk with h | h
          · exact absurd h.symm heq
          · exact h
        have hsum := ih hrest hmem
        omega

end Bluecross.Lib
