/-
# Bluecross.Lib.Stamps — events of a list, stamped with the running total before them.

Some elements of a list carry an event (`key`), and all of them carry a weight in an additive
monoid. `stamps` lists the events, each with the sum of the weights ahead of it. Two lists whose
stamps agree have the same events in the same order, and the same totals at each of them.

`stamps_eq_const_iff` is the comparison used later: a list whose weights are held back until its end
stamps all its events alike, and that is right only where nothing was held back.
-/
import Mathlib.Algebra.BigOperators.Group.List.Basic

namespace Bluecross.Lib

universe u v w

variable {α : Type u} {κ : Type v} {M : Type w} [AddMonoid M] {key : α → Option κ} {weight : α → M}

/-- The events of a list, each with the total of the weights ahead of it. -/
def stamps (key : α → Option κ) (weight : α → M) : M → List α → List (κ × M)
  | _, [] => []
  | total, a :: l =>
      (key a).toList.map (·, total) ++ stamps key weight (total + weight a) l

theorem stamps_append (total : M) (l₁ l₂ : List α) :
    stamps key weight total (l₁ ++ l₂)
      = stamps key weight total l₁ ++ stamps key weight (total + (l₁.map weight).sum) l₂ := by
  induction l₁ generalizing total with
  | nil =>
      rw [List.map_nil, List.sum_nil, add_zero]
      rfl
  | cons a l ih =>
      rw [List.cons_append, stamps, ih, stamps, List.append_assoc, List.map_cons, List.sum_cons,
        add_assoc]

/-- The events alone do not depend on the weights. -/
theorem map_fst_stamps (total : M) (l : List α) :
    (stamps key weight total l).map Prod.fst = l.filterMap key := by
  induction l generalizing total with
  | nil => rfl
  | cons a l ih =>
      rw [stamps, List.map_append, ih, List.map_map]
      rcases hkey : key a with _ | k
      · rw [List.filterMap_cons_none hkey]
        rfl
      · rw [List.filterMap_cons_some hkey]
        rfl

theorem length_stamps (total : M) (l : List α) :
    (stamps key weight total l).length = (l.filterMap key).length := by
  have h : ((stamps key weight total l).map Prod.fst).length = (l.filterMap key).length :=
    congrArg List.length (map_fst_stamps total l)
  rw [List.length_map] at h
  exact h

/-- Where nothing has weight, all stamps are the total at the start. -/
theorem stamps_of_weightless {l : List α} (total : M) (h : ∀ a ∈ l, weight a = 0) :
    stamps key weight total l = (l.filterMap key).map (·, total) := by
  induction l with
  | nil => rfl
  | cons a l ih =>
      have ha : weight a = 0 := h a (List.mem_cons_self ..)
      have hl := ih fun b hb => h b (List.mem_cons_of_mem a hb)
      rw [stamps, ha, add_zero, hl]
      rcases hkey : key a with _ | k
      · rw [List.filterMap_cons_none hkey]
        rfl
      · rw [List.filterMap_cons_some hkey]
        rfl

/-- All events of a list are stamped alike exactly when the weights ahead of each make no
difference. -/
theorem stamps_eq_const_iff (total const : M) (l : List α) :
    stamps key weight total l = (l.filterMap key).map (·, const) ↔
      ∀ before a after, l = before ++ a :: after → (key a).isSome →
        total + (before.map weight).sum = const := by
  induction l generalizing total with
  | nil =>
      refine ⟨?_, fun _ => rfl⟩
      intro _ before a after h
      have hlen := congrArg List.length h
      rw [List.length_append, List.length_cons, List.length_nil] at hlen
      omega
  | cons a l ih =>
      have hsplit : (∀ before b after, a :: l = before ++ b :: after → (key b).isSome →
            total + (before.map weight).sum = const) ↔
          ((key a).isSome → total = const) ∧
            ∀ before b after, l = before ++ b :: after → (key b).isSome →
              total + weight a + (before.map weight).sum = const := by
        constructor
        · intro h
          refine ⟨?_, ?_⟩
          · intro ha
            have h₀ := h [] a l rfl ha
            rw [List.map_nil, List.sum_nil, add_zero] at h₀
            exact h₀
          · intro before b after hl hb
            have h₁ := h (a :: before) b after (by rw [hl, List.cons_append]) hb
            rw [List.map_cons, List.sum_cons, ← add_assoc] at h₁
            exact h₁
        · rintro ⟨ha, hl⟩ before b after h hb
          cases before with
          | nil =>
              obtain ⟨rfl, rfl⟩ := List.cons.inj h
              rw [List.map_nil, List.sum_nil, add_zero]
              exact ha hb
          | cons c before =>
              obtain ⟨rfl, hrest⟩ := List.cons.inj h
              rw [List.map_cons, List.sum_cons, ← add_assoc]
              exact hl before b after hrest hb
      rw [hsplit, ← ih, stamps]
      rcases hkey : key a with _ | k
      · rw [List.filterMap_cons_none hkey]
        simp
      · rw [List.filterMap_cons_some hkey]
        simp

end Bluecross.Lib
