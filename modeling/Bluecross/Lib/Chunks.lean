/-
# Bluecross.Lib.Chunks — a list cut into pieces of a fixed size.

`chunks n xs` is Rust's `slice::chunks` for a positive size. Two facts describe it: the pieces put
together again are the list (`flatten_chunks`), and every piece is nonempty and at most `n` long
(`mem_chunks`). Both go by `chunks_induction`, which drops one piece at a time.
-/
import Mathlib.Data.List.Basic

namespace Bluecross.Lib

variable {α : Type*}

/-- Pieces of `n` elements, the last one possibly shorter. -/
def chunks (n : Nat) (xs : List α) : List (List α) :=
  if xs = [] ∨ n = 0 then [] else xs.take n :: chunks n (xs.drop n)
termination_by xs.length
decreasing_by
  rename_i h
  rw [List.length_drop]
  have : xs.length ≠ 0 := fun hl => h (.inl (List.length_eq_zero_iff.mp hl))
  omega

theorem chunks_nil (n : Nat) : chunks n ([] : List α) = [] := by
  rw [chunks, if_pos (.inl rfl)]

theorem chunks_of_ne_nil {n : Nat} {xs : List α} (hn : n ≠ 0) (hxs : xs ≠ []) :
    chunks n xs = xs.take n :: chunks n (xs.drop n) := by
  rw [chunks, if_neg (by simp [hn, hxs])]

/-- Induction along `chunks`. -/
theorem chunks_induction {n : Nat} (hn : n ≠ 0) {motive : List α → Prop}
    (nil : motive []) (step : ∀ xs, xs ≠ [] → motive (xs.drop n) → motive xs)
    (xs : List α) : motive xs := by
  induction hl : xs.length using Nat.strongRecOn generalizing xs with
  | _ l ih =>
      by_cases hxs : xs = []
      · subst hxs
        exact nil
      · have hpos : xs.length ≠ 0 := fun h => hxs (List.length_eq_zero_iff.mp h)
        refine step xs hxs (ih (xs.drop n).length ?_ _ rfl)
        rw [List.length_drop]
        omega

/-- The pieces, put together again, are the whole. -/
theorem flatten_chunks {n : Nat} (hn : n ≠ 0) (xs : List α) :
    (chunks n xs).flatten = xs := by
  induction xs using chunks_induction hn with
  | nil => rw [chunks_nil]; rfl
  | step xs hxs ih =>
      rw [chunks_of_ne_nil hn hxs, List.flatten_cons, ih, List.take_append_drop]

/-- No piece is empty, and none is longer than the size asked for. -/
theorem mem_chunks {n : Nat} (hn : n ≠ 0) {xs c : List α} (h : c ∈ chunks n xs) :
    c ≠ [] ∧ c.length ≤ n := by
  induction xs using chunks_induction hn with
  | nil => rw [chunks_nil] at h; cases h
  | step xs hxs ih =>
      rw [chunks_of_ne_nil hn hxs] at h
      rcases List.mem_cons.mp h with rfl | hmem
      · refine ⟨?_, ?_⟩
        · intro hnil
          rcases List.take_eq_nil_iff.mp hnil with h0 | h0
          · exact hn h0
          · exact hxs h0
        · rw [List.length_take]
          omega
      · exact ih hmem

end Bluecross.Lib
