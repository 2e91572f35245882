/-
# Bluecross.Lib.CheckedArith — 32-bit arithmetic that notices when it leaves its range.

A checked operation answers with the exact result, or with nothing when that is out of range or not
defined. Where it answers, the wrapping operation of `Int32` has the same result
(`checkedSub_eq_some` and its like), and the result is the exact integer (`toInt_sub` and its like), so
a computation that is checked step by step can be carried on in `Int`.
-/
import Mathlib.Data.Int.Basic
import Mathlib.Algebra.Order.Group.Int

namespace Bluecross.Lib

/-- A number in the range of 32 bits with a sign. -/
def FitsI32 (n : Int) : Prop := -2 ^ 31 ≤ n ∧ n < 2 ^ 31

instance (n : Int) : Decidable (FitsI32 n) := inferInstanceAs (Decidable (_ ∧ _))

/-- The number, if it is in range. -/
def checked (n : Int) : Option Int32 := if FitsI32 n then some (Int32.ofInt n) else none

/-- A difference that fits. -/
def checkedSub (a b : Int32) : Option Int32 := checked (a.toInt - b.toInt)

/-- A product that fits. -/
def checkedMul (a b : Int32) : Option Int32 := checked (a.toInt * b.toInt)

/-- Division truncates towards zero; a zero divisor has no quotient. -/
def checkedDiv (a b : Int32) : Option Int32 :=
  if b = 0 then none else checked (a.toInt.tdiv b.toInt)

variable {a b c : Int32} {n : Int}

theorem fits_toInt (a : Int32) : FitsI32 a.toInt := ⟨Int32.le_toInt a, Int32.toInt_lt a⟩

/-- A quotient is no larger than what is divided. -/
theorem fits_tdiv {d : Int} (h : FitsI32 n) (hd : 0 < d) : FitsI32 (n.tdiv d) := by
  obtain ⟨hlow, hhigh⟩ := h
  have hsmall := Int.natAbs_tdiv_le_natAbs n d
  rcases Int.le_total 0 n with hn | hn
  · have hpos := Int.tdiv_nonneg hn hd.le
    constructor <;> omega
  · have hpos := Int.tdiv_nonneg (Int.neg_nonneg.mpr hn) hd.le
    rw [Int.neg_tdiv] at hpos
    constructor <;> omega

theorem checked_eq_some : checked n = some c ↔ FitsI32 n ∧ Int32.ofInt n = c := by
  unfold checked
  split
  · rename_i h
    simp [h]
  · rename_i h
    simp [h]

/-! ## Exact results -/

theorem toInt_sub (h : FitsI32 (a.toInt - b.toInt)) : (a - b).toInt = a.toInt - b.toInt := by
  obtain ⟨hlow, hhigh⟩ := h
  rw [Int32.toInt_sub, Int.bmod_eq_of_le] <;> omega

theorem toInt_add (h : FitsI32 (a.toInt + b.toInt)) : (a + b).toInt = a.toInt + b.toInt := by
  obtain ⟨hlow, hhigh⟩ := h
  rw [Int32.toInt_add, Int.bmod_eq_of_le] <;> omega

theorem toInt_mul (h : FitsI32 (a.toInt * b.toInt)) : (a * b).toInt = a.toInt * b.toInt := by
  obtain ⟨hlow, hhigh⟩ := h
  rw [Int32.toInt_mul, Int.bmod_eq_of_le] <;> omega

theorem toInt_div (h : FitsI32 (a.toInt.tdiv b.toInt)) : (a / b).toInt = a.toInt.tdiv b.toInt := by
  obtain ⟨hlow, hhigh⟩ := h
  rw [Int32.toInt_div, Int.bmod_eq_of_le] <;> omega

/-! ## Checked and wrapping operations -/

theorem checkedSub_eq_some : checkedSub a b = some c ↔ FitsI32 (a.toInt - b.toInt) ∧ a - b = c := by
  rw [checkedSub, checked_eq_some, Int32.ofInt_sub, Int32.ofInt_toInt, Int32.ofInt_toInt]

theorem checkedMul_eq_some : checkedMul a b = some c ↔ FitsI32 (a.toInt * b.toInt) ∧ a * b = c := by
  rw [checkedMul, checked_eq_some, Int32.ofInt_mul, Int32.ofInt_toInt, Int32.ofInt_toInt]

theorem checkedDiv_eq_some :
    checkedDiv a b = some c ↔ b ≠ 0 ∧ FitsI32 (a.toInt.tdiv b.toInt) ∧ a / b = c := by
  unfold checkedDiv
  split
  · rename_i hzero
    simp [hzero]
  · rename_i hzero
    rw [checked_eq_some]
    constructor
    · rintro ⟨hfits, rfl⟩
      refine ⟨hzero, hfits, ?_⟩
      rw [← toInt_div hfits, Int32.ofInt_toInt]
    · rintro ⟨_, hfits, rfl⟩
      refine ⟨hfits, ?_⟩
      rw [← toInt_div hfits, Int32.ofInt_toInt]

/-! ## Programs of checked steps -/

/-- A step that answers with `v` if `p`, and the rest of the program after it. -/
theorem bind_eq_some_of {α β : Type} {o : Option α} {p : Prop} {v : α} {k : α → Option β} {r : β}
    (h : ∀ u, o = some u ↔ p ∧ v = u) : o.bind k = some r ↔ p ∧ k v = some r := by
  rw [Option.bind_eq_some_iff]
  constructor
  · rintro ⟨u, hu, hk⟩
    obtain ⟨hp, rfl⟩ := (h u).mp hu
    exact ⟨hp, hk⟩
  · rintro ⟨hp, hk⟩
    exact ⟨v, (h v).mpr ⟨hp, rfl⟩, hk⟩

theorem checkedSub_bind {β : Type} {k : Int32 → Option β} {r : β} :
    (checkedSub a b).bind k = some r ↔ FitsI32 (a.toInt - b.toInt) ∧ k (a - b) = some r :=
  bind_eq_some_of fun _ => checkedSub_eq_some

theorem checkedMul_bind {β : Type} {k : Int32 → Option β} {r : β} :
    (checkedMul a b).bind k = some r ↔ FitsI32 (a.toInt * b.toInt) ∧ k (a * b) = some r :=
  bind_eq_some_of fun _ => checkedMul_eq_some

/-! ## Searches with checked steps -/

section Search

variable {α β : Type} {f : α → Option (Option β)} {g : α → Option β} {l : List α} {r : β}

/-- A search finds what the unchecked one finds if the steps up to there are fine. -/
theorem findSomeM?_of_findSome? (hfound : l.findSome? g = some r)
    (hmiss : ∀ a ∈ l, g a = none → f a = some none)
    (hhit : ∀ a ∈ l, g a = some r → f a = some (some r)) : l.findSomeM? f = some (some r) := by
  induction l with
  | nil => cases hfound
  | cons a l ih =>
      rw [List.findSome?_cons] at hfound
      rw [List.findSomeM?_cons]
      cases ha : g a with
      | none =>
          rw [ha] at hfound
          rw [hmiss a (List.mem_cons_self ..) ha]
          exact ih hfound (fun b hb => hmiss b (List.mem_cons_of_mem a hb))
            fun b hb => hhit b (List.mem_cons_of_mem a hb)
      | some b =>
          rw [ha] at hfound
          cases hfound
          rw [hhit a (List.mem_cons_self ..) ha]
          rfl

/-- What a search answers is what the unchecked one answers. -/
theorem findSome?_of_findSomeM? {r : Option β} (hsound : ∀ a ∈ l, ∀ found, f a = some found → g a = found)
    (h : l.findSomeM? f = some r) : l.findSome? g = r := by
  induction l with
  | nil =>
      cases h
      rfl
  | cons a l ih =>
      rw [List.findSomeM?_cons] at h
      rw [List.findSome?_cons]
      cases ha : f a with
      | none =>
          rw [ha] at h
          cases h
      | some found =>
          rw [ha] at h
          rw [hsound a (List.mem_cons_self ..) found ha]
          cases found with
          | none => exact ih (fun b hb => hsound b (List.mem_cons_of_mem a hb)) h
          | some b =>
              cases h
              rfl

/-- A search is fine if every step is. -/
theorem findSomeM?_ne_none (h : ∀ a ∈ l, f a ≠ none) : l.findSomeM? f ≠ none := by
  induction l with
  | nil => exact Option.some_ne_none none
  | cons a l ih =>
      rw [List.findSomeM?_cons]
      cases ha : f a with
      | none => exact absurd ha (h a (List.mem_cons_self ..))
      | some found =>
          cases found with
          | none => exact ih fun b hb => h b (List.mem_cons_of_mem a hb)
          | some b => exact Option.some_ne_none (some b)

end Search

end Bluecross.Lib
