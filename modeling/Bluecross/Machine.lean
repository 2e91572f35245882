/-
# Bluecross.Machine — the machine integers and the clock.

`i32`, `i64` and `u16` of the source are `Int32`, `Int64` and `UInt16`; their arithmetic wraps, as
it does in the release build. `Instant` is a reading of the monotonic clock in nanoseconds.

`Int32` with wrapping addition is a commutative group. The instance below is what makes the sums of
displacements in later modules (`List.sum` over pairs of `Int32`) Mathlib's own.
-/
import Mathlib.Algebra.Group.Prod
import Mathlib.Algebra.BigOperators.Group.List.Basic
import Mathlib.Algebra.GroupWithZero.Nat
import Mathlib.Algebra.Ring.Int.Defs

namespace Bluecross

/-! ## `i32` -/

instance addCommGroupInt32 : AddCommGroup Int32 where
  add_assoc := Int32.add_assoc
  zero_add := Int32.zero_add
  add_zero := Int32.add_zero
  add_comm := Int32.add_comm
  neg_add_cancel a := Int32.add_left_neg a
  sub_eq_add_neg := Int32.sub_eq_add_neg
  nsmul := nsmulRec
  zsmul := zsmulRec

/-- The comparison `i32::clamp` makes. The source panics when `lo > hi`; every call has
`lo = 0` and `hi` one less than a screen size. -/
def clamp (x lo hi : Int32) : Int32 :=
  if x < lo then lo else if x > hi then hi else x

/-- A coordinate inside a screen of the given size. -/
def InScreen (x size : Int32) : Prop := 0 ≤ x ∧ x < size

theorem clamp_inScreen (x : Int32) {size : Int32} (hsize : 0 < size) :
    InScreen (clamp x 0 (size - 1)) size := by
  unfold InScreen clamp
  grind

theorem toInt_pos_iff {size : Int32} : 0 < size ↔ 0 < size.toInt := by
  rw [Int32.lt_iff_toInt_lt, Int32.toInt_zero]

/-- The last coordinate of a screen. -/
theorem toInt_last {size : Int32} (hsize : 0 < size) : (size - 1).toInt = size.toInt - 1 := by
  have hpos := toInt_pos_iff.mp hsize
  have hlt := Int32.toInt_lt size
  rw [Int32.toInt_sub, Int32.toInt_one, Int.bmod_eq_of_le] <;> omega

/-- Clamping to a screen, in exact integers. -/
theorem toInt_clamp {size : Int32} (hsize : 0 < size) (x : Int32) :
    (clamp x 0 (size - 1)).toInt = max 0 (min x.toInt (size.toInt - 1)) := by
  have hpos := toInt_pos_iff.mp hsize
  have hlast := toInt_last hsize
  unfold clamp
  split
  · rename_i hneg
    rw [Int32.lt_iff_toInt_lt, Int32.toInt_zero] at hneg
    rw [Int32.toInt_zero]
    omega
  · rename_i hneg
    rw [Int32.lt_iff_toInt_lt, Int32.toInt_zero] at hneg
    split
    · rename_i hbig
      rw [gt_iff_lt, Int32.lt_iff_toInt_lt, hlast] at hbig
      omega
    · rename_i hbig
      rw [gt_iff_lt, Int32.lt_iff_toInt_lt, hlast] at hbig
      omega

/-- Half of a size: division truncates towards zero, which for a positive size is the floor. -/
theorem toInt_half {size : Int32} (hsize : 0 < size) : (size / 2).toInt = size.toInt / 2 := by
  have hpos := toInt_pos_iff.mp hsize
  have hlt := Int32.toInt_lt size
  have htwo : (2 : Int32).toInt = 2 := rfl
  rw [Int32.toInt_div, htwo, Int.tdiv_eq_ediv_of_nonneg (by omega)]
  rw [Int.bmod_eq_of_le] <;> omega

theorem half_inScreen {size : Int32} (hsize : 0 < size) : InScreen (size / 2) size := by
  have hpos := toInt_pos_iff.mp hsize
  have hhalf := toInt_half hsize
  have hzero : (0 : Int32).toInt = 0 := rfl
  refine ⟨?_, ?_⟩
  · rw [Int32.le_iff_toInt_le, hhalf, hzero]
    omega
  · rw [Int32.lt_iff_toInt_lt, hhalf]
    omega

/-! ## The clock -/

/-- A reading of the monotonic clock, in nanoseconds. -/
abbrev Instant := Nat

/-- A span of time, in nanoseconds. -/
abbrev Duration := Nat

/-- A duration in nanoseconds. -/
def Duration.fromMillis (ms : Nat) : Duration := ms * 1000000

/-- The span from `earlier` to `now`; zero when the readings are the other way round. -/
def Instant.durationSince (now earlier : Instant) : Duration := now - earlier

end Bluecross
