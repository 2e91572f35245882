/-
# Bluecross.EdgeArithmetic — where `check_edge` sends the pointer, and when its arithmetic is exact.

In a debug build an operation that leaves the range of `i32` stops the program; `checkedCheckEdge`
evaluates `check_edge` in that way, operation by operation in the order of the source, and has no
answer when one of them does. `checkedEdgeOf_eq_some` says which numbers have to fit: the threshold of
a far edge, and, when the edge is reached, the depth and the product behind the entry point.

The four positions are two edges along each of two axes. What is said here of all four is said of the
coordinate *across* the edge and of the one *along* it.
-/
import Bluecross.Lib.CheckedArith
import Bluecross.Client
import Bluecross.ConfigLoading
import Bluecross.Server

namespace Bluecross

open Lib

namespace ScreenPosition

/-- The edges away from the origin: their trigger is one pixel nearer. -/
def far : ScreenPosition → Bool
  | .left | .top => false
  | .right | .bottom => true

/-- The one of two quantities that belongs to the axis across the edge. -/
def across {α : Type} (horizontal vertical : α) : ScreenPosition → α
  | .left | .right => horizontal
  | .top | .bottom => vertical

/-- The one that belongs to the axis along the edge. -/
def along {α : Type} (horizontal vertical : α) : ScreenPosition → α
  | .left | .right => vertical
  | .top | .bottom => horizontal

/-- The point with these coordinates across and along the edge is `(p.across a b, p.along a b)`. -/
theorem across_point {α : Type} (p : ScreenPosition) (a b : α) :
    p.across (p.across a b) (p.along a b) = a := by
  cases p <;> rfl

theorem along_point {α : Type} (p : ScreenPosition) (a b : α) :
    p.along (p.across a b) (p.along a b) = b := by
  cases p <;> rfl

end ScreenPosition

namespace Server

variable {τ : Type}

/-! ## The checked evaluation -/

/-- `coord * client / server`. -/
def checkedScale (coord clientSize serverSize : Int32) : Option Int32 := do
  checkedDiv (← checkedMul coord clientSize) serverSize

/-- `server - threshold - 1`. -/
def checkedFarEdge (serverSize threshold : Int32) : Option Int32 := do
  checkedSub (← checkedSub serverSize threshold) 1

/-- `edgeOf` in a build that checks for overflow. -/
def checkedEdgeOf (config : ServerConfig) (x y : Int32) (name : String) (client : ClientInfo τ) :
    Option (Option (String × Int32 × Int32)) :=
  let threshold := config.edgeThreshold
  let serverW := config.screenWidth
  let serverH := config.screenHeight
  let entryOffset : Int32 := 100
  match client.position with
  | .left =>
      if x ≤ threshold then do
        let entryX ← checkedSub client.screenWidth entryOffset
        let entryY ← checkedScale y client.screenHeight serverH
        return some (name, entryX, entryY)
      else return none
  | .right => do
      let edge ← checkedFarEdge serverW threshold
      if x ≥ edge then
        let entryY ← checkedScale y client.screenHeight serverH
        return some (name, entryOffset, entryY)
      else return none
  | .top =>
      if y ≤ threshold then do
        let entryX ← checkedScale x client.screenWidth serverW
        let entryY ← checkedSub client.screenHeight entryOffset
        return some (name, entryX, entryY)
      else return none
  | .bottom => do
      let edge ← checkedFarEdge serverH threshold
      if y ≥ edge then
        let entryX ← checkedScale x client.screenWidth serverW
        return some (name, entryX, entryOffset)
      else return none

/-- `check_edge` as a debug build evaluates it; no answer stands for an overflow. -/
def checkedCheckEdge (env : Env τ) (s : Server τ) (x y : Int32) :
    Option (Option (String × Int32 × Int32)) :=
  (env.order.1 s.clients).findSomeM? fun entry => checkedEdgeOf s.config x y entry.1 entry.2

/-! ## Triggers and entry points -/

/-- The trigger condition of a position. -/
def triggers (config : ServerConfig) (x y : Int32) : ScreenPosition → Bool
  | .left => x ≤ config.edgeThreshold
  | .right => x ≥ config.screenWidth - config.edgeThreshold - 1
  | .top => y ≤ config.edgeThreshold
  | .bottom => y ≥ config.screenHeight - config.edgeThreshold - 1

/-- The entry point on the screen of a client whose edge is reached. -/
def entryOf (config : ServerConfig) (x y : Int32) (client : ClientInfo τ) : Int32 × Int32 :=
  match client.position with
  | .left => (client.screenWidth - 100, y * client.screenHeight / config.screenHeight)
  | .right => (100, y * client.screenHeight / config.screenHeight)
  | .top => (x * client.screenWidth / config.screenWidth, client.screenHeight - 100)
  | .bottom => (x * client.screenWidth / config.screenWidth, 100)

/-- A coordinate of the server's screen on a client's. -/
def scale (clientSize serverSize coord : Int32) : Int32 := coord * clientSize / serverSize

/-- The sizes of the server's screen across and along an edge. -/
def acrossSize (config : ServerConfig) (p : ScreenPosition) : Int32 :=
  p.across config.screenWidth config.screenHeight

/-- The size of the screen along an edge. -/
def alongSize (config : ServerConfig) (p : ScreenPosition) : Int32 :=
  p.along config.screenWidth config.screenHeight

variable {config : ServerConfig} {x y : Int32} {name : String} {client : ClientInfo τ}

theorem edgeOf_eq :
    edgeOf config x y name client =
      if triggers config x y client.position then some (name, entryOf config x y client)
      else none := by
  obtain ⟨position, w, h, tx⟩ := client
  cases position <;> simp [edgeOf, triggers, entryOf]

theorem edgeOf_eq_none :
    edgeOf config x y name client = none ↔ ¬ triggers config x y client.position := by
  rw [edgeOf_eq]
  split <;> simp_all

/-- The answer for an entry is under its name, for a client at an edge that is reached. -/
theorem edgeOf_eq_some {n : String} {entry : Int32 × Int32} :
    edgeOf config x y n client = some (name, entry) ↔
      n = name ∧ triggers config x y client.position ∧ entryOf config x y client = entry := by
  rw [edgeOf_eq]
  split
  · rename_i htriggers
    simp [htriggers]
  · rename_i hnot
    simp [hnot]

theorem across_entryOf :
    client.position.across (entryOf config x y client).1 (entryOf config x y client).2 =
      if client.position.far then 100
      else client.position.across client.screenWidth client.screenHeight - 100 := by
  obtain ⟨position, w, h, tx⟩ := client
  cases position <;> rfl

theorem along_entryOf :
    client.position.along (entryOf config x y client).1 (entryOf config x y client).2 =
      scale (client.position.along client.screenWidth client.screenHeight)
        (alongSize config client.position) (client.position.along x y) := by
  obtain ⟨position, w, h, tx⟩ := client
  cases position <;> rfl

theorem triggers_eq {p : ScreenPosition} :
    triggers config x y p =
      if p.far then decide (acrossSize config p - config.edgeThreshold - 1 ≤ p.across x y)
      else decide (p.across x y ≤ config.edgeThreshold) := by
  cases p <;> rfl

/-- The threshold of a far edge is in range, and so is what it is compared with. -/
@[mk_iff]
structure ThresholdFits (config : ServerConfig) (p : ScreenPosition) : Prop where
  nearer : p.far → FitsI32 ((acrossSize config p).toInt - config.edgeThreshold.toInt)
  last : p.far → FitsI32 ((acrossSize config p).toInt - config.edgeThreshold.toInt - 1)

/-- The numbers `check_edge` computes for a client are in range. -/
@[mk_iff]
structure EdgeFits (config : ServerConfig) (x y : Int32) (client : ClientInfo τ) : Prop where
  threshold : ThresholdFits config client.position
  depth : triggers config x y client.position → client.position.far = false →
    FitsI32 ((client.position.across client.screenWidth client.screenHeight).toInt - 100)
  product : triggers config x y client.position →
    FitsI32 ((client.position.along x y).toInt *
      (client.position.along client.screenWidth client.screenHeight).toInt)

/-! ## The checked evaluation against the wrapping one -/

theorem checkedScale_bind {β : Type} {k : Int32 → Option β} {r : β}
    {coord clientSize serverSize : Int32} (hpos : 0 < serverSize) :
    (checkedScale coord clientSize serverSize).bind k = some r ↔
      FitsI32 (coord.toInt * clientSize.toInt) ∧
        k (coord * clientSize / serverSize) = some r := by
  have hpos' := toInt_pos_iff.mp hpos
  have hne : serverSize ≠ 0 := by
    rintro rfl
    exact absurd hpos' (by decide)
  refine bind_eq_some_of fun u => ?_
  refine checkedMul_bind.trans (and_congr_right fun _ => ?_)
  rw [checkedDiv_eq_some]
  exact ⟨fun h => h.2.2, fun h => ⟨hne, fits_tdiv (fits_toInt _) hpos', h⟩⟩

theorem checkedFarEdge_bind {β : Type} {k : Int32 → Option β} {r : β}
    {serverSize threshold : Int32} :
    (checkedFarEdge serverSize threshold).bind k = some r ↔
      (FitsI32 (serverSize.toInt - threshold.toInt) ∧
        FitsI32 (serverSize.toInt - threshold.toInt - 1)) ∧
        k (serverSize - threshold - 1) = some r := by
  refine bind_eq_some_of fun u => ?_
  refine checkedSub_bind.trans ?_
  rw [and_assoc]
  refine and_congr_right fun hfits => ?_
  rw [checkedSub_eq_some, toInt_sub hfits]
  rfl

/-- The checked evaluation answers exactly when the numbers are in range, and then as the release
build does. -/
theorem checkedEdgeOf_eq_some (hsized : config.Sized) {r : Option (String × Int32 × Int32)} :
    checkedEdgeOf config x y name client = some r ↔
      EdgeFits config x y client ∧ edgeOf config x y name client = r := by
  obtain ⟨hw, hh⟩ := hsized
  obtain ⟨position, w, h, tx⟩ := client
  rw [edgeOf_eq, edgeFits_iff, thresholdFits_iff]
  cases position with
  | left =>
      by_cases hreached : x ≤ config.edgeThreshold
      · simp [checkedEdgeOf, entryOf, triggers, hreached, ScreenPosition.far, ScreenPosition.across,
          ScreenPosition.along, checkedSub_bind, checkedScale_bind hh, and_assoc]
      · simp [checkedEdgeOf, triggers, hreached, ScreenPosition.far]
  | top =>
      by_cases hreached : y ≤ config.edgeThreshold
      · simp [checkedEdgeOf, entryOf, triggers, hreached, ScreenPosition.far, ScreenPosition.across,
          ScreenPosition.along, checkedSub_bind, checkedScale_bind hw, and_assoc, and_left_comm]
      · simp [checkedEdgeOf, triggers, hreached, ScreenPosition.far]
  | right =>
      by_cases hreached : config.screenWidth - config.edgeThreshold - 1 ≤ x
      · simp [checkedEdgeOf, entryOf, triggers, hreached, ScreenPosition.far, ScreenPosition.along,
          ScreenPosition.across, acrossSize, checkedFarEdge_bind, checkedScale_bind hh, and_assoc]
      · simp [checkedEdgeOf, triggers, hreached, ScreenPosition.far, ScreenPosition.across,
          acrossSize, checkedFarEdge_bind]
  | bottom =>
      by_cases hreached : config.screenHeight - config.edgeThreshold - 1 ≤ y
      · simp [checkedEdgeOf, entryOf, triggers, hreached, ScreenPosition.far, ScreenPosition.along,
          ScreenPosition.across, acrossSize, checkedFarEdge_bind, checkedScale_bind hw, and_assoc]
      · simp [checkedEdgeOf, triggers, hreached, ScreenPosition.far, ScreenPosition.across,
          acrossSize, checkedFarEdge_bind]

/-- Where a debug build answers, it answers as the release build does. -/
theorem checkEdge_of_checked {s : Server τ} (hsized : s.config.Sized) {env : Env τ}
    {r : Option (String × Int32 × Int32)} (h : s.checkedCheckEdge env x y = some r) :
    s.checkEdge env x y = r :=
  findSome?_of_findSomeM? (fun _ _ _ hedge => ((checkedEdgeOf_eq_some hsized).mp hedge).2) h

/-! ## In exact integers -/

theorem acrossSize_pos (hsized : config.Sized) (p : ScreenPosition) : 0 < acrossSize config p := by
  cases p
  · exact hsized.1
  · exact hsized.1
  · exact hsized.2
  · exact hsized.2

theorem alongSize_pos (hsized : config.Sized) (p : ScreenPosition) : 0 < alongSize config p := by
  cases p
  · exact hsized.2
  · exact hsized.2
  · exact hsized.1
  · exact hsized.1

/-- A trigger in exact integers. -/
theorem triggers_iff {p : ScreenPosition} (hfits : ThresholdFits config p) :
    triggers config x y p ↔
      if p.far then
        (acrossSize config p).toInt - config.edgeThreshold.toInt - 1 ≤ (p.across x y).toInt
      else (p.across x y).toInt ≤ config.edgeThreshold.toInt := by
  obtain ⟨hnearer, hlast⟩ := hfits
  rw [triggers_eq]
  split
  · rename_i hfar
    have hsub := toInt_sub (hnearer hfar)
    have hone := toInt_sub (hsub.symm ▸ hlast hfar : FitsI32 (_ - (1 : Int32).toInt))
    rw [decide_eq_true_eq, Int32.le_iff_toInt_le, hone, hsub]
    rfl
  · rw [decide_eq_true_eq, Int32.le_iff_toInt_le]

theorem scale_zero (clientSize serverSize : Int32) : scale clientSize serverSize 0 = 0 := by
  rw [scale, Int32.zero_mul, Int32.zero_div]

theorem toInt_scale {coord clientSize serverSize : Int32} (hcoord : InScreen coord serverSize)
    (hclient : 0 < clientSize) (hfits : FitsI32 (coord.toInt * clientSize.toInt)) :
    (scale clientSize serverSize coord).toInt
      = coord.toInt * clientSize.toInt / serverSize.toInt := by
  obtain ⟨hlow, hhigh⟩ := hcoord
  rw [Int32.le_iff_toInt_le, Int32.toInt_zero] at hlow
  rw [Int32.lt_iff_toInt_lt] at hhigh
  have hmul := toInt_mul hfits
  have hdiv := fits_tdiv hfits (by omega : 0 < serverSize.toInt)
  have hnonneg := Int.mul_nonneg hlow (toInt_pos_iff.mp hclient).le
  rw [scale, toInt_div (hmul.symm ▸ hdiv), hmul, Int.tdiv_eq_ediv_of_nonneg hnonneg]

/-! ## Coordinates -/

theorem inScreen_iff {coord size : Int32} :
    InScreen coord size ↔ 0 ≤ coord.toInt ∧ coord.toInt < size.toInt := by
  rw [InScreen, Int32.le_iff_toInt_le, Int32.lt_iff_toInt_lt, Int32.toInt_zero]

/-- What holds on both axes, across an edge and along it, holds horizontally and vertically. -/
theorem on_axes {P : Int32 → Int32 → Prop} {a b w h : Int32} (p : ScreenPosition)
    (hacross : P (p.across a b) (p.across w h)) (halong : P (p.along a b) (p.along w h)) :
    P a w ∧ P b h := by
  cases p
  · exact ⟨hacross, halong⟩
  · exact ⟨hacross, halong⟩
  · exact ⟨halong, hacross⟩
  · exact ⟨halong, hacross⟩

theorem along_inScreen (hx : InScreen x config.screenWidth) (hy : InScreen y config.screenHeight)
    (p : ScreenPosition) : InScreen (p.along x y) (alongSize config p) := by
  cases p <;> assumption

theorem across_inScreen (hx : InScreen x config.screenWidth) (hy : InScreen y config.screenHeight)
    (p : ScreenPosition) : InScreen (p.across x y) (acrossSize config p) := by
  cases p <;> assumption

theorem point_inScreen {p : ScreenPosition} {a b : Int32} (ha : InScreen a (acrossSize config p))
    (hb : InScreen b (alongSize config p)) :
    InScreen (p.across a b) config.screenWidth ∧ InScreen (p.along a b) config.screenHeight := by
  cases p
  · exact ⟨ha, hb⟩
  · exact ⟨ha, hb⟩
  · exact ⟨hb, ha⟩
  · exact ⟨hb, ha⟩

theorem last_inScreen {size : Int32} (hsize : 0 < size) : InScreen (size - 1) size := by
  have hpos := toInt_pos_iff.mp hsize
  rw [inScreen_iff, toInt_last hsize]
  omega

/-- The coordinate across an edge that is nearest to it. -/
def outermost (config : ServerConfig) (p : ScreenPosition) : Int32 :=
  if p.far then acrossSize config p - 1 else 0

theorem outermost_inScreen (hsized : config.Sized) (p : ScreenPosition) :
    InScreen (outermost config p) (acrossSize config p) := by
  have hpos := acrossSize_pos hsized p
  unfold outermost
  split
  · exact last_inScreen hpos
  · exact ⟨Int32.le_refl 0, hpos⟩

/-! ## Thresholds -/

/-- Where the threshold of a far edge does not exceed the range, all of its arithmetic is exact. -/
theorem thresholdFits_iff_lt (hsized : config.Sized) {p : ScreenPosition} :
    ThresholdFits config p ↔
      (p.far → (acrossSize config p).toInt - config.edgeThreshold.toInt < 2 ^ 31) := by
  have hpos := toInt_pos_iff.mp (acrossSize_pos hsized p)
  have hthreshold := Int32.toInt_lt config.edgeThreshold
  constructor
  · exact fun h hfar => (h.nearer hfar).2
  · intro h
    refine ⟨fun hfar => ?_, fun hfar => ?_⟩
    · exact ⟨by omega, h hfar⟩
    · have := h hfar
      exact ⟨by omega, by omega⟩

theorem thresholdFits_of_nonneg (hsized : config.Sized) (h : 0 ≤ config.edgeThreshold.toInt)
    {p : ScreenPosition} : ThresholdFits config p := by
  have hsize := Int32.toInt_lt (acrossSize config p)
  exact (thresholdFits_iff_lt hsized).mpr fun _ => by omega

/-- The outermost cursor is at every edge whose threshold is not negative. -/
theorem triggers_outermost (hsized : config.Sized) (h : 0 ≤ config.edgeThreshold.toInt)
    {p : ScreenPosition} (houter : p.across x y = outermost config p) : triggers config x y p := by
  rw [triggers_iff (thresholdFits_of_nonneg hsized h), houter, outermost]
  split
  · rw [toInt_last (acrossSize_pos hsized p)]
    omega
  · rw [Int32.toInt_zero]
    exact h

/-- The trigger of a far edge, as it wraps. -/
theorem toInt_farEdge (size threshold : Int32) :
    (size - threshold - 1).toInt = (size.toInt - threshold.toInt - 1).bmod (2 ^ 32) := by
  rw [Int32.toInt_sub, Int32.toInt_sub, Int.bmod_sub_bmod]
  rfl

/-- The trigger of a far edge is past the largest number, and wraps to a negative one. -/
def Overruns (config : ServerConfig) (p : ScreenPosition) : Prop :=
  p.far ∧ 2 ^ 31 ≤ (acrossSize config p).toInt - config.edgeThreshold.toInt - 1

instance (config : ServerConfig) (p : ScreenPosition) : Decidable (Overruns config p) :=
  inferInstanceAs (Decidable (_ ∧ _))

/-- With a negative threshold an edge is reached from everywhere in the screen or from nowhere. -/
theorem triggers_of_neg (hneg : config.edgeThreshold.toInt < 0)
    (hx : InScreen x config.screenWidth) (hy : InScreen y config.screenHeight)
    {p : ScreenPosition} : triggers config x y p ↔ Overruns config p := by
  obtain ⟨hlow, hhigh⟩ := inScreen_iff.mp (across_inScreen hx hy p)
  have hsize := Int32.toInt_lt (acrossSize config p)
  have hthreshold := Int32.le_toInt config.edgeThreshold
  rw [triggers_eq, Overruns]
  cases hfar : p.far with
  | false =>
      rw [if_neg Bool.false_ne_true, decide_eq_true_eq, Int32.le_iff_toInt_le]
      constructor
      · intro h
        omega
      · rintro ⟨h, _⟩
        cases h
  | true =>
      rw [if_pos rfl, decide_eq_true_eq, Int32.le_iff_toInt_le, toInt_farEdge, and_iff_right rfl]
      by_cases hwraps : (acrossSize config p).toInt - config.edgeThreshold.toInt - 1 < 2 ^ 31
      · rw [Int.bmod_eq_of_le (by omega) (by omega)]
        omega
      · rw [← Int.sub_bmod_right, Int.bmod_eq_of_le (by omega) (by omega)]
        omega

/-- Only a threshold that is not negative is reached from inside the screen. -/
theorem nonneg_of_triggers {p : ScreenPosition} (hfits : ThresholdFits config p)
    (hx : InScreen x config.screenWidth) (hy : InScreen y config.screenHeight)
    (h : triggers config x y p) : 0 ≤ config.edgeThreshold.toInt := by
  obtain ⟨hlow, hhigh⟩ := inScreen_iff.mp (across_inScreen hx hy p)
  rw [triggers_iff hfits] at h
  split at h <;> omega

/-! ## Entry points -/

/-- The client that `check_edge` answers with is at an edge that is reached. -/
theorem checkEdge_eq_some {env : Env τ} {s : Server τ} {ex ey : Int32}
    (h : s.checkEdge env x y = some (name, ex, ey)) (hclient : s.clients.lookup name = some client) :
    triggers s.config x y client.position ∧ entryOf s.config x y client = (ex, ey) := by
  obtain ⟨⟨n, c⟩, hmem, hedge⟩ := List.exists_of_findSome?_eq_some h
  have hc := env.order.mem_iff.mp hmem
  obtain ⟨rfl, htriggers, hentry⟩ := edgeOf_eq_some.mp hedge
  rw [hclient] at hc
  cases hc
  exact ⟨htriggers, hentry⟩

/-- The test of the client for its exit edge looks across the edge. -/
theorem edgeTest_fst (p : ScreenPosition) (w h ex ey dx dy : Int32) :
    (ClientState.edgeTest p w h ex ey dx dy).1 =
      if p.far then decide (p.across ex ey ≤ 0) else decide (p.across w h - 1 ≤ p.across ex ey) := by
  cases p <;> rfl

/-- The depth of an entry point, on a screen that is more than a hundred wide. -/
theorem toInt_across_entryOf
    (hsize : 101 ≤ (client.position.across client.screenWidth client.screenHeight).toInt) :
    (client.position.across (entryOf config x y client).1 (entryOf config x y client).2).toInt =
      if client.position.far then 100
      else (client.position.across client.screenWidth client.screenHeight).toInt - 100 := by
  have hlt := Int32.toInt_lt (client.position.across client.screenWidth client.screenHeight)
  have hoffset : (100 : Int32).toInt = 100 := rfl
  rw [across_entryOf]
  split
  · rfl
  · rw [toInt_sub ⟨by omega, by omega⟩, hoffset]

/-- The coordinate along the edge, scaled from the one screen to the other, stays inside. -/
theorem scale_lt {coord clientSize serverSize : Int} (hlow : 0 ≤ coord) (hhigh : coord < serverSize)
    (hclient : 0 < clientSize) :
    0 ≤ coord * clientSize / serverSize ∧ coord * clientSize / serverSize < clientSize := by
  have hserver : 0 < serverSize := by omega
  refine ⟨Int.ediv_nonneg (Int.mul_nonneg hlow hclient.le) hserver.le, ?_⟩
  rw [Int.ediv_lt_iff_lt_mul hserver, Int.mul_comm clientSize]
  exact Int.mul_lt_mul_of_pos_right hhigh hclient

/-- A server's screen whose coordinates can be scaled to the client's, and a client's screen that an
entry point fits into. -/
structure Scalable (config : ServerConfig) (client : ClientInfo τ) : Prop where
  serverWidth : 0 < config.screenWidth ∧ config.screenWidth ≤ 46340
  serverHeight : 0 < config.screenHeight ∧ config.screenHeight ≤ 46340
  clientWidth : 101 ≤ client.screenWidth ∧ client.screenWidth ≤ 46340
  clientHeight : 101 ≤ client.screenHeight ∧ client.screenHeight ≤ 46340

namespace Scalable

theorem sized (h : Scalable config client) : config.Sized :=
  ⟨h.serverWidth.1, h.serverHeight.1⟩

theorem across_size (h : Scalable config client) :
    101 ≤ (client.position.across client.screenWidth client.screenHeight).toInt := by
  have hlow : (101 : Int32) ≤ client.position.across client.screenWidth client.screenHeight := by
    cases client.position
    · exact h.clientWidth.1
    · exact h.clientWidth.1
    · exact h.clientHeight.1
    · exact h.clientHeight.1
  rw [Int32.le_iff_toInt_le] at hlow
  exact hlow

/-- Along the edge, both sizes are positive and at most 46340. -/
theorem along_sizes (h : Scalable config client) :
    (0 < (alongSize config client.position).toInt ∧
      (alongSize config client.position).toInt ≤ 46340) ∧
    0 < (client.position.along client.screenWidth client.screenHeight).toInt ∧
      (client.position.along client.screenWidth client.screenHeight).toInt ≤ 46340 := by
  have hlimit : (46340 : Int32).toInt = 46340 := rfl
  have hleast : (101 : Int32).toInt = 101 := rfl
  obtain ⟨⟨hW, hW'⟩, ⟨hH, hH'⟩, ⟨hw, hw'⟩, ⟨hh, hh'⟩⟩ := h
  simp only [toInt_pos_iff, Int32.le_iff_toInt_le, hlimit, hleast] at hW hW' hH hH' hw hw' hh hh'
  cases client.position <;> simp only [alongSize, ScreenPosition.along] <;> omega

/-- The product behind the entry point is in range. -/
theorem product_fits (h : Scalable config client) {a : Int32}
    (ha : InScreen a (alongSize config client.position)) :
    FitsI32 (a.toInt *
      (client.position.along client.screenWidth client.screenHeight).toInt) := by
  obtain ⟨⟨_, hserver⟩, hpos, hclient⟩ := h.along_sizes
  obtain ⟨hlow, hhigh⟩ := inScreen_iff.mp ha
  have hnonneg := Int.mul_nonneg hlow hpos.le
  have hbound := Int.mul_le_mul (by omega : a.toInt ≤ 46339) hclient hpos.le (by omega)
  exact ⟨by omega, by omega⟩

/-- Along the edge, an entry point is the cursor, scaled. -/
theorem toInt_scale (h : Scalable config client) {a : Int32}
    (ha : InScreen a (alongSize config client.position)) :
    (scale (client.position.along client.screenWidth client.screenHeight)
        (alongSize config client.position) a).toInt =
      a.toInt * (client.position.along client.screenWidth client.screenHeight).toInt
        / (alongSize config client.position).toInt :=
  Server.toInt_scale ha (toInt_pos_iff.mpr h.along_sizes.2.1) (h.product_fits ha)

theorem edgeFits (h : Scalable config client) (hthreshold : ThresholdFits config client.position)
    (hx : InScreen x config.screenWidth) (hy : InScreen y config.screenHeight) :
    EdgeFits config x y client := by
  have hsize := h.across_size
  have hlt := Int32.toInt_lt (client.position.across client.screenWidth client.screenHeight)
  exact ⟨hthreshold, fun _ _ => ⟨by omega, by omega⟩, fun _ => h.product_fits (along_inScreen hx hy _)⟩

/-- Across the edge, an entry point is in the screen and the client does not take it for its exit. -/
theorem entry_across (h : Scalable config client) (dx dy : Int32) :
    InScreen (client.position.across (entryOf config x y client).1 (entryOf config x y client).2)
        (client.position.across client.screenWidth client.screenHeight) ∧
      (ClientState.edgeTest client.position client.screenWidth client.screenHeight
        (entryOf config x y client).1 (entryOf config x y client).2 dx dy).1 = false := by
  have hsize := h.across_size
  have hdepth := @toInt_across_entryOf _ config x y client hsize
  have hpos : 0 < (client.position.across client.screenWidth client.screenHeight).toInt := by omega
  have hlast := toInt_last (toInt_pos_iff.mpr hpos)
  rw [inScreen_iff, edgeTest_fst]
  cases hfar : client.position.far with
  | true =>
      rw [hfar, if_pos rfl] at hdepth
      rw [if_pos rfl, decide_eq_false_iff_not, Int32.le_iff_toInt_le, Int32.toInt_zero]
      omega
  | false =>
      rw [hfar, if_neg Bool.false_ne_true] at hdepth
      rw [if_neg Bool.false_ne_true, decide_eq_false_iff_not, Int32.le_iff_toInt_le, hlast]
      omega

theorem entry_along (h : Scalable config client) (hx : InScreen x config.screenWidth)
    (hy : InScreen y config.screenHeight) :
    InScreen (client.position.along (entryOf config x y client).1 (entryOf config x y client).2)
      (client.position.along client.screenWidth client.screenHeight) := by
  have halong := along_inScreen hx hy client.position
  obtain ⟨hlow, hhigh⟩ := inScreen_iff.mp halong
  rw [inScreen_iff, along_entryOf, h.toInt_scale halong]
  exact scale_lt hlow hhigh h.along_sizes.2.1

theorem scale_mono (h : Scalable config client) {a b : Int32}
    (ha : InScreen a (alongSize config client.position))
    (hb : InScreen b (alongSize config client.position)) (hab : a ≤ b) :
    scale (client.position.along client.screenWidth client.screenHeight)
        (alongSize config client.position) a ≤
      scale (client.position.along client.screenWidth client.screenHeight)
        (alongSize config client.position) b := by
  rw [Int32.le_iff_toInt_le] at hab ⊢
  rw [h.toInt_scale ha, h.toInt_scale hb]
  exact Int.ediv_le_ediv h.along_sizes.1.1 (Int.mul_le_mul_of_nonneg_right hab h.along_sizes.2.1.le)

end Scalable

/-- An entry point is inside the screen of the client and away from its exit edge, the arithmetic
behind it is exact, and along the edge it follows the cursor. -/
theorem entry_inside {env : Env τ} {s : Server τ} {ex ey : Int32}
    (hscalable : Scalable s.config client)
    (hthreshold : ∀ n c, s.clients.lookup n = some c → ThresholdFits s.config c.position)
    (hregistered : s.clients.lookup name = some client)
    (hx : InScreen x s.config.screenWidth) (hy : InScreen y s.config.screenHeight)
    (hedge : s.checkEdge env x y = some (name, ex, ey)) :
    s.checkedCheckEdge env x y = some (some (name, ex, ey)) ∧
      InScreen ex client.screenWidth ∧ InScreen ey client.screenHeight ∧
      (∀ dx dy, (ClientState.edgeTest client.position client.screenWidth client.screenHeight
        ex ey dx dy).1 = false) ∧
      ∃ f : Int32 → Int32, f 0 = 0 ∧
        (∀ a b, InScreen a (alongSize s.config client.position) →
          InScreen b (alongSize s.config client.position) → a ≤ b → f a ≤ f b) ∧
        ∀ (env : Env τ) (x y ex ey : Int32), InScreen x s.config.screenWidth →
          InScreen y s.config.screenHeight → s.checkEdge env x y = some (name, ex, ey) →
          client.position.along ex ey = f (client.position.along x y) := by
  obtain ⟨_, hentry⟩ := checkEdge_eq_some hedge hregistered
  have hplace := on_axes client.position (hscalable.entry_across (x := x) (y := y) 0 0).1
    (hscalable.entry_along hx hy)
  rw [hentry] at hplace
  refine ⟨?_, hplace.1, hplace.2, ?_, ?_⟩
  · -- the clients before this one are not at their edge, so only their thresholds are computed
    refine findSomeM?_of_findSome? hedge ?_ ?_
    · rintro ⟨n, c⟩ hmem hmiss
      have hc := hthreshold n c (env.order.mem_iff.mp hmem)
      have hnot := edgeOf_eq_none.mp hmiss
      exact (checkedEdgeOf_eq_some hscalable.sized).mpr
        ⟨⟨hc, fun h => absurd h hnot, fun h => absurd h hnot⟩, hmiss⟩
    · rintro ⟨n, c⟩ hmem hhit
      have hc := env.order.mem_iff.mp hmem
      obtain ⟨rfl, _, _⟩ := edgeOf_eq_some.mp hhit
      rw [hregistered] at hc
      cases hc
      have hfits := hscalable.edgeFits (hthreshold n client hregistered) hx hy
      exact (checkedEdgeOf_eq_some hscalable.sized).mpr ⟨hfits, hhit⟩
  · intro dx dy
    have htest := (hscalable.entry_across (x := x) (y := y) dx dy).2
    rw [hentry] at htest
    exact htest
  · refine ⟨scale (client.position.along client.screenWidth client.screenHeight)
      (alongSize s.config client.position), scale_zero _ _, ?_, ?_⟩
    · exact fun _ _ ha hb hab => hscalable.scale_mono ha hb hab
    · intro _ x y ex ey _ _ hedge
      obtain ⟨_, hentry⟩ := checkEdge_eq_some hedge hregistered
      rw [← along_entryOf, hentry]

/-- A server with a laptop to the right of its screen. -/
def houseServer (threshold : Int32) : Server Unit :=
  { (Server.new (houseConfig threshold) ClipboardManager.new 0 : Server Unit) with
    clients := AList.singleton "laptop" ⟨.right, 800, 600, ()⟩ }

theorem lookup_singleton_eq_some {β : Type} {n : String} {v w : β} :
    (AList.singleton name v : AList fun _ : String => β).lookup n = some w ↔ n = name ∧ w = v := by
  rw [← AList.insert_empty]
  by_cases hn : n = name
  · subst hn
    rw [AList.lookup_insert]
    simp [eq_comm]
  · rw [AList.lookup_insert_ne hn, AList.lookup_empty]
    simp [hn]

theorem entry_inside_house :
    ∃ ex ey : Int32, (houseServer 5).checkedCheckEdge ⟨0, .entries Unit⟩ 1919 540
        = some (some ("laptop", ex, ey)) ∧
      InScreen ex 800 ∧ InScreen ey 600 ∧
      (ClientState.edgeTest .right 800 600 ex ey (-1) 0).1 = false := by
  have hscalable : Scalable (houseServer 5).config (⟨.right, 800, 600, ()⟩ : ClientInfo Unit) :=
    ⟨by decide, by decide, by decide, by decide⟩
  have hthreshold : ∀ n c, (houseServer 5).clients.lookup n = some c →
      ThresholdFits (houseServer 5).config c.position := by
    intro n c h
    obtain ⟨_, rfl⟩ := lookup_singleton_eq_some.mp h
    exact ⟨fun _ => by decide, fun _ => by decide⟩
  obtain ⟨hchecked, hx, hy, hoff, _⟩ := entry_inside hscalable hthreshold rfl
    ⟨by decide, by decide⟩ ⟨by decide, by decide⟩ (rfl : (houseServer 5).checkEdge ⟨0, .entries Unit⟩ 1919 540 =
      some ("laptop", 100, 300))
  exact ⟨100, 300, hchecked, hx, hy, hoff (-1) 0⟩

end Server

end Bluecross
