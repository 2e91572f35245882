/-
# Bluecross.Bounce — which thresholds make every edge work and leave the centre alone.

When control comes back the cursor is put in the centre, and it has to stay with the server until it
is moved to an edge. That takes a threshold that is not negative, or no cursor reaches the edge, and
that ends before the centre. `loadServerConfig` accepts every threshold, so both can fail.

A negative threshold fails whatever the build does with overflows: the trigger of a far edge is out of
the screen or, where it wraps, below every coordinate.
-/
import Bluecross.EdgeArithmetic
import Bluecross.ServerControl

namespace Bluecross

namespace Server

variable {τ : Type}

/-- Control stays with the server after a client has been deactivated, also through a motion of no
length. -/
def Settles (s : Server τ) (name : String) : Prop :=
  ∀ env : Env τ,
    (s.deactivate name).checkEdge env (s.deactivate name).mouseX (s.deactivate name).mouseY = none ∧
    ∀ {χ : Type} [Mailbox χ τ] (ch : χ),
      ((s.deactivate name).handleInput env ch (.mouseMove 0 0)).1.activeClient = none

/-- Somewhere in the screen the cursor reaches the edge. -/
def EdgeReachable (config : ServerConfig) (p : ScreenPosition) : Prop :=
  ∃ x y, InScreen x config.screenWidth ∧ InScreen y config.screenHeight ∧ triggers config x y p

/-- The trigger zone of an edge is not empty and ends before the centre. -/
def ThresholdClear (config : ServerConfig) (p : ScreenPosition) : Prop :=
  0 ≤ config.edgeThreshold.toInt ∧
    if p.far then
      (acrossSize config p).toInt / 2
        < (acrossSize config p).toInt - config.edgeThreshold.toInt - 1
    else config.edgeThreshold.toInt < (acrossSize config p).toInt / 2

instance (config : ServerConfig) (p : ScreenPosition) : Decidable (ThresholdClear config p) :=
  inferInstanceAs (Decidable (_ ∧ _))

variable {config : ServerConfig} {p : ScreenPosition} {x y : Int32}

/-! ## One edge -/

/-- The centre across an edge. -/
theorem across_centre (hsized : config.Sized) :
    (p.across (config.screenWidth / 2) (config.screenHeight / 2)).toInt
      = (acrossSize config p).toInt / 2 := by
  cases p
  · exact toInt_half hsized.1
  · exact toInt_half hsized.1
  · exact toInt_half hsized.2
  · exact toInt_half hsized.2

/-- The centre does not trigger an edge with a clear threshold. -/
theorem not_triggers_centre (hsized : config.Sized) (hclear : ThresholdClear config p) :
    ¬ triggers config (config.screenWidth / 2) (config.screenHeight / 2) p := by
  obtain ⟨hnonneg, hbefore⟩ := hclear
  rw [triggers_iff (thresholdFits_of_nonneg hsized hnonneg), across_centre hsized]
  cases hfar : p.far with
  | false =>
      rw [hfar, if_neg Bool.false_ne_true] at hbefore
      rw [if_neg Bool.false_ne_true]
      omega
  | true =>
      rw [hfar, if_pos rfl] at hbefore
      rw [if_pos rfl]
      omega

/-- The outermost cursor reaches every edge whose threshold is not negative. -/
theorem edgeReachable_of_nonneg (hsized : config.Sized) (h : 0 ≤ config.edgeThreshold.toInt) :
    EdgeReachable config p := by
  have hzero : InScreen 0 (alongSize config p) := ⟨Int32.le_refl 0, alongSize_pos hsized p⟩
  obtain ⟨hx, hy⟩ := point_inScreen (outermost_inScreen hsized p) hzero
  refine ⟨_, _, hx, hy, triggers_outermost hsized h ?_⟩
  exact p.across_point _ _

/-- A negative threshold either triggers in the centre or nowhere. -/
theorem nonneg_of_reachable (hsized : config.Sized) (hreachable : EdgeReachable config p)
    (hcentre : ¬ triggers config (config.screenWidth / 2) (config.screenHeight / 2) p) :
    0 ≤ config.edgeThreshold.toInt := by
  by_contra hneg
  rw [Int.not_le] at hneg
  obtain ⟨x, y, hx, hy, htriggers⟩ := hreachable
  have hoverruns := (triggers_of_neg hneg hx hy).mp htriggers
  exact hcentre ((triggers_of_neg hneg (half_inScreen hsized.1) (half_inScreen hsized.2)).mpr hoverruns)

/-- Both purposes of an edge are met if and only if its threshold is clear. -/
theorem thresholdClear_iff (hsized : config.Sized) :
    ThresholdClear config p ↔
      ¬ triggers config (config.screenWidth / 2) (config.screenHeight / 2) p ∧
        EdgeReachable config p := by
  constructor
  · intro h
    exact ⟨not_triggers_centre hsized h, edgeReachable_of_nonneg hsized h.1⟩
  · rintro ⟨hcentre, hreachable⟩
    have hnonneg := nonneg_of_reachable hsized hreachable hcentre
    refine ⟨hnonneg, ?_⟩
    rw [triggers_iff (thresholdFits_of_nonneg hsized hnonneg), across_centre hsized] at hcentre
    cases hfar : p.far with
    | false =>
        rw [hfar, if_neg Bool.false_ne_true] at hcentre
        rw [if_neg Bool.false_ne_true]
        omega
    | true =>
        rw [hfar, if_pos rfl] at hcentre
        rw [if_pos rfl]
        omega

/-! ## All registered clients -/

variable {s : Server τ} {name : String}

/-- No client is chosen, in any order, if and only if none is at its edge. -/
theorem checkEdge_eq_none_iff :
    (∀ env, s.checkEdge env x y = none) ↔
      ∀ n c, s.clients.lookup n = some c → ¬ triggers s.config x y c.position := by
  constructor
  · intro h n c hc
    have hnone := List.findSome?_eq_none_iff.mp (h ⟨0, .entries τ⟩) (n, c)
      ((HashOrder.entries τ).mem_iff.mpr hc)
    exact edgeOf_eq_none.mp hnone
  · intro h env
    refine List.findSome?_eq_none_iff.mpr ?_
    rintro ⟨n, c⟩ hmem
    exact edgeOf_eq_none.mpr (h n c (env.order.mem_iff.mp hmem))

/-- The centre does not move through a motion of no length. -/
theorem moveCursor_zero {s : Server τ} (hx : InScreen s.mouseX s.config.screenWidth)
    (hy : InScreen s.mouseY s.config.screenHeight) : s.moveCursor 0 0 = s := by
  have hclamp : ∀ {coord size : Int32}, InScreen coord size → clamp (coord + 0) 0 (size - 1) = coord := by
    intro coord size h
    obtain ⟨hlow, hhigh⟩ := inScreen_iff.mp h
    rw [Int32.add_zero, ← Int32.toInt_inj, toInt_clamp (toInt_pos_iff.mpr (by omega))]
    omega
  rw [moveCursor, hclamp hx, hclamp hy]

/-- A client that is deactivated leaves the cursor in the centre, so control settles there if and only
if the centre triggers no edge. -/
theorem settles_iff (hsized : s.config.Sized) (hactive : s.activeClient = some name) :
    Settles s name ↔
      ∀ n c, s.clients.lookup n = some c →
        ¬ triggers s.config (s.config.screenWidth / 2) (s.config.screenHeight / 2) c.position := by
  rw [← checkEdge_eq_none_iff]
  have hafter := deactivate_of_active hactive
  have hsame : ∀ env, (s.deactivate name).checkEdge env (s.deactivate name).mouseX
      (s.deactivate name).mouseY
        = s.checkEdge env (s.config.screenWidth / 2) (s.config.screenHeight / 2) := by
    intro env
    rw [hafter]
    rfl
  constructor
  · intro h env
    rw [← hsame env]
    exact (h env).1
  · intro h env
    refine ⟨(hsame env).trans (h env), ?_⟩
    intro χ _ ch
    have hstill : (s.deactivate name).moveCursor 0 0 = s.deactivate name := by
      rw [hafter]
      exact moveCursor_zero (half_inScreen hsized.1) (half_inScreen hsized.2)
    have hidle : (s.deactivate name).activeClient = none := by
      rw [hafter]
    simp only [handleInput, hstill, hidle, hsame env, h env]

/-- Control stays where it was returned to and every edge works, if and only if the threshold is clear
at the edge of every registered client. -/
theorem edges_work_iff {env : LoadEnv} (hload : loadServerConfig env = .ok s.config)
    (hactive : s.activeClient = some name) :
    (Settles s name ∧ ∀ n c, s.clients.lookup n = some c → EdgeReachable s.config c.position) ↔
      ∀ n c, s.clients.lookup n = some c → ThresholdClear s.config c.position := by
  have hsized := loadServerConfig_sized hload
  rw [settles_iff hsized hactive]
  constructor
  · rintro ⟨hcentre, hreachable⟩ n c hc
    exact (thresholdClear_iff hsized).mpr ⟨hcentre n c hc, hreachable n c hc⟩
  · intro h
    exact ⟨fun n c hc => ((thresholdClear_iff hsized).mp (h n c hc)).1,
      fun n c hc => ((thresholdClear_iff hsized).mp (h n c hc)).2⟩

/-- With the default threshold, control settles. -/
theorem edges_work_iff_house :
    Settles { houseServer 5 with activeClient := some "laptop" } "laptop" ∧
      EdgeReachable (houseConfig 5) .right := by
  have hwork := (edges_work_iff (load_houseFile none)
    (rfl : ({ houseServer 5 with activeClient := some "laptop" } : Server Unit).activeClient
      = some "laptop")).mpr ?_
  · exact ⟨hwork.1, hwork.2 "laptop" ⟨.right, 800, 600, ()⟩ rfl⟩
  · intro n c h
    obtain ⟨_, rfl⟩ := lookup_singleton_eq_some.mp h
    decide

/-- A threshold of a thousand pixels is accepted on a screen 1920 wide. When the laptop gives control
back, the cursor in the centre is at the laptop's edge again. -/
theorem control_bounces :
    loadServerConfig (houseFile (some 1000)) = .ok (houseConfig 1000) ∧
      ¬ Settles { houseServer 1000 with activeClient := some "laptop" } "laptop" := by
  refine ⟨load_houseFile (some 1000), fun h => ?_⟩
  have hnone := (h ⟨0, .entries Unit⟩).1
  have hbounces : ({ houseServer 1000 with activeClient := some "laptop" } : Server Unit).checkEdge
      ⟨0, .entries Unit⟩ 960 540 = some ("laptop", 100, 300) := rfl
  cases hbounces.symm.trans hnone

end Server

end Bluecross
