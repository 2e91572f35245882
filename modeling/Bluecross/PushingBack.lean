/-
# Bluecross.PushingBack — a user who keeps pushing gets control back from the client.

The pointer on the client is pushed towards the server in three stages: any motion puts the tracked
pointer inside the screen (where a `SwitchToClient` put it is the server's choice), some motion then
brings it to the exit edge and starts the timer, and a push that comes 300 ms later hands control
back. Each of them may hand it back already, when the timer was running before.

`Holding` is what a client that has control satisfies at some time, whatever happened to it so far;
pushing keeps it or hands control back.
-/
import Bluecross.EdgeArithmetic
import Bluecross.ExitTimer
import Bluecross.FieldAgreement
import Bluecross.MotionConservation
import Bluecross.SessionDiscipline

namespace Bluecross

open Lib (FitsI32)

/-! ## Directions -/

/-- A displacement by `k` towards the server, for a client at this side of it. -/
def ScreenPosition.outward (k : Int32) : ScreenPosition → Int32 × Int32
  | .left => (k, 0)
  | .right => (-k, 0)
  | .top => (0, k)
  | .bottom => (0, -k)

theorem neg_of_pos {k : Int32} (hk : 0 < k) : -k < 0 := by
  rw [Int32.lt_iff_toInt_lt] at hk ⊢
  have hlt := Int32.toInt_lt k
  rw [Int32.toInt_zero] at hk ⊢
  rw [Int32.toInt_neg, Int.bmod_eq_of_le] <;> omega

/-- A displacement towards the server pushes outward. -/
theorem edgeTest_outward {k : Int32} (hk : 0 < k) (p : ScreenPosition) (w h x y : Int32) :
    (ClientState.edgeTest p w h x y (p.outward k).1 (p.outward k).2).2.1 = true := by
  have hneg := neg_of_pos hk
  cases p <;> simp [ClientState.edgeTest, ScreenPosition.outward, hk, hneg]

theorem outward_ne_zero {k : Int32} (hk : 0 < k) (p : ScreenPosition) :
    (p.outward k).1 ≠ 0 ∨ (p.outward k).2 ≠ 0 := by
  have hpos : k ≠ 0 := by
    rintro rfl
    exact absurd hk (by decide)
  have hneg : -k ≠ 0 := by
    intro heq
    have hlt := neg_of_pos hk
    rw [heq] at hlt
    exact absurd hlt (by decide)
  cases p
  · exact Or.inl hpos
  · exact Or.inl hneg
  · exact Or.inr hpos
  · exact Or.inr hneg

/-! ## One reading of the clock -/

/-- All readings of a check are the same. -/
def ExitClock.steady (t : Instant) : ExitClock := ⟨t, t, t⟩

namespace ClientState

variable {s : ClientState} {p : ScreenPosition} {x y dx dy : Int32} {t : Instant}

/-- What a check of the edge leaves alone, and what it may do to the start of the push. -/
theorem checkExitEdge_frame (clock : ExitClock) (s : ClientState) (x y dx dy : Int32) :
    let checked := (s.checkExitEdge clock x y dx dy).2
    checked.position = s.position ∧ checked.switchTime = s.switchTime ∧
      checked.active = s.active ∧
      (checked.edgePushStart = s.edgePushStart ∨ checked.edgePushStart = clock.start) := by
  unfold checkExitEdge
  split
  · exact ⟨rfl, rfl, rfl, Or.inl rfl⟩
  · split
    · exact ⟨rfl, rfl, rfl, Or.inl rfl⟩
    · simp only
      split
      · split <;> split <;> first | exact ⟨rfl, rfl, rfl, Or.inl rfl⟩ | exact ⟨rfl, rfl, rfl, Or.inr rfl⟩
      · split <;> exact ⟨rfl, rfl, rfl, Or.inl rfl⟩

/-- A push at the edge, after the grace period, hands control back or is being timed. -/
theorem checkExitEdge_pushing (hp : s.position = some p) (hgrace : s.switchTime + GRACE ≤ t)
    (hat : (edgeTest p s.config.screenWidth s.config.screenHeight x y dx dy).1 = true)
    (hpush : (edgeTest p s.config.screenWidth s.config.screenHeight x y dx dy).2.1 = true) :
    (s.checkExitEdge (.steady t) x y dx dy).1 = true ∨
      (s.checkExitEdge (.steady t) x y dx dy).2.edgePushing = true := by
  have hlate : ¬ Instant.durationSince t s.switchTime < Duration.fromMillis 200 :=
    not_in_grace.mpr hgrace
  cases hpushing : s.edgePushing with
  | true =>
      simp only [checkExitEdge, hp, ExitClock.steady, hlate, if_false, hat, hpush,
        and_self, if_true, hpushing]
      split
      · exact Or.inl rfl
      · exact Or.inr hpushing
  | false =>
      simp only [checkExitEdge, hp, ExitClock.steady, hlate, if_false, hat, hpush,
        and_self, if_true, hpushing, Bool.false_eq_true]
      split
      · exact Or.inl rfl
      · exact Or.inr rfl

/-- A push at the edge hands control back when it has lasted long enough. -/
theorem checkExitEdge_exits (hp : s.position = some p) (hgrace : s.switchTime + GRACE ≤ t)
    (hpushing : s.edgePushing = true) (hlong : s.edgePushStart + PUSH ≤ t)
    (hat : (edgeTest p s.config.screenWidth s.config.screenHeight x y dx dy).1 = true)
    (hpush : (edgeTest p s.config.screenWidth s.config.screenHeight x y dx dy).2.1 = true) :
    (s.checkExitEdge (.steady t) x y dx dy).1 = true := by
  have hspan : Duration.fromMillis 300 ≤ Instant.durationSince t s.edgePushStart :=
    Nat.le_sub_of_add_le' hlong
  have hlate : ¬ Instant.durationSince t s.switchTime < Duration.fromMillis 200 :=
    not_in_grace.mpr hgrace
  unfold checkExitEdge
  simp only [hp, ExitClock.steady, hlate, if_false, hat, hpush, and_self, if_true,
    hpushing, ge_iff_le, hspan]

end ClientState

namespace Client

variable {c : Client} {p : ScreenPosition} {t : Instant}

/-- A client that has control at this time, with a screen and a side of the server's. -/
structure Holding (c : Client) (p : ScreenPosition) (t : Instant) : Prop where
  active : c.state.active = true
  position : c.state.position = some p
  width : 0 < c.state.config.screenWidth
  height : 0 < c.state.config.screenHeight
  grace : c.state.switchTime + GRACE ≤ t
  started : c.state.edgePushStart ≤ t

/-- The tracked pointer is inside the screen. -/
def PointerInside (c : Client) : Prop :=
  InScreen c.state.mouseX c.state.config.screenWidth ∧
    InScreen c.state.mouseY c.state.config.screenHeight

/-- The tracked pointer is at the exit edge. -/
def AtEdge (c : Client) (p : ScreenPosition) : Prop :=
  (ClientState.edgeTest p c.state.config.screenWidth c.state.config.screenHeight c.state.mouseX
    c.state.mouseY 0 0).1 = true

theorem atEdge_iff (c : Client) (p : ScreenPosition) (dx dy : Int32) :
    c.AtEdge p ↔ (ClientState.edgeTest p c.state.config.screenWidth c.state.config.screenHeight
      c.state.mouseX c.state.mouseY dx dy).1 = true := by
  rw [AtEdge, Server.edgeTest_fst, Server.edgeTest_fst]

theorem Holding.mono (h : c.Holding p t) {t' : Instant} (ht : t ≤ t') : c.Holding p t' :=
  ⟨h.active, h.position, h.width, h.height, Nat.le_trans h.grace ht, Nat.le_trans h.started ht⟩

/-- Motion that does not hand control back. -/
theorem Holding.useMotion (h : c.Holding p t) (d : Int32 × Int32)
    (hstays : (c.useMotion (.steady t) d).2 = false) :
    (c.useMotion (.steady t) d).1.Holding p t ∧
      ((d.1 ≠ 0 ∨ d.2 ≠ 0) → (c.useMotion (.steady t) d).1.PointerInside) := by
  unfold Client.useMotion at hstays ⊢
  by_cases hmoved : d.1 ≠ 0 ∨ d.2 ≠ 0
  · simp only [hmoved, if_true] at hstays ⊢
    obtain ⟨hx, hy, hconfig⟩ := checkExitEdge_pointer (.steady t) (c.movePointer d.1 d.2).state
      (c.movePointer d.1 d.2).state.mouseX (c.movePointer d.1 d.2).state.mouseY d.1 d.2
    obtain ⟨hposition, hswitch, hactive, hstart⟩ := ClientState.checkExitEdge_frame (.steady t)
      (c.movePointer d.1 d.2).state (c.movePointer d.1 d.2).state.mouseX
      (c.movePointer d.1 d.2).state.mouseY d.1 d.2
    split at hstays
    · cases hstays
    · rename_i hexit
      rw [if_neg hexit]
      refine ⟨⟨hactive.trans h.active, hposition.trans h.position, ?_, ?_, ?_, ?_⟩, fun _ => ?_⟩
      · exact hconfig ▸ h.width
      · exact hconfig ▸ h.height
      · exact hswitch ▸ h.grace
      · rcases hstart with hsame | hnew
        · exact hsame ▸ h.started
        · exact Nat.le_of_eq hnew
      · unfold PointerInside
        simp only [hx, hy, hconfig]
        exact ⟨clamp_inScreen _ h.width, clamp_inScreen _ h.height⟩
  · rw [if_neg hmoved] at hstays ⊢
    exact ⟨h, fun hd => absurd hd hmoved⟩

/-! ## To the edge -/

/-- How far the pointer is from the exit edge. -/
def room (c : Client) : ScreenPosition → Int
  | .left => c.state.config.screenWidth.toInt - 1 - c.state.mouseX.toInt
  | .right => c.state.mouseX.toInt
  | .top => c.state.config.screenHeight.toInt - 1 - c.state.mouseY.toInt
  | .bottom => c.state.mouseY.toInt

end Client

section

variable {x k size : Int32}

/-- A push over the last pixel, or by one pixel from it, ends at it. -/
theorem last_of_push (hsize : 0 < size) (hx : InScreen x size) (hk : 0 < k)
    (hreach : size.toInt - 1 - x.toInt ≤ k.toInt)
    (hexact : k.toInt ≤ size.toInt - 1 - x.toInt ∨ k = 1) :
    size - 1 ≤ clamp (x + k) 0 (size - 1) := by
  obtain ⟨hlow, hhigh⟩ := Server.inScreen_iff.mp hx
  have hpos := toInt_pos_iff.mp hk
  have hlast := toInt_last hsize
  have hmax := Int32.toInt_lt size
  have hbound : x.toInt + k.toInt ≤ size.toInt := by
    rcases hexact with hle | rfl
    · omega
    · rw [Int32.toInt_one]
      omega
  have hfit : FitsI32 (x.toInt + k.toInt) := ⟨by omega, by omega⟩
  rw [Int32.le_iff_toInt_le, Client.toInt_moved hsize hfit, hlast, onScreen]
  omega

/-- A push over the first pixel ends at it. -/
theorem first_of_push (hsize : 0 < size) (hx : InScreen x size) (hk : 0 < k)
    (hreach : x.toInt ≤ k.toInt) : clamp (x + -k) 0 (size - 1) ≤ 0 := by
  obtain ⟨hlow, hhigh⟩ := Server.inScreen_iff.mp hx
  have hpos := toInt_pos_iff.mp hk
  have hmax := Int32.toInt_lt k
  have hneg : (-k).toInt = -k.toInt := by
    rw [Int32.toInt_neg, Int.bmod_eq_of_le] <;> omega
  have hfit : FitsI32 (x.toInt + (-k).toInt) := ⟨by omega, by omega⟩
  rw [Int32.le_iff_toInt_le, Client.toInt_moved hsize hfit, onScreen, Int32.toInt_zero]
  omega

end

namespace Client

variable {c : Client} {p : ScreenPosition} {t : Instant} {k : Int32}

/-- A push that covers the room to the edge, and no more than a pixel over it, ends at the edge. -/
theorem atEdge_outward (hwidth : 0 < c.state.config.screenWidth)
    (hheight : 0 < c.state.config.screenHeight) (hinside : c.PointerInside) (hk : 0 < k)
    (hreach : c.room p ≤ k.toInt) (hexact : k.toInt ≤ c.room p ∨ k = 1) :
    (c.movePointer (p.outward k).1 (p.outward k).2).AtEdge p := by
  obtain ⟨hx, hy⟩ := hinside
  cases p
  · exact decide_eq_true (last_of_push hwidth hx hk hreach hexact)
  · exact decide_eq_true (first_of_push hwidth hx hk hreach)
  · exact decide_eq_true (last_of_push hheight hy hk hreach hexact)
  · exact decide_eq_true (first_of_push hheight hy hk hreach)

theorem room_bounds (hinside : c.PointerInside) (p : ScreenPosition) :
    0 ≤ c.room p ∧ c.room p < 2 ^ 31 := by
  obtain ⟨hx, hy⟩ := hinside
  obtain ⟨hxlow, hxhigh⟩ := Server.inScreen_iff.mp hx
  obtain ⟨hylow, hyhigh⟩ := Server.inScreen_iff.mp hy
  have hwidth := Int32.toInt_lt c.state.config.screenWidth
  have hheight := Int32.toInt_lt c.state.config.screenHeight
  cases p <;> simp only [room] <;> omega

theorem room_of_atEdge (hwidth : 0 < c.state.config.screenWidth)
    (hheight : 0 < c.state.config.screenHeight) (h : c.AtEdge p) : c.room p ≤ 0 := by
  have hlastX := toInt_last hwidth
  have hlastY := toInt_last hheight
  cases p
  · have hle : c.state.config.screenWidth - 1 ≤ c.state.mouseX := of_decide_eq_true h
    rw [Int32.le_iff_toInt_le] at hle
    simp only [room]
    omega
  · have hle : c.state.mouseX ≤ 0 := of_decide_eq_true h
    rw [Int32.le_iff_toInt_le, Int32.toInt_zero] at hle
    exact hle
  · have hle : c.state.config.screenHeight - 1 ≤ c.state.mouseY := of_decide_eq_true h
    rw [Int32.le_iff_toInt_le] at hle
    simp only [room]
    omega
  · have hle : c.state.mouseY ≤ 0 := of_decide_eq_true h
    rw [Int32.le_iff_toInt_le, Int32.toInt_zero] at hle
    exact hle

/-- Some push ends at the edge; at the edge, a push by one pixel. -/
theorem exists_push (hwidth : 0 < c.state.config.screenWidth)
    (hheight : 0 < c.state.config.screenHeight) (hinside : c.PointerInside) (p : ScreenPosition) :
    ∃ k : Int32, 0 < k ∧ (c.movePointer (p.outward k).1 (p.outward k).2).AtEdge p := by
  obtain ⟨hlow, hhigh⟩ := room_bounds hinside p
  by_cases hroom : c.room p = 0
  · refine ⟨1, by decide, atEdge_outward hwidth hheight hinside (by decide) ?_ (Or.inr rfl)⟩
    rw [hroom, Int32.toInt_one]
    decide
  · have hexact : (Int32.ofInt (c.room p)).toInt = c.room p :=
      Int32.toInt_ofInt_of_le (by omega) hhigh
    have hpos : 0 < Int32.ofInt (c.room p) := by
      rw [toInt_pos_iff, hexact]
      omega
    exact ⟨_, hpos, atEdge_outward hwidth hheight hinside hpos (Int.le_of_eq hexact.symm)
      (Or.inl (Int.le_of_eq hexact))⟩

/-- At the edge, with the timer running. -/
structure Timed (c : Client) (p : ScreenPosition) : Prop where
  inside : c.PointerInside
  atEdge : c.AtEdge p
  pushing : c.state.edgePushing = true

/-- A push that ends at the edge hands control back or is timed. -/
theorem Holding.timed (h : c.Holding p t) (hk : 0 < k)
    (hat : (c.movePointer (p.outward k).1 (p.outward k).2).AtEdge p)
    (hstays : (c.useMotion (.steady t) (p.outward k)).2 = false) :
    (c.useMotion (.steady t) (p.outward k)).1.Timed p := by
  have hne := outward_ne_zero hk p
  have hinside := (h.useMotion (p.outward k) hstays).2 hne
  have hmoved : (c.movePointer (p.outward k).1 (p.outward k).2).state.position = some p := h.position
  have hedge := ((c.movePointer (p.outward k).1 (p.outward k).2).atEdge_iff p (p.outward k).1
    (p.outward k).2).mp hat
  obtain ⟨hx, hy, hconfig⟩ := checkExitEdge_pointer (.steady t)
    (c.movePointer (p.outward k).1 (p.outward k).2).state
    (c.movePointer (p.outward k).1 (p.outward k).2).state.mouseX
    (c.movePointer (p.outward k).1 (p.outward k).2).state.mouseY (p.outward k).1 (p.outward k).2
  have hcases := ClientState.checkExitEdge_pushing hmoved h.grace hedge (edgeTest_outward hk p _ _ _ _)
  unfold Client.useMotion at hstays hinside ⊢
  simp only [hne, if_true] at hstays hinside ⊢
  split at hstays
  · cases hstays
  · rename_i hexit
    rw [if_neg hexit] at hinside ⊢
    refine ⟨hinside, ?_, hcases.resolve_left hexit⟩
    unfold AtEdge at hat ⊢
    simp only [hx, hy, hconfig]
    exact hat

/-- Control comes back with a push that has lasted long enough. -/
theorem Holding.exits (h : c.Holding p t) (htimed : c.Timed p)
    (hlong : c.state.edgePushStart + PUSH ≤ t) :
    (c.useMotion (.steady t) (p.outward 1)).2 = true := by
  have hone : (0 : Int32) < 1 := by decide
  have hne := outward_ne_zero hone p
  have hmoved : (c.movePointer (p.outward 1).1 (p.outward 1).2).state.position = some p := h.position
  have hat : (c.movePointer (p.outward 1).1 (p.outward 1).2).AtEdge p := by
    refine atEdge_outward h.width h.height htimed.inside hone ?_ (Or.inr rfl)
    have hroom := room_of_atEdge h.width h.height htimed.atEdge
    rw [Int32.toInt_one]
    omega
  have hedge := ((c.movePointer (p.outward 1).1 (p.outward 1).2).atEdge_iff p (p.outward 1).1
    (p.outward 1).2).mp hat
  have hexits := ClientState.checkExitEdge_exits hmoved h.grace htimed.pushing hlong hedge
    (edgeTest_outward hone p _ _ _ _)
  unfold Client.useMotion
  simp only [hne, if_true, hexits]

end Client

end Bluecross
