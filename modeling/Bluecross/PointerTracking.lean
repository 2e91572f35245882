/-
# Bluecross.PointerTracking — the tracked cursor and the pointer on the server's own screen.

The server keeps a cursor of its own and looks for edges there. The compositor moves the real pointer:
by every motion that is made while the devices are not grabbed, in exact arithmetic, clamped to the
screen. A `Seat` is a server with the pointer of its screen beside it; each event is handled before
the next is made.

`centerCursor` sets the tracked cursor when control comes back and leaves the pointer where it is. So
the two agree for as long as the pointer is in the centre whenever control comes back
(`cursor_follows_pointer`), and the first round trip parts them otherwise (`cursor_parts`).
-/
import Bluecross.ServerControl

namespace Bluecross

open Lib (LTS)

/-- The centre of the screen. -/
def ServerConfig.centre (config : ServerConfig) : Int32 × Int32 :=
  (config.screenWidth / 2, config.screenHeight / 2)

/-- The tracked cursor. -/
def Server.cursor {τ : Type} (s : Server τ) : Int32 × Int32 := (s.mouseX, s.mouseY)

/-- A server, its queues, and the pointer on its screen. -/
structure Seat (τ χ : Type) where
  server : Server τ
  queues : χ
  pointer : Int32 × Int32

namespace Seat

variable {τ χ : Type}

/-- A coordinate of the pointer after a motion: moved, and clamped to the screen. -/
def moved (x d size : Int32) : Int32 :=
  Int32.ofInt (max 0 (min (x.toInt + d.toInt) (size.toInt - 1)))

/-- Where an event leaves the pointer: a motion moves it unless the devices are grabbed. -/
def pointerAfter (s : Seat τ χ) : ServerEvent τ → Int32 × Int32
  | .input (.mouseMove dx dy) =>
      if s.server.grabbed then s.pointer
      else
        (moved s.pointer.1 dx s.server.config.screenWidth,
          moved s.pointer.2 dy s.server.config.screenHeight)
  | _ => s.pointer

/-- An event is made, and the server handles it. -/
def next [Mailbox χ τ] (s : Seat τ χ) (l : Env τ × ServerEvent τ) : Seat τ χ :=
  let handled := s.server.handle l.1 s.queues l.2
  { server := handled.1, queues := handled.2, pointer := s.pointerAfter l.2 }

/-- The seats of a configuration: the pointer starts in the centre of the screen. -/
def system [Mailbox χ τ] (config : ServerConfig) : LTS (Seat τ χ) (Env τ × ServerEvent τ) where
  init s := (∃ clipboard now, s.server = Server.new config clipboard now) ∧
    s.pointer = config.centre
  next s l := some (s.next l)

/-! ## One motion -/

/-- The sum is in the range of `i32`. On a screen of one pixel any sum is clamped to the same. -/
def Fits (x d size : Int32) : Prop := x.toInt + d.toInt < 2 ^ 31 ∨ size = 1

theorem clamp_eq_moved {x d size : Int32} (hx : InScreen x size) (hfits : Fits x d size) :
    clamp (x + d) 0 (size - 1) = moved x d size := by
  obtain ⟨hlow, hhigh⟩ := hx
  rw [Int32.le_iff_toInt_le, Int32.toInt_zero] at hlow
  rw [Int32.lt_iff_toInt_lt] at hhigh
  have hsize : 0 < size := toInt_pos_iff.mpr (by omega)
  have hvalue : (clamp (x + d) 0 (size - 1)).toInt
      = max 0 (min (x.toInt + d.toInt) (size.toInt - 1)) := by
    rw [toInt_clamp hsize]
    rcases hfits with hsum | hone
    · have hd := Int32.le_toInt d
      rw [Int32.toInt_add, Int.bmod_eq_of_le] <;> omega
    · rw [hone, Int32.toInt_one]
      omega
  rw [moved, ← hvalue, Int32.ofInt_toInt]

end Seat

/-! ## The cursor when control comes back -/

namespace Server

variable {τ χ : Type} [Mailbox χ τ] {s : Server τ} {n : String}

/-- If nobody is active, the cursor is in the centre. -/
def Settled (s : Server τ) : Prop := s.activeClient = none → s.cursor = s.config.centre

theorem settled_of_active (h : s.activeClient = some n) : s.Settled := by
  intro hnone
  rw [h] at hnone
  cases hnone

theorem settled_deactivate (h : s.activeClient = some n) (name : String) :
    (s.deactivate name).Settled := by
  by_cases hname : s.activeClient = some name
  · rw [deactivate_of_active hname]
    exact fun _ => rfl
  · rw [deactivate_of_ne hname]
    exact settled_of_active h

theorem settled_sendOrDeactivate (h : s.activeClient = some n) (ch : χ) (name : String)
    (msg : Message) : (s.sendOrDeactivate ch name msg).1.Settled := by
  unfold sendOrDeactivate
  simp only
  split
  · exact settled_of_active h
  · exact settled_deactivate h name

theorem settled_forwardToActive (h : s.activeClient = some n) (ch : χ) (msg : Message)
    (flush : Bool) : (s.forwardToActive ch msg flush).1.Settled := by
  have hflushed : (s.setPending 0 0).activeClient = some n := h
  rw [forwardToActive_of_active h]
  split
  · simp only
    split
    · exact settled_sendOrDeactivate hflushed _ n msg
    · exact settled_deactivate hflushed n
  · exact settled_sendOrDeactivate h ch n msg

/-- An event that ends an activation leaves the cursor in the centre. -/
theorem settled_handle (h : s.activeClient = some n) (env : Env τ) (ch : χ)
    (event : ServerEvent τ) : (s.handle env ch event).1.Settled := by
  cases event with
  | newClient name position w hgt tx => exact settled_of_active h
  | clipboardChanged content => exact settled_of_active h
  | clientDisconnected name =>
      exact settled_deactivate (s := { s with clients := s.clients.erase name }) h name
  | clientMessage name msg =>
      show (s.handleClientMessage env ch name msg).1.Settled
      unfold handleClientMessage
      split
      · split
        · exact settled_deactivate h name
        · exact settled_of_active h
      · split
        · exact settled_of_active h
        · exact settled_of_active h
      · exact settled_of_active h
  | input ev =>
      cases ev with
      | key code value => exact settled_forwardToActive h ch _ true
      | mouseButton code value => exact settled_forwardToActive h ch _ true
      | mouseScroll dx dy => exact settled_forwardToActive h ch _ false
      | mouseMove dx dy =>
          have hmoved : (s.moveCursor dx dy).activeClient = some n := h
          show (s.handleInput env ch (.mouseMove dx dy)).1.Settled
          unfold handleInput
          simp only [hmoved, forwardMotion_eq]
          split
          · split
            · exact settled_of_active h
            · exact settled_deactivate (by exact h) n
          · exact settled_of_active h

/-- Motion while nobody is active moves the cursor, and at an edge control is handed over. -/
theorem handleInput_motion (h : s.activeClient = none) (env : Env τ) (ch : χ) (dx dy : Int32) :
    (s.switchTarget env (.mouseMove dx dy) = none ∧
      s.handleInput env ch (.mouseMove dx dy) = (s.moveCursor dx dy, ch)) ∨
    ∃ name x y, s.switchTarget env (.mouseMove dx dy) = some (name, x, y) ∧
      s.handleInput env ch (.mouseMove dx dy) =
        ((s.moveCursor dx dy).handedOver name).sendOrDeactivate ch name
          (Message.switchToClient x y) := by
  have hnone : (s.moveCursor dx dy).activeClient = none := h
  unfold handleInput switchTarget
  simp only [hnone, h]
  split
  · rename_i name x y hedge
    rw [switchTo_eq]
    exact Or.inr ⟨name, x, y, hedge, rfl⟩
  · rename_i hedge
    exact Or.inl ⟨hedge, rfl⟩

/-- While nobody is active, only motion moves the cursor. -/
theorem handle_still (h : s.activeClient = none) (env : Env τ) (ch : χ) {event : ServerEvent τ}
    (hevent : ∀ dx dy, event ≠ .input (.mouseMove dx dy)) :
    (s.handle env ch event).1.cursor = s.cursor := by
  cases event with
  | newClient name position w hgt tx => rfl
  | clipboardChanged content => rfl
  | clientDisconnected name =>
      have hidle : ({ s with clients := s.clients.erase name } : Server τ).activeClient = none := h
      show (deactivate _ name).cursor = _
      rw [deactivate_of_ne (by rw [hidle]; nofun)]
      rfl
  | clientMessage name msg =>
      show (s.handleClientMessage env ch name msg).1.cursor = _
      unfold handleClientMessage
      simp only [h, reduceCtorEq, if_false]
      split
      · rfl
      · split
        · rfl
        · rfl
      · rfl
  | input ev =>
      cases ev with
      | mouseMove dx dy => exact absurd rfl (hevent dx dy)
      | key code value => exact congrArg (cursor ·.1) (forwardToActive_of_none h ch _ _)
      | mouseButton code value => exact congrArg (cursor ·.1) (forwardToActive_of_none h ch _ _)
      | mouseScroll dx dy => exact congrArg (cursor ·.1) (forwardToActive_of_none h ch _ _)

end Server

namespace Seat

variable {τ χ : Type}

/-! ## Runs in which the pointer is in the centre when control comes back -/

/-- The motion of an event that moves the pointer stays in range. -/
def InRange (s : Seat τ χ) (event : ServerEvent τ) : Prop :=
  ∀ dx dy, event = .input (.mouseMove dx dy) → s.server.activeClient = none →
    Fits s.pointer.1 dx s.server.config.screenWidth ∧
      Fits s.pointer.2 dy s.server.config.screenHeight

/-- The cursor is where the pointer is, while nobody is active. -/
def Follows (s : Seat τ χ) : Prop := s.server.activeClient = none → s.server.cursor = s.pointer

variable {s : Seat τ χ}

/-- Cursor and pointer make the same motion. -/
theorem cursor_moved (hcoherent : Coherent s.server) (h : s.Follows)
    (hidle : s.server.activeClient = none) {dx dy : Int32}
    (hrange : s.InRange (.input (.mouseMove dx dy))) :
    (s.server.moveCursor dx dy).cursor = s.pointerAfter (.input (.mouseMove dx dy)) := by
  obtain ⟨hx, hy⟩ := hrange dx dy rfl hidle
  have hfree : ¬ s.server.grabbed = true := by
    rw [hcoherent.grabbed_iff, hidle]
    nofun
  have hpointer := h hidle
  have hcursorX := hcoherent.cursorX
  have hcursorY := hcoherent.cursorY
  rw [show s.server.mouseX = s.pointer.1 from congrArg Prod.fst hpointer] at hcursorX
  rw [show s.server.mouseY = s.pointer.2 from congrArg Prod.snd hpointer] at hcursorY
  rw [pointerAfter, if_neg hfree, ← clamp_eq_moved hcursorX hx, ← clamp_eq_moved hcursorY hy,
    ← hpointer]
  rfl

variable [Mailbox χ τ]

/-- Control is with a client, or on its way to one, and after the event it is with nobody. -/
def ComesBack (s : Seat τ χ) (l : Env τ × ServerEvent τ) : Prop :=
  (s.server.activeClient ≠ none ∨
    ∃ ev, l.2 = .input ev ∧ s.server.switchTarget l.1 ev ≠ none) ∧
  (s.next l).server.activeClient = none

/-- The pointer is in the centre if control comes back, and motion that moves it stays in range. -/
def Homed (s : Seat τ χ) (l : Env τ × ServerEvent τ) : Prop :=
  (s.ComesBack l → s.pointerAfter l.2 = s.server.config.centre) ∧ s.InRange l.2

/-- Control that comes back leaves the cursor in the centre. -/
theorem cursor_of_comesBack {l : Env τ × ServerEvent τ} (hback : s.ComesBack l) :
    (s.next l).server.cursor = s.server.config.centre := by
  obtain ⟨env, event⟩ := l
  obtain ⟨hwith, hidle'⟩ := hback
  have hcentre : (s.next (env, event)).server.config.centre = s.server.config.centre :=
    congrArg ServerConfig.centre (Server.handle_config env s.server s.queues event)
  rw [← hcentre]
  refine (?_ : (s.next (env, event)).server.Settled) hidle'
  cases hactive : s.server.activeClient with
  | some n => exact Server.settled_handle hactive env s.queues event
  | none =>
      -- with nobody active it was the event itself that switched
      obtain ⟨ev, rfl, htarget⟩ := hwith.resolve_left (not_not.mpr hactive)
      cases ev with
      | mouseMove dx dy =>
          -- the switch found the client gone
          rcases Server.handleInput_motion hactive env s.queues dx dy with
            ⟨hnone, _⟩ | ⟨name, x, y, _, hover⟩
          · exact absurd hnone htarget
          · show (s.server.handleInput env s.queues (.mouseMove dx dy)).1.Settled
            rw [hover]
            exact Server.settled_sendOrDeactivate rfl s.queues name _
      | key => exact absurd (by unfold Server.switchTarget; rw [hactive]) htarget
      | mouseButton => exact absurd (by unfold Server.switchTarget; rw [hactive]) htarget
      | mouseScroll => exact absurd (by unfold Server.switchTarget; rw [hactive]) htarget

theorem Follows.step (h : s.Follows) (hcoherent : Coherent s.server) {l : Env τ × ServerEvent τ}
    (hhomed : s.Homed l) : (s.next l).Follows := by
  intro hidle'
  obtain ⟨hback, hrange⟩ := hhomed
  -- control that comes back puts the cursor in the centre, where the pointer is by assumption
  by_cases hcomes : s.ComesBack l
  · rw [cursor_of_comesBack hcomes]
    exact (hback hcomes).symm
  · obtain ⟨env, event⟩ := l
    have hactive : s.server.activeClient = none := by
      by_contra hne
      exact hcomes ⟨Or.inl hne, hidle'⟩
    -- otherwise nobody was active before, and motion alone moves either of the two
    by_cases hmotion : ∃ dx dy, event = .input (.mouseMove dx dy)
    · obtain ⟨dx, dy, rfl⟩ := hmotion
      rcases Server.handleInput_motion hactive env s.queues dx dy with
        ⟨_, hmoved⟩ | ⟨name, x, y, htarget, _⟩
      · show (s.server.handleInput env s.queues (.mouseMove dx dy)).1.cursor = _
        rw [hmoved]
        exact cursor_moved hcoherent h hactive hrange
      -- a switch that leaves nobody active is one that came back at once
      · exact absurd ⟨Or.inr ⟨_, rfl, by rw [htarget]; nofun⟩, hidle'⟩ hcomes
    · have hother : ∀ dx dy, event ≠ .input (.mouseMove dx dy) :=
        fun dx dy heq => hmotion ⟨dx, dy, heq⟩
      have hstays : s.pointerAfter event = s.pointer := by
        unfold pointerAfter
        split
        · rename_i dx dy
          exact absurd rfl (hother dx dy)
        · rfl
      show (s.server.handle env s.queues event).1.cursor = s.pointerAfter event
      rw [Server.handle_still hactive env s.queues hother, hstays]
      exact h hactive

/-- In every run in which the pointer is in the centre whenever control comes back, the cursor of an
idle server is where the pointer is, and it is at a client's edge only when the pointer is. When
control comes back with the pointer elsewhere, they part. -/
theorem cursor_follows_pointer (config : ServerConfig) (hsized : config.Sized) (s : Seat τ χ)
    (h : (Seat.system config).Reach Homed s) :
    (s.server.activeClient = none → (s.server.mouseX, s.server.mouseY) = s.pointer) ∧
    (∀ env dx dy target, s.InRange (.input (.mouseMove dx dy)) →
      s.server.switchTarget env (.mouseMove dx dy) = some target →
      s.server.checkEdge env (s.pointerAfter (.input (.mouseMove dx dy))).1
        (s.pointerAfter (.input (.mouseMove dx dy))).2 = some target) ∧
    ∀ l, s.ComesBack l → s.pointerAfter l.2 ≠ config.centre →
      ((s.next l).server.mouseX, (s.next l).server.mouseY) ≠ (s.next l).pointer := by
  have hall : Coherent s.server ∧ s.server.config = config ∧ s.Follows := by
    refine LTS.Reach.invariant (I := fun s : Seat τ χ =>
      Coherent s.server ∧ s.server.config = config ∧ s.Follows) ?_ ?_ h
    · rintro s₀ ⟨⟨clipboard, now, hserver⟩, hpointer⟩
      rw [hserver]
      refine ⟨Server.coherent_new hsized clipboard now, rfl, ?_⟩
      intro _
      rw [hpointer, hserver]
      rfl
    · rintro s₁ ⟨env, event⟩ s₂ ⟨hcoherent, hconfig, hfollows⟩ hhomed hnext
      rw [← Option.some.inj hnext]
      have hsized₁ : s₁.server.config.Sized := by
        rw [hconfig]
        exact hsized
      exact ⟨Server.coherent_handle hsized₁ hcoherent,
        (Server.handle_config env s₁.server s₁.queues event).trans hconfig,
        hfollows.step hcoherent hhomed⟩
  obtain ⟨hcoherent, hconfig, hfollows⟩ := hall
  refine ⟨hfollows, ?_, ?_⟩
  · intro env dx dy target hrange htarget
    have hidle : s.server.activeClient = none := by
      unfold Server.switchTarget at htarget
      split at htarget
      · assumption
      · cases htarget
    rw [← cursor_moved hcoherent hfollows hidle hrange]
    unfold Server.switchTarget at htarget
    rw [hidle] at htarget
    exact htarget
  · intro l hback hne heq
    have hcursor := cursor_of_comesBack hback
    rw [hconfig] at hcursor
    exact hne (heq.symm.trans hcursor)

/-- The laptop takes control at the left edge and hands it back. -/
def roundTrip (dx : Int32) : List (Env Unit × ServerEvent Unit) :=
  let env : Env Unit := ⟨0, HashOrder.entries Unit⟩
  [(env, .newClient "laptop" .left 800 600 ()), (env, .input (.mouseMove dx 0)),
    (env, .clientMessage "laptop" Message.switchToServer)]

/-- An edge so wide that the centre of the screen is at it. -/
def wideEdge : ServerConfig := { Server.leftConfig with edgeThreshold := 320 }

/-- The seat of a configuration, with queues that accept every message. -/
def start (config : ServerConfig) : Seat Unit (Recorder Unit) where
  server := Server.new config ClipboardManager.new 0
  queues := ⟨fun _ => .ok, []⟩
  pointer := config.centre

/-- The pointer leaves the zone of the edge and comes back to the centre, where the laptop takes control
and hands it back; then the pointer leaves the zone again. -/
def backAtCentre : List (Env Unit × ServerEvent Unit) :=
  let env : Env Unit := ⟨0, HashOrder.entries Unit⟩
  [(env, .newClient "laptop" .left 800 600 ()), (env, .input (.mouseMove 100 20)),
    (env, .input (.mouseMove (-100) (-20))), (env, .clientMessage "laptop" Message.switchToServer),
    (env, .input (.mouseMove 50 (-70)))]

/-- Motion that switches to nobody brings nothing back. -/
theorem not_comesBack {env : Env τ} {ev : CaptureEvent}
    (hidle : s.server.activeClient = none) (hnobody : s.server.switchTarget env ev = none) :
    ¬ s.ComesBack (env, .input ev) := by
  rintro ⟨hwith | ⟨ev', heq, htarget⟩, _⟩
  · exact hwith hidle
  · cases heq
    exact htarget hnobody

theorem cursor_follows_pointer_wideEdge :
    ∃ s, (Seat.system wideEdge).exec (start wideEdge) backAtCentre = some s ∧
      s.queues.log.length = 1 ∧ s.server.activeClient = none ∧ s.pointer = (370, 170) ∧
      (s.server.mouseX, s.server.mouseY) = s.pointer := by
  refine ⟨_, rfl, rfl, rfl, rfl, ?_⟩
  refine (cursor_follows_pointer wideEdge ⟨by decide, by decide⟩ _ ⟨start wideEdge, backAtCentre,
    ⟨⟨ClipboardManager.new, 0, rfl⟩, rfl⟩, LTS.steps_of_exec rfl ?_⟩).1 rfl
  have hrange : ∀ (s : Seat Unit (Recorder Unit)) (x y : Int32),
      Fits s.pointer.1 x s.server.config.screenWidth → Fits s.pointer.2 y s.server.config.screenHeight →
      s.InRange (.input (.mouseMove x y)) := by
    rintro s x y hx hy _ _ ⟨⟩ _
    exact ⟨hx, hy⟩
  refine ⟨⟨fun _ => rfl, nofun⟩, ⟨fun hback => absurd hback (not_comesBack rfl rfl), ?_⟩,
    ⟨fun _ => rfl, ?_⟩, ⟨fun _ => rfl, nofun⟩,
    ⟨fun hback => absurd hback (not_comesBack rfl rfl), ?_⟩, trivial⟩
  · exact hrange _ _ _ (Or.inl (by decide)) (Or.inl (by decide))
  · exact hrange _ _ _ (Or.inl (by decide)) (Or.inl (by decide))
  · exact hrange _ _ _ (Or.inl (by decide)) (Or.inl (by decide))

/-- After one round trip the cursor is in the centre and the pointer at the edge. -/
theorem cursor_parts :
    ¬ ∀ config : ServerConfig, config.Sized → ∀ s : Seat Unit (Recorder Unit),
      (Seat.system config).Reach LTS.anyStep s → s.server.activeClient = none →
      (s.server.mouseX, s.server.mouseY) = s.pointer := by
  intro hall
  have hparted := hall Server.leftConfig ⟨by decide, by decide⟩ _ ⟨start Server.leftConfig,
    roundTrip (-1000), ⟨⟨ClipboardManager.new, 0, rfl⟩, rfl⟩,
    LTS.steps_of_exec rfl (LTS.guarded_anyStep _ _)⟩ rfl
  exact absurd hparted (by decide)

end Seat

end Bluecross
