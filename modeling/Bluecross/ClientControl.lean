/-
# Bluecross.ClientControl — control passes through a client, it is not made there.

A client has control when it is active. A `SwitchToClient` makes it active, and a batch that ends with
an exit makes it inactive and writes a `SwitchToServer` in the same turn. `handleBatch_control` counts:
after a batch, being active and handing back add up to one exactly when the client was active before
or the batch held a `SwitchToClient`, and to zero otherwise.
-/
import Bluecross.Client

namespace Bluecross

namespace Client

/-- A switch takes control and moves nothing. -/
theorem applyMessage_of_isSwitch (c : Client) {msg : Message} (hswitch : msg.isSwitch = true)
    (now : Instant) : c.applyMessage msg now = (c.takeControl msg now, 0, 0) := by
  have htype : msg.msgType = .switchToClient := of_decide_eq_true hswitch
  rw [applyMessage, htype]

/-- A value from the server is set, where the clipboard is shared. -/
theorem applyMessage_clipboardData {c : Client} (hsharing : c.state.config.clipboardSharing = true)
    (content : String) (now : Instant) :
    c.applyMessage (Message.clipboardData content) now =
      ({ c with clipboard := c.clipboard.set content }, 0, 0) := by
  have hcontent : ((Message.clipboardData content).payload.get "content").bind Value.asStr =
      some content := rfl
  have hread : c.applyMessage (Message.clipboardData content) now =
      (c.applyClipboard (Message.clipboardData content), 0, 0) := rfl
  rw [hread, applyClipboard, hcontent, hsharing]
  rfl

/-- After a message the client is active if it was or if the message made it so, and motion comes from
active clients only. -/
theorem applyMessage_control (c : Client) (msg : Message) (now : Instant) :
    (c.applyMessage msg now).1.state.active = (c.state.active || msg.isSwitch) ∧
      (c.state.active = false → (c.applyMessage msg now).2 = 0) := by
  unfold applyMessage Message.isSwitch
  rcases htype : msg.msgType <;> simp only [reduceCtorEq, decide_false, decide_true, Bool.or_false,
    Bool.or_true]
  case switchToClient => exact ⟨rfl, fun _ => rfl⟩
  case clipboardData =>
    refine ⟨?_, fun _ => rfl⟩
    unfold applyClipboard
    split <;> rfl
  all_goals
    rcases hactive : c.state.active
    · simp only [Bool.false_eq_true, not_false_eq_true, if_true, hactive, true_and]
      exact fun _ => rfl
    · simp only [not_true_eq_false, if_false, hactive, true_and]
      exact nofun

theorem applyRest_control (c : Client) (total : Int32 × Int32) (rest : List (Message × Instant)) :
    (c.applyRest total rest).1.state.active
        = (c.state.active || (rest.map Prod.fst).any Message.isSwitch) ∧
      ((c.applyRest total rest).1.state.active = false → (c.applyRest total rest).2 = total) := by
  induction rest generalizing c total with
  | nil => exact ⟨(Bool.or_false _).symm, fun _ => rfl⟩
  | cons m rest ih =>
      obtain ⟨hactive, hmotion⟩ := applyMessage_control c m.1 m.2
      obtain ⟨hrest, htotal⟩ := ih (c.applyMessage m.1 m.2).1
        (total.1 + (c.applyMessage m.1 m.2).2.1, total.2 + (c.applyMessage m.1 m.2).2.2)
      refine ⟨?_, ?_⟩
      · rw [List.map_cons, List.any_cons, ← Bool.or_assoc, ← hactive]
        exact hrest
      · intro hend
        apply (htotal hend).trans
        -- inactive at the end means inactive at the start
        have hstart : c.state.active = false := by
          have hboth : ((c.applyMessage m.1 m.2).1.state.active
              || (rest.map Prod.fst).any Message.isSwitch) = false := hrest.symm.trans hend
          rw [hactive, Bool.or_assoc] at hboth
          exact (Bool.or_eq_false_iff.mp hboth).1
        rw [hmotion hstart]
        exact Prod.ext (add_zero total.1) (add_zero total.2)

theorem applyBatch_control (c : Client) (b : Batch) :
    (c.applyBatch b).1.state.active = (c.state.active || b.messages.any Message.isSwitch) ∧
      ((c.applyBatch b).1.state.active = false → (c.applyBatch b).2 = 0) := by
  obtain ⟨hactive, hmotion⟩ := applyMessage_control c b.first.1 b.first.2
  obtain ⟨hrest, htotal⟩ := applyRest_control (c.applyMessage b.first.1 b.first.2).1
    (c.applyMessage b.first.1 b.first.2).2 b.rest
  refine ⟨?_, ?_⟩
  · rw [Batch.messages, List.any_cons, ← Bool.or_assoc, ← hactive]
    exact hrest
  · intro hend
    refine (htotal hend).trans (hmotion ?_)
    have hboth : ((c.applyMessage b.first.1 b.first.2).1.state.active
        || (b.rest.map Prod.fst).any Message.isSwitch) = false := hrest.symm.trans hend
    rw [hactive, Bool.or_assoc] at hboth
    exact (Bool.or_eq_false_iff.mp hboth).1

theorem checkExitEdge_active (clock : ExitClock) (s : ClientState) (x y dx dy : Int32) :
    (s.checkExitEdge clock x y dx dy).2.active = s.active := by
  unfold ClientState.checkExitEdge
  split
  · rfl
  · split
    · rfl
    · simp only
      split
      · split <;> split <;> rfl
      · split <;> rfl

/-- Either the client keeps what control it has, or it had control and hands it back. -/
theorem useMotion_control (c : Client) (clock : ExitClock) (total : Int32 × Int32)
    (h : c.state.active = false → total = 0) :
    ((c.useMotion clock total).1.state.active = c.state.active ∧
      (c.useMotion clock total).2 = false) ∨
    (c.state.active = true ∧ (c.useMotion clock total).1.state.active = false ∧
      (c.useMotion clock total).2 = true) := by
  unfold useMotion
  split
  · rename_i hmoved
    have hon : c.state.active = true := by
      by_contra hoff
      rw [h (Bool.not_eq_true _ ▸ hoff)] at hmoved
      rcases hmoved with hx | hy
      · exact hx rfl
      · exact hy rfl
    simp only
    split
    · exact Or.inr ⟨hon, rfl, rfl⟩
    · refine Or.inl ⟨?_, rfl⟩
      show (ClientState.checkExitEdge ..).2.active = c.state.active
      rw [checkExitEdge_active]
      rfl
  · exact Or.inl ⟨rfl, rfl⟩

/-- Control after a batch, held or handed back, is the control there was or came in with it. -/
theorem handleBatch_control (c : Client) (b : Batch) :
    (c.handleBatch b).1.state.active.toNat + (c.handleBatch b).2.toNat
      = (c.state.active || b.messages.any Message.isSwitch).toNat := by
  obtain ⟨hactive, hstill⟩ := applyBatch_control c b
  have hused := useMotion_control (c.applyBatch b).1 b.exit (c.applyBatch b).2 hstill
  rw [← hactive]
  show ((c.applyBatch b).1.useMotion b.exit (c.applyBatch b).2).1.state.active.toNat
    + ((c.applyBatch b).1.useMotion b.exit (c.applyBatch b).2).2.toNat = _
  rcases hused with ⟨hkept, hstays⟩ | ⟨hon, hoff, hback⟩
  · rw [hkept, hstays]
    rfl
  · rw [hon, hoff, hback]
    rfl

end Client

/-- The client of the examples: a laptop with a screen of 800 by 600. -/
def laptop : ClientConfig where
  serverHost := "127.0.0.1"
  serverPort := 12345
  screenWidth := 800
  screenHeight := 600
  name := "laptop"
  clipboardSharing := true
  psk := ""

end Bluecross
