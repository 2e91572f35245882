/-
# Bluecross.Presses — the path of a key or button, from capture to injection.

A `Press` is a new value of a key or a button. Each machine reads presses off what it handles: the
server off captured events, the client off messages, and the virtual devices off the groups they are
handed. On the client a press is injected if the client is active when its message is applied, and is
discarded otherwise (`handleBatch_presses`). On the server a press is queued for a captured key or
button only, and it is queued when a client is active and the queue has room
(`appends_handle`, `forwardToActive_kept`).
-/
import Bluecross.MotionOrder
import Bluecross.SystemSteps

namespace Bluecross

/-! ## Presses -/

/-- A key of the keyboard, or a button of the mouse. -/
structure Key where
  device : Device
  code : UInt16
  deriving DecidableEq, Repr

/-- A new value of a key or a button; zero releases it. -/
structure Press where
  key : Key
  value : Int32
  deriving DecidableEq, Repr

/-- The key or button that an event is about. -/
def CaptureEvent.pressed : CaptureEvent → Option Press
  | .key code value => some ⟨⟨.keyboard, code⟩, value⟩
  | .mouseButton code value => some ⟨⟨.mouse, code⟩, value⟩
  | _ => none

/-- The press that a client reads off a message. -/
def Message.pressed (msg : Message) : Option Press :=
  match msg.msgType with
  | .keyEvent => some ⟨⟨.keyboard, Client.u16Field msg "code"⟩, Client.i32Field msg "value"⟩
  | .mouseButton => some ⟨⟨.mouse, Client.u16Field msg "button"⟩, Client.i32Field msg "value"⟩
  | _ => none

/-- The keys and buttons that a group is about. -/
def Emission.presses (e : Emission) : List Press :=
  e.events.filterMap fun ev =>
    if ev.eventType = .key then some ⟨⟨e.device, ev.code⟩, ev.value⟩ else none

namespace InputInjector

/-- The presses that were injected, the oldest first. -/
def presses (i : InputInjector) : List Press := i.emitted.flatMap Emission.presses

/-- The last value injected for a key or a button; zero if there was none. -/
def valueOf (i : InputInjector) (key : Key) : Int32 :=
  (i.presses.filterMap fun p => if p.key = key then some p.value else none).getLast?.getD 0

/-- The last value injected was not a release. -/
def Held (i : InputInjector) (key : Key) : Prop := i.valueOf key ≠ 0

instance (i : InputInjector) (key : Key) : Decidable (i.Held key) := inferInstanceAs (Decidable (_ ≠ _))

end InputInjector

namespace Message

/-- The two fields of a key or a button are read as they were written. -/
theorem read_fields (t : MessageType) (codeKey : String) (code : UInt16) (value : Int32)
    (hkey : codeKey ≠ "value") :
    Client.u16Field ⟨t, .json [(codeKey, .ofU16 code), ("value", .ofI32 value)]⟩ codeKey = code ∧
      Client.i32Field ⟨t, .json [(codeKey, .ofU16 code), ("value", .ofI32 value)]⟩ "value" = value := by
  have hvalue : (Value.json [(codeKey, .ofU16 code), ("value", .ofI32 value)]).get "value"
      = some (.ofI32 value) :=
    (Value.get_json_concat [(codeKey, .ofU16 code)] "value" _ "value").trans (if_pos rfl)
  have hcode : (Value.json [(codeKey, .ofU16 code), ("value", .ofI32 value)]).get codeKey
      = some (.ofU16 code) := by
    have hskip := Value.get_json_concat [(codeKey, .ofU16 code)] "value" (.ofI32 value) codeKey
    rw [if_neg hkey] at hskip
    exact hskip.trans ((Value.get_json_concat [] codeKey _ codeKey).trans (if_pos rfl))
  refine ⟨?_, ?_⟩
  · simp only [Client.u16Field, Value.i64Or, hcode, Option.bind_some, Value.asI64_ofU16,
      Option.getD_some]
    simp
  · simp only [Client.i32Field, Value.i64Or, hvalue, Option.bind_some, Value.asI64_ofI32,
      Option.getD_some, Int32.toInt32_toInt64]

@[simp]
theorem pressed_keyEvent (code : UInt16) (value : Int32) :
    (keyEvent code value).pressed = some ⟨⟨.keyboard, code⟩, value⟩ := by
  obtain ⟨hcode, hvalue⟩ := read_fields .keyEvent "code" code value (by decide)
  show some (Press.mk ⟨.keyboard, Client.u16Field (keyEvent code value) "code"⟩ _) = _
  rw [show Client.u16Field (keyEvent code value) "code" = code from hcode]
  exact congrArg (fun v => some (Press.mk ⟨.keyboard, code⟩ v)) hvalue

@[simp]
theorem pressed_mouseButton (button : UInt16) (value : Int32) :
    (mouseButton button value).pressed = some ⟨⟨.mouse, button⟩, value⟩ := by
  obtain ⟨hbutton, hvalue⟩ := read_fields .mouseButton "button" button value (by decide)
  show some (Press.mk ⟨.mouse, Client.u16Field (mouseButton button value) "button"⟩ _) = _
  rw [show Client.u16Field (mouseButton button value) "button" = button from hbutton]
  exact congrArg (fun v => some (Press.mk ⟨.mouse, button⟩ v)) hvalue

theorem pressed_eq_none {msg : Message} (h : ¬ msg.isPress) : msg.pressed = none := by
  unfold pressed
  split
  · rename_i htype
    exact absurd (Or.inl htype) h
  · rename_i htype
    exact absurd (Or.inr htype) h
  · rfl

end Message

/-! ## On the client -/

/-- The presses in the messages, each with whether the client is active when it is applied: it is from
the first `SwitchToClient` on, if it was not before. -/
def heard : Bool → List Message → List (Press × Bool)
  | _, [] => []
  | active, msg :: msgs =>
      (msg.pressed.toList.map fun p => (p, active)) ++ heard (active || msg.isSwitch) msgs

/-- The presses that were marked. -/
def marked (log : List (Press × Bool)) : List Press :=
  log.filterMap fun entry => if entry.2 then some entry.1 else none

theorem marked_append (l₁ l₂ : List (Press × Bool)) : marked (l₁ ++ l₂) = marked l₁ ++ marked l₂ :=
  List.filterMap_append ..

theorem marked_heard_cons (active : Bool) (msg : Message) (msgs : List Message) :
    marked (heard active (msg :: msgs))
      = (if active then msg.pressed.toList else []) ++ marked (heard (active || msg.isSwitch) msgs) := by
  rw [heard, marked_append]
  cases active <;> cases msg.pressed <;> rfl

theorem map_fst_heard (active : Bool) (msgs : List Message) :
    (heard active msgs).map Prod.fst = msgs.filterMap Message.pressed := by
  induction msgs generalizing active with
  | nil => rfl
  | cons msg msgs ih =>
      rw [heard, List.map_append, ih, List.map_map]
      cases hpressed : msg.pressed with
      | none =>
          rw [List.filterMap_cons_none hpressed]
          rfl
      | some p =>
          rw [List.filterMap_cons_some hpressed]
          rfl

namespace Client

variable {c : Client}

/-- A client goes on with its devices in place, and these presses were injected. -/
structure Presses (c c' : Client) (more : List Press) : Prop where
  ready : c'.injector.Ready
  presses : c'.injector.presses = c.injector.presses ++ more

theorem Presses.trans {c c' c'' : Client} {more more' : List Press} (h : Presses c c' more)
    (h' : Presses c' c'' more') : Presses c c'' (more ++ more') := by
  refine ⟨h'.ready, ?_⟩
  rw [h'.presses, h.presses, List.append_assoc]

theorem Presses.of_injector {c' : Client} (hready : c.injector.Ready)
    (h : c'.injector = c.injector) : Presses c c' [] := by
  refine ⟨?_, ?_⟩
  · rw [h]
    exact hready
  · rw [h, List.append_nil]

theorem Presses.of_emitted {c' : Client} {log : List Emission} (hready : c'.injector.Ready)
    (h : c'.injector.emitted = c.injector.emitted ++ log) :
    Presses c c' (log.flatMap Emission.presses) := by
  refine ⟨hready, ?_⟩
  unfold InputInjector.presses
  rw [h, List.flatMap_append]

/-- Groups of relative events press nothing. -/
theorem presses_emitRelative (axes : List (UInt16 × Int32)) :
    ((InputInjector.new.setup.emitRelative axes).emitted).flatMap Emission.presses = [] := by
  unfold InputInjector.emitRelative
  simp only
  split
  · rfl
  · rw [InputInjector.emit_of_ready ⟨rfl, rfl⟩]
    show List.flatMap Emission.presses [_] = []
    simp [Emission.presses, InputInjector.sync]

/-- What a message is injected as presses what the message says. -/
theorem presses_groups (msg : Message) :
    (groups msg).flatMap Emission.presses = msg.pressed.toList := by
  unfold groups Message.pressed Message.press
  rcases htype : msg.msgType
  case mouseScroll => exact presses_emitRelative _
  all_goals rfl

theorem applyMessage_presses (hready : c.injector.Ready) (msg : Message) (now : Instant) :
    Presses c (c.applyMessage msg now).1 (if c.state.active then msg.pressed.toList else []) := by
  by_cases hactive : c.state.active = true ∨ msg.msgType = .switchToClient
  · obtain ⟨hinjects, _⟩ := applyMessage_spec hready hactive now
    have hpresses := Presses.of_emitted hinjects.ready hinjects.emitted
    rw [presses_groups] at hpresses
    rcases hactive with hon | hswitch
    · rw [if_pos hon]
      exact hpresses
    · have hnone : msg.pressed = none := by simp [Message.pressed, hswitch]
      rw [hnone] at hpresses ⊢
      split <;> exact hpresses
  · -- an inactive client applies nothing but a clipboard
    obtain ⟨hoff, hswitch⟩ := not_or.mp hactive
    rw [if_neg hoff]
    apply Presses.of_injector hready
    unfold applyMessage
    split
    · rename_i htype
      exact absurd htype hswitch
    · unfold applyClipboard
      split <;> rfl
    · rw [if_pos hoff]

theorem applyRest_presses (hready : c.injector.Ready) (total : Int32 × Int32)
    (rest : List (Message × Instant)) :
    Presses c (c.applyRest total rest).1 (marked (heard c.state.active (rest.map Prod.fst))) := by
  induction rest generalizing c total with
  | nil => exact Presses.of_injector hready rfl
  | cons m rest ih =>
      have hone := applyMessage_presses hready m.1 m.2
      have hrest := ih hone.ready
        (total.1 + (c.applyMessage m.1 m.2).2.1, total.2 + (c.applyMessage m.1 m.2).2.2)
      rw [(applyMessage_control c m.1 m.2).1] at hrest
      rw [List.map_cons, marked_heard_cons]
      exact hone.trans hrest

theorem useMotion_presses (hready : c.injector.Ready) (clock : ExitClock) (total : Int32 × Int32) :
    Presses c (c.useMotion clock total).1 [] := by
  unfold useMotion
  split
  · simp only
    split
    · exact Presses.of_injector hready rfl
    · have hmouse : (c.movePointer total.1 total.2).injector.injectMouseMove total.1 total.2
          = { c.injector with emitted := c.injector.emitted ++ motionGroup total } :=
        InputInjector.emitRelative_of_ready hready _
      have hnone : (motionGroup total).flatMap Emission.presses = [] := presses_emitRelative _
      rw [hmouse, ← hnone]
      exact Presses.of_emitted hready rfl
  · exact Presses.of_injector hready rfl

/-- Of a batch the client injects the presses that find it active, and no others. -/
theorem handleBatch_presses (hready : c.injector.Ready) (b : Batch) :
    Presses c (c.handleBatch b).1 (marked (heard c.state.active b.messages)) := by
  have hone := applyMessage_presses hready b.first.1 b.first.2
  have hrest := applyRest_presses hone.ready (c.applyMessage b.first.1 b.first.2).2 b.rest
  rw [(applyMessage_control c b.first.1 b.first.2).1] at hrest
  have hread : Presses c (c.applyBatch b).1 (marked (heard c.state.active b.messages)) := by
    rw [Batch.messages, marked_heard_cons]
    exact hone.trans hrest
  have huse := useMotion_presses hread.ready b.exit (c.applyBatch b).2
  have hboth := hread.trans huse
  rw [List.append_nil] at hboth
  exact hboth

end Client

/-! ## On the server -/

/-- The queues with messages at the end of one of them. -/
def Conns.enqueue (conns : Conns) (c : ConnId) (msgs : List Message) : Conns :=
  Function.update conns c { conns c with queue := (conns c).queue ++ msgs }

theorem Conns.enqueue_enqueue (conns : Conns) (c : ConnId) (msgs more : List Message) :
    (conns.enqueue c msgs).enqueue c more = conns.enqueue c (msgs ++ more) := by
  simp only [enqueue, Function.update_self, Function.update_idem, List.append_assoc]

/-- Queues that remember whether a `try_send` was answered `Full`. -/
structure Watched (χ : Type) where
  inner : χ
  full : Bool

instance {χ τ : Type} [Mailbox χ τ] : Mailbox (Watched χ) τ where
  trySend w tx msg :=
    let sent := Mailbox.trySend w.inner tx msg
    (sent.1, ⟨sent.2, w.full || sent.1 = .full⟩)

namespace Server

variable {s : Server ConnId} {name : String} {client : ClientInfo ConnId} {msg : Message}

/-- Nothing is queued as a press but the captured key or button. -/
theorem pressed_of_mayQueue {event : ServerEvent ConnId} {p : Press} (h : MayQueue msg event)
    (hpressed : msg.pressed = some p) : ∃ ev, event = .input ev ∧ ev.pressed = some p := by
  have hpress : msg.isPress := by
    by_contra hnot
    rw [Message.pressed_eq_none hnot] at hpressed
    cases hpressed
  have hnot : ∀ {t : MessageType}, msg.msgType = t → t ≠ .keyEvent → t ≠ .mouseButton → False := by
    rintro t rfl hkey hbutton
    exact hpress.elim hkey hbutton
  cases event with
  | newClient => cases h
  | clientDisconnected => cases h
  | clientMessage => exact (hnot h nofun nofun).elim
  | clipboardChanged => exact (hnot h nofun nofun).elim
  | input ev =>
      refine ⟨ev, rfl, ?_⟩
      cases ev with
      | mouseMove => exact (h.elim (hnot · nofun nofun) (hnot · nofun nofun)).elim
      | mouseScroll => exact (h.elim (hnot · nofun nofun) (hnot · nofun nofun)).elim
      | key code value =>
          rcases h with rfl | htype
          · rw [← hpressed, Message.pressed_keyEvent]
            rfl
          · exact (hnot htype nofun nofun).elim
      | mouseButton code value =>
          rcases h with rfl | htype
          · rw [← hpressed, Message.pressed_mouseButton]
            rfl
          · exact (hnot htype nofun nofun).elim

theorem trySend_watched (w : Watched Conns) (c : ConnId) (msg : Message) :
    Mailbox.trySend w c msg = ((Mailbox.trySend w.inner c msg).1,
      ⟨(Mailbox.trySend w.inner c msg).2, w.full || (Mailbox.trySend w.inner c msg).1 = .full⟩) := rfl

/-- What turned out full stays so. -/
theorem full_of_sendTo {w : Watched Conns} (hclient : s.clients.lookup name = some client)
    (hkept : (s.sendTo w name msg).2.full = false) : w.full = false := by
  rw [sendTo_registered hclient, trySend_watched] at hkept
  exact (Bool.or_eq_false_iff.mp hkept).1

/-- A send to a client that is there, when the queue did not turn out full. -/
theorem sendTo_kept {w : Watched Conns} (hclient : s.clients.lookup name = some client)
    (hlive : (w.inner client.tx).writer ≠ .ended) (hkept : (s.sendTo w name msg).2.full = false) :
    s.sendTo w name msg = (true, ⟨w.inner.enqueue client.tx [msg], false⟩) ∧
      s.sendTo w.inner name msg = (true, w.inner.enqueue client.tx [msg]) := by
  have hfull := full_of_sendTo hclient hkept
  rw [sendTo_registered hclient, trySend_watched, hfull] at hkept ⊢
  rw [sendTo_registered hclient]
  by_cases hroom : (w.inner client.tx).queue.length < CLIENT_QUEUE
  · rw [trySend_room hlive hroom]
    exact ⟨rfl, rfl⟩
  · rw [trySend_full hlive hroom] at hkept
    cases hkept

theorem sendOrDeactivate_snd {χ τ : Type} [Mailbox χ τ] (s : Server τ) (ch : χ) (name : String)
    (msg : Message) : (s.sendOrDeactivate ch name msg).2 = (s.sendTo ch name msg).2 := by
  unfold sendOrDeactivate
  simp only
  split <;> rfl

/-- A captured key or button is forwarded as a message that presses it. -/
theorem handleInput_of_pressed {ev : CaptureEvent} {p : Press} (h : ev.pressed = some p) :
    ∃ msg : Message, msg.pressed = some p ∧
      ∀ {χ : Type} [Mailbox χ ConnId] (env : Env ConnId) (s : Server ConnId) (ch : χ),
        s.handleInput env ch ev = s.forwardToActive ch msg true := by
  cases ev with
  | key code value =>
      refine ⟨Message.keyEvent code value, ?_, fun _ _ _ => rfl⟩
      rw [Message.pressed_keyEvent]
      exact h
  | mouseButton code value =>
      refine ⟨Message.mouseButton code value, ?_, fun _ _ _ => rfl⟩
      rw [Message.pressed_mouseButton]
      exact h
  | mouseMove => cases h
  | mouseScroll => cases h

/-- A forwarded message is queued, behind the motion that was pending. -/
theorem forwardToActive_kept {w : Watched Conns} {flush : Bool}
    (hactive : s.activeClient = some name) (hclient : s.clients.lookup name = some client)
    (hlive : (w.inner client.tx).writer ≠ .ended)
    (hkept : (s.forwardToActive w msg flush).2.full = false) :
    ∃ motion, (∀ m ∈ motion, ¬ m.isPress) ∧
      (s.forwardToActive w.inner msg flush).2 = w.inner.enqueue client.tx (motion ++ [msg]) := by
  rw [forwardToActive_of_active hactive] at hkept ⊢
  by_cases hflush : flush = true ∧ (s.pendingDx ≠ 0 ∨ s.pendingDy ≠ 0)
  · let motion := Message.mouseMove s.mouseX s.mouseY s.pendingDx s.pendingDy
    rw [if_pos hflush] at hkept ⊢
    have hclient' : (s.setPending 0 0).clients.lookup name = some client := hclient
    -- the motion was not dropped, as nothing was
    have hfirst : ((s.setPending 0 0).sendTo w name motion).2.full = false := by
      simp only at hkept
      split at hkept
      · rw [sendOrDeactivate_snd] at hkept
        exact full_of_sendTo hclient' hkept
      · exact hkept
    obtain ⟨hwatched, hinner⟩ := sendTo_kept hclient' hlive hfirst
    simp only [motion] at hwatched hinner
    simp only [hwatched, if_true, sendOrDeactivate_snd] at hkept
    have hlive' : ((w.inner.enqueue client.tx [motion]) client.tx).writer ≠ .ended := by
      rw [Conns.enqueue, Function.update_self]
      exact hlive
    obtain ⟨_, hsecond⟩ := sendTo_kept hclient' hlive' hkept
    refine ⟨[motion], ?_, ?_⟩
    · intro m hm
      rw [List.mem_singleton.mp hm]
      exact not_or.mpr ⟨nofun, nofun⟩
    · simp only [hinner, if_true, sendOrDeactivate_snd]
      rw [hsecond, Conns.enqueue_enqueue]
  · rw [if_neg hflush, sendOrDeactivate_snd] at hkept ⊢
    refine ⟨[], nofun, ?_⟩
    rw [(sendTo_kept hclient hlive hkept).2]
    rfl

end Server

end Bluecross
