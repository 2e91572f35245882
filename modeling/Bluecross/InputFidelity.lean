/-
# Bluecross.InputFidelity — input from a device of the server to a device of the client.

The whole way of an event: a device delivers it (`RawEvent`), a reader makes a `CaptureEvent` of it,
the server queues a `Message`, the message crosses the encrypted connection, and the client hands a
group of events to one of its virtual devices. Both ends speak of `evdev` events, so the two ends can be
compared (`Reproduces`): what a key, a button or a wheel did on the server is done on the client, event
for event and in the same order, and the motion of the pointer is the same in total. Every step of the
way has its own lemma elsewhere; here the readings of one step are matched with those of the next.
-/
import Bluecross.FieldAgreement
import Bluecross.Forwarding
import Bluecross.InputCapture
import Bluecross.MotionOrder

namespace Bluecross

open Lib (LTS)

/-! ## Events of both ends -/

/-- The type of an event, as `evdev` numbers it. -/
def EventType.number : EventType → UInt16
  | .synchronization => 0
  | .key => EV_KEY
  | .relative => EV_REL

/-- An injected event as the kernel sees it. -/
def InputEvent.raw (ev : InputEvent) : RawEvent := ⟨ev.eventType.number, ev.code, ev.value⟩

/-- The events the virtual devices were handed. -/
def rawOf (log : List Emission) : List RawEvent := log.flatMap fun e => e.events.map InputEvent.raw

@[simp]
theorem rawOf_append (l₁ l₂ : List Emission) : rawOf (l₁ ++ l₂) = rawOf l₁ ++ rawOf l₂ :=
  List.flatMap_append ..

/-- A key, a button, or a wheel that turned. -/
def RawEvent.isAct (ev : RawEvent) : Bool :=
  ev.eventType = EV_KEY ∨ ev.eventType = EV_REL ∧ (ev.code = REL_WHEEL ∨ ev.code = REL_HWHEEL) ∧
    ev.value ≠ 0

/-- What the pointer moves along one axis, in wrapping arithmetic. -/
def alongAxis (axis : UInt16) (evs : List RawEvent) : Int32 :=
  ((evs.filter fun ev => ev.eventType = EV_REL ∧ ev.code = axis).map RawEvent.value).sum

@[simp]
theorem alongAxis_append (axis : UInt16) (l₁ l₂ : List RawEvent) :
    alongAxis axis (l₁ ++ l₂) = alongAxis axis l₁ + alongAxis axis l₂ := by
  simp [alongAxis]

/-- The motion of both axes. -/
def pointerMotion (evs : List RawEvent) : Int32 × Int32 := (alongAxis REL_X evs, alongAxis REL_Y evs)

@[simp]
theorem pointerMotion_append (l₁ l₂ : List RawEvent) :
    pointerMotion (l₁ ++ l₂) = pointerMotion l₁ + pointerMotion l₂ := by
  simp [pointerMotion]

@[simp]
theorem pointerMotion_nil : pointerMotion [] = 0 := rfl

/-- The virtual device was built for every event of the group, except keys from `0x2ff` on. -/
def Emission.Placed (e : Emission) : Prop :=
  ∀ ev ∈ e.events, e.device.supports ev = true ∨
    e.device = .keyboard ∧ ev.eventType = .key ∧ 0x2ff ≤ ev.code

/-- The log of the virtual devices does what these events did, but for the motion that is pending:
`before` from earlier, `pending` still. -/
structure Reproduces (evs : List RawEvent) (before pending : Int32 × Int32) (log : List Emission) :
    Prop where
  acts : (rawOf log).filter RawEvent.isAct = evs.filter RawEvent.isAct
  motion : pointerMotion (rawOf log) + pending = before + pointerMotion evs
  placed : ∀ e ∈ log, e.Placed

/-! ## One event, captured and injected -/

open Client (groups)

/-- The events of a relative group: the axes that move, and a synchronisation. -/
theorem rawOf_emitRelative (axes : List (UInt16 × Int32)) :
    (InputInjector.new.setup.emitRelative axes).emitted
      = if (axes.filter fun a => a.2 ≠ 0).isEmpty then []
        else [⟨.mouse, (axes.filter fun a => a.2 ≠ 0).map (fun a => ⟨.relative, a.1, a.2⟩)
          ++ [InputInjector.sync]⟩] := by
  unfold InputInjector.emitRelative
  simp only [List.isEmpty_map]
  split
  · rfl
  · rfl

theorem groups_keyEvent (code : UInt16) (value : Int32) :
    groups (Message.keyEvent code value)
      = [⟨.keyboard, [⟨.key, code, value⟩, InputInjector.sync]⟩] := by
  have hcode : Client.u16Field (Message.keyEvent code value) "code" = code := by
    apply i64Or_ofU16
    simp [Message.keyEvent, Value.get_json, List.lookup_cons]
  have hvalue : Client.i32Field (Message.keyEvent code value) "value" = value := by
    apply i64Or_ofI32
    simp [Message.keyEvent, Value.get_json]
  show [Emission.mk .keyboard [⟨.key, Client.u16Field _ "code", Client.i32Field _ "value"⟩, _]] = _
  rw [hcode, hvalue]

theorem groups_mouseButton (button : UInt16) (value : Int32) :
    groups (Message.mouseButton button value)
      = [⟨.mouse, [⟨.key, button, value⟩, InputInjector.sync]⟩] := by
  have hbutton : Client.u16Field (Message.mouseButton button value) "button" = button := by
    apply i64Or_ofU16
    simp [Message.mouseButton, Value.get_json, List.lookup_cons]
  have hvalue : Client.i32Field (Message.mouseButton button value) "value" = value := by
    apply i64Or_ofI32
    simp [Message.mouseButton, Value.get_json]
  show [Emission.mk .mouse [⟨.key, Client.u16Field _ "button", Client.i32Field _ "value"⟩, _]] = _
  rw [hbutton, hvalue]

theorem groups_mouseScroll (dx dy : Int32) :
    groups (Message.mouseScroll dx dy)
      = (InputInjector.new.setup.injectMouseScroll dx dy).emitted := by
  have hdx : Client.i32Field (Message.mouseScroll dx dy) "dx" = dx := by
    apply i64Or_ofI32
    simp [Message.mouseScroll, Value.get_json, List.lookup_cons]
  have hdy : Client.i32Field (Message.mouseScroll dx dy) "dy" = dy := by
    apply i64Or_ofI32
    simp [Message.mouseScroll, Value.get_json]
  show (InputInjector.new.setup.injectMouseScroll (Client.i32Field _ "dx")
    (Client.i32Field _ "dy")).emitted = _
  rw [hdx, hdy]

/-- The acts a message is injected as. -/
def Message.acts (msg : Message) : List RawEvent := (rawOf (groups msg)).filter RawEvent.isAct

/-- What a device did is what the client does for the message that is made of it; an event that moves
the pointer, or that no reader recognises, is no act. -/
theorem acts_captured (ev : RawEvent) :
    ((ev.capture.bind CaptureEvent.message).toList.flatMap Message.acts)
      = [ev].filter RawEvent.isAct := by
  obtain ⟨eventType, code, value⟩ := ev
  unfold RawEvent.capture
  by_cases hkey : eventType = EV_KEY
  · by_cases hbutton : isMouseButton code = true
    · simp [hkey, hbutton, CaptureEvent.message, Message.acts, groups_mouseButton, rawOf,
        InputEvent.raw, EventType.number, InputInjector.sync, RawEvent.isAct, EV_KEY, EV_REL]
    · simp [hkey, hbutton, CaptureEvent.message, Message.acts, groups_keyEvent, rawOf,
        InputEvent.raw, EventType.number, InputInjector.sync, RawEvent.isAct, EV_KEY, EV_REL]
  · by_cases hrel : eventType = EV_REL
    · subst hrel
      by_cases hx : code = REL_X
      · simp [hx, CaptureEvent.message, RawEvent.isAct, EV_KEY, EV_REL, REL_X, REL_WHEEL, REL_HWHEEL]
      by_cases hy : code = REL_Y
      · simp [hy, CaptureEvent.message, RawEvent.isAct, EV_KEY, EV_REL, REL_X, REL_Y, REL_WHEEL,
          REL_HWHEEL]
      by_cases hwheel : code = REL_WHEEL
      · by_cases hzero : value = 0 <;>
          simp [hwheel, hzero, CaptureEvent.message, Message.acts, groups_mouseScroll,
            InputInjector.injectMouseScroll, rawOf_emitRelative, rawOf, InputEvent.raw,
            EventType.number, InputInjector.sync, RawEvent.isAct, EV_KEY, EV_REL, REL_X, REL_Y,
            REL_WHEEL]
      by_cases hhwheel : code = REL_HWHEEL
      · by_cases hzero : value = 0 <;>
          simp [hhwheel, hzero, CaptureEvent.message, Message.acts, groups_mouseScroll,
            InputInjector.injectMouseScroll, rawOf_emitRelative, rawOf, InputEvent.raw,
            EventType.number, InputInjector.sync, RawEvent.isAct, EV_KEY, EV_REL, REL_X, REL_Y,
            REL_WHEEL, REL_HWHEEL]
      · simp [hx, hy, hwheel, hhwheel, RawEvent.isAct, EV_KEY, EV_REL]
    · simp [hkey, hrel, RawEvent.isAct]

/-- The motion a reader makes of an event is the motion of the event. -/
theorem delta_captured (ev : RawEvent) :
    (ev.capture.toList.map CaptureEvent.delta).sum = pointerMotion [ev] := by
  obtain ⟨eventType, code, value⟩ := ev
  have hstill : ¬ (eventType = EV_REL ∧ (code = REL_X ∨ code = REL_Y)) →
      pointerMotion [⟨eventType, code, value⟩] = 0 := by
    intro h
    by_cases hrel : eventType = EV_REL
    · have hboth : code ≠ REL_X ∧ code ≠ REL_Y := not_or.mp fun haxis => h ⟨hrel, haxis⟩
      simp [pointerMotion, alongAxis, hboth]
    · simp [pointerMotion, alongAxis, hrel]
  unfold RawEvent.capture
  by_cases hkey : eventType = EV_KEY
  · rw [hstill (by simp [hkey, EV_KEY, EV_REL])]
    by_cases hbutton : isMouseButton code = true <;> simp [hkey, hbutton, CaptureEvent.delta]
  by_cases hrel : eventType = EV_REL
  · subst hrel
    by_cases hx : code = REL_X
    · simp [hx, CaptureEvent.delta, pointerMotion, alongAxis, EV_KEY, EV_REL, REL_X, REL_Y]
    by_cases hy : code = REL_Y
    · simp [hy, CaptureEvent.delta, pointerMotion, alongAxis, EV_KEY, EV_REL, REL_X, REL_Y]
    rw [hstill (by simp [hx, hy])]
    by_cases hwheel : code = REL_WHEEL
    · simp [hwheel, CaptureEvent.delta, EV_KEY, EV_REL, REL_X, REL_Y, REL_WHEEL]
    by_cases hhwheel : code = REL_HWHEEL
    · simp [hhwheel, CaptureEvent.delta, EV_KEY, EV_REL, REL_X, REL_Y, REL_WHEEL, REL_HWHEEL]
    · simp [hkey, hx, hy, hwheel, hhwheel]
  · rw [hstill fun h => hrel h.1]
    simp [hkey, hrel]

/-! ## Sequences -/

/-- The captured motion of a sequence of events. -/
theorem captured_filterMap (evs : List RawEvent) :
    captured (evs.filterMap RawEvent.capture) = pointerMotion evs := by
  induction evs with
  | nil => rfl
  | cons ev evs ih =>
      have hone := delta_captured ev
      have happend := pointerMotion_append [ev] evs
      rw [List.singleton_append] at happend
      rw [happend, ← ih, ← hone, List.filterMap_cons]
      rcases ev.capture with _ | c
      · simp [captured]
      · simp [captured]

/-- The acts of the messages that a sequence of events is forwarded as. -/
theorem acts_filterMap (evs : List RawEvent) :
    (((evs.filterMap RawEvent.capture).filterMap CaptureEvent.message).flatMap Message.acts)
      = evs.filter RawEvent.isAct := by
  induction evs with
  | nil => rfl
  | cons ev evs ih =>
      have hone := acts_captured ev
      rw [show ev :: evs = [ev] ++ evs from rfl, List.filterMap_append, List.filterMap_append,
        List.flatMap_append, List.filter_append, ih, ← hone]
      congr 1
      rcases hcapture : ev.capture with _ | c
      · simp [hcapture]
      · rcases hmessage : c.message with _ | msg <;> simp [hcapture, hmessage]

/-- The messages that are no input have no acts. -/
theorem acts_inputsOf (queue : List Message) :
    queue.flatMap Message.acts = (inputsOf queue).flatMap Message.acts := by
  induction queue with
  | nil => rfl
  | cons msg queue ih =>
      by_cases hinput : msg.msgType ≠ .mouseMove ∧ msg.msgType ≠ .clipboardData
      · simp [inputsOf, hinput, ih]
      · have hnone : msg.acts = [] := by
          have htype : msg.msgType = .mouseMove ∨ msg.msgType = .clipboardData := by
            simpa only [ne_eq, not_and_or, not_not] using hinput
          rcases htype with htype | htype <;>
            simp [Message.acts, groups, Message.press, htype, rawOf]
        rw [List.flatMap_cons, hnone, ih, inputsOf, inputsOf, List.filter_cons_of_neg (by simpa using hinput)]
        rfl

/-! ## What a client injects -/

namespace Client

theorem emitRelative_placed {axes : List (UInt16 × Int32)}
    (haxes : ∀ a ∈ axes, a.1 ∈ Device.mouse.relAxes) :
    ∀ e ∈ (InputInjector.new.setup.emitRelative axes).emitted, e.Placed := by
  intro e he ev hev
  rw [rawOf_emitRelative] at he
  split at he
  · cases he
  · rw [List.mem_singleton.mp he] at hev ⊢
    left
    rcases List.mem_append.mp hev with hmoved | hsync
    · obtain ⟨a, ha, rfl⟩ := List.mem_map.mp hmoved
      simpa [Device.supports] using haxes a (List.mem_of_mem_filter ha)
    · rw [List.mem_singleton.mp hsync]
      rfl

/-- The motion of a batch, injected, moves the pointer by that motion and does nothing else. -/
theorem motionGroup_raw (total : Int32 × Int32) :
    (rawOf (motionGroup total)).filter RawEvent.isAct = [] ∧
      pointerMotion (rawOf (motionGroup total)) = total ∧ ∀ e ∈ motionGroup total, e.Placed := by
  refine ⟨?_, ?_, ?_⟩
  · obtain ⟨dx, dy⟩ := total
    by_cases hdx : dx = 0 <;> by_cases hdy : dy = 0 <;>
      simp [hdx, hdy, motionGroup, InputInjector.injectMouseMove, rawOf_emitRelative, rawOf,
        InputEvent.raw, EventType.number, InputInjector.sync, RawEvent.isAct, EV_KEY, EV_REL, REL_X,
        REL_Y, REL_WHEEL, REL_HWHEEL]
  · obtain ⟨dx, dy⟩ := total
    by_cases hdx : dx = 0 <;> by_cases hdy : dy = 0 <;>
      simp [hdx, hdy, motionGroup, InputInjector.injectMouseMove, rawOf_emitRelative, rawOf,
        InputEvent.raw, EventType.number, InputInjector.sync, pointerMotion, alongAxis, EV_REL, REL_X,
        REL_Y]
  · apply emitRelative_placed
    simp [Device.relAxes]

/-- While a batch is read the pointer does not move. -/
theorem groups_motionless (msg : Message) : pointerMotion (rawOf (groups msg)) = 0 := by
  unfold groups
  split
  · generalize i32Field msg "dx" = dx
    generalize i32Field msg "dy" = dy
    by_cases hdx : dx = 0 <;> by_cases hdy : dy = 0 <;>
      simp [hdx, hdy, InputInjector.injectMouseScroll, rawOf_emitRelative, rawOf, InputEvent.raw,
        EventType.number, InputInjector.sync, pointerMotion, alongAxis, EV_REL, REL_X, REL_Y,
        REL_WHEEL, REL_HWHEEL]
  · unfold Message.press
    split <;>
      simp [rawOf, InputEvent.raw, EventType.number, InputInjector.sync, pointerMotion, alongAxis,
        EV_KEY, EV_REL]

theorem batchLog_raw (b : Batch) :
    (rawOf (batchLog b)).filter RawEvent.isAct = b.messages.flatMap Message.acts ∧
      pointerMotion (rawOf (batchLog b)) = moved b.messages := by
  have hread : ∀ msgs : List Message,
      (rawOf (msgs.flatMap groups)).filter RawEvent.isAct = msgs.flatMap Message.acts ∧
        pointerMotion (rawOf (msgs.flatMap groups)) = 0 := by
    intro msgs
    induction msgs with
    | nil => exact ⟨rfl, rfl⟩
    | cons msg msgs ih =>
        simp [ih.1, ih.2, groups_motionless, Message.acts]
  obtain ⟨hacts, hmotion, _⟩ := motionGroup_raw (moved b.messages)
  simp [batchLog, hacts, hmotion, (hread b.messages).1, (hread b.messages).2]

/-- What several batches are injected as. -/
theorem batchLogs_raw (batches : List Batch) :
    (rawOf (batches.flatMap batchLog)).filter RawEvent.isAct
        = (batches.flatMap Batch.messages).flatMap Message.acts ∧
      pointerMotion (rawOf (batches.flatMap batchLog)) = moved (batches.flatMap Batch.messages) := by
  induction batches with
  | nil => exact ⟨rfl, rfl⟩
  | cons b batches ih =>
      simp [moved_append, ih.1, ih.2, (batchLog_raw b).1, (batchLog_raw b).2]

theorem batchLogs_placed {batches : List Batch}
    (h : ∀ msg ∈ batches.flatMap Batch.messages, ∀ e ∈ groups msg, e.Placed) :
    ∀ e ∈ batches.flatMap batchLog, e.Placed := by
  intro e he
  obtain ⟨b, hb, he⟩ := List.mem_flatMap.mp he
  rcases List.mem_append.mp he with hread | hmoved
  · obtain ⟨msg, hmsg, he⟩ := List.mem_flatMap.mp hread
    exact h msg (List.mem_flatMap.mpr ⟨b, hb, hmsg⟩) e he
  · exact (motionGroup_raw _).2.2 e hmoved

end Client

theorem isMouseButton_of_key {ev : RawEvent} {code : UInt16} {value : Int32}
    (h : ev.capture = some (.key code value)) : isMouseButton code = false := by
  grind [RawEvent.capture]

theorem isMouseButton_of_mouseButton {ev : RawEvent} {code : UInt16} {value : Int32}
    (h : ev.capture = some (.mouseButton code value)) : isMouseButton code = true := by
  grind [RawEvent.capture]

/-- A message that a recognised event is forwarded as goes to a device that was built for it. -/
theorem captured_placed {ev : RawEvent} {c : CaptureEvent} {msg : Message}
    (hcapture : ev.capture = some c) (hmessage : c.message = some msg) :
    ∀ e ∈ groups msg, e.Placed := by
  have hpress : ∀ (device : Device) (code : UInt16) (value : Int32),
      (device.keys.contains code = true ∨ device = .keyboard ∧ 0x2ff ≤ code) →
      Emission.Placed ⟨device, [⟨.key, code, value⟩, InputInjector.sync]⟩ := by
    intro device code value hcode e he
    rcases List.mem_pair.mp he with rfl | rfl
    · exact hcode.imp id fun h => ⟨h.1, rfl, h.2⟩
    · exact Or.inl rfl
  rcases c with ⟨code, value⟩ | ⟨dx, dy⟩ | ⟨code, value⟩ | ⟨dx, dy⟩
  · cases hmessage
    have hcode : isMouseButton code = false := isMouseButton_of_key hcapture
    rw [groups_keyEvent]
    intro e he
    rw [List.mem_singleton.mp he]
    apply hpress
    by_cases hhigh : code < 0x2ff
    · left
      simp [hhigh, hcode]
    · right
      exact ⟨rfl, UInt16.not_lt.mp hhigh⟩
  · cases hmessage
  · cases hmessage
    have hcode : isMouseButton code = true := isMouseButton_of_mouseButton hcapture
    rw [groups_mouseButton]
    intro e he
    rw [List.mem_singleton.mp he]
    apply hpress
    left
    simp [hcode]
  · cases hmessage
    rw [groups_mouseScroll]
    apply Client.emitRelative_placed
    simp [Device.relAxes]

/-- What is queued to a client goes to devices that were built for it, or nowhere. -/
theorem queued_placed {evs : List RawEvent} {queue : List Message}
    (h : inputsOf queue = (evs.filterMap RawEvent.capture).filterMap CaptureEvent.message) :
    ∀ msg ∈ queue, ∀ e ∈ groups msg, e.Placed := by
  intro msg hmsg
  by_cases hinput : msg.msgType ≠ .mouseMove ∧ msg.msgType ≠ .clipboardData
  · have hmem : msg ∈ inputsOf queue := List.mem_filter.mpr ⟨hmsg, by simpa using hinput⟩
    rw [h] at hmem
    obtain ⟨c, hc, hmessage⟩ := List.mem_filterMap.mp hmem
    obtain ⟨ev, _, hcapture⟩ := List.mem_filterMap.mp hc
    exact captured_placed hcapture hmessage
  · have htype : msg.msgType = .mouseMove ∨ msg.msgType = .clipboardData := by
      simpa only [ne_eq, not_and_or, not_not] using hinput
    rcases htype with htype | htype <;> simp [groups, Message.press, htype]

/-! ## The whole way -/

/-- The client has control, or is given it by the first message of these. -/
def Client.Leads (c : Client) (lead : List Message) : Prop :=
  (c.state.active = true ∧ lead = []) ∨ ∃ x y, lead = [Message.switchToClient x y]

namespace Server

variable {τ : Type} {owner : τ → String} {n : String} {s s' : Server τ} {r r' : Recorder τ}

/-- What a client is sent while it is active: the messages of the captured events, and the motion
that is not pending. -/
theorem forwarded_while_active {config : ServerConfig} (hsized : config.Sized)
    {ls : List (Env τ × ServerEvent τ)}
    (hreach : (Server.system config).Reach (NamedSenders owner) (s, r))
    (hrun : (Server.system config).Steps (Activation owner n) (s, r) ls (s', r'))
    (hactive : s'.activeClient = some n) (haccepted : Accepted owner n (r'.log.drop r.log.length)) :
    inputsOf (queuedTo owner n (r'.log.drop r.log.length))
        = (inputs ls).filterMap CaptureEvent.message ∧
      moved (queuedTo owner n (r'.log.drop r.log.length)) + s'.pending
        = s.pending + captured (inputs ls) := by
  obtain ⟨hcoherent, hconfig⟩ := control_reach hsized hreach
  obtain ⟨sent, hlog, hserved⟩ :=
    serves_run hsized hrun hcoherent hconfig (owned_reach hreach) hactive
  have hdrop : r'.log.drop r.log.length = sent := by
    rw [show r'.log = r.log ++ sent from hlog, List.drop_left]
  rw [hdrop] at haccepted ⊢
  -- the motion that is pending at the start, as an event before the run
  have hstart : Faithful [.mouseMove s.pending.1 s.pending.2] [] s.pending := by
    have haccumulated := Faithful.nil.accumulate s.pending.1 s.pending.2
    simpa using haccumulated
  have hfaithful := hserved haccepted _ _ hstart
  refine ⟨?_, ?_⟩
  · exact hfaithful.inputs
  · have hsum := hfaithful.conserved
    rw [Faithful.captured_append, List.nil_append] at hsum
    simpa [captured, CaptureEvent.delta] using hsum

/-- While a client is active, what the devices of the server do is done by the virtual devices of the
client: whatever else the server handles, however the motion is flushed, the frames are cut, and the
client batches its messages, as long as its queue takes what it is sent and the pointer does not leave
over the edge. Keys, buttons and wheels arrive as they were, in order and once each; the motion of the
pointer is the same in total, up to what is pending; and every event goes to a virtual device that was
built for it, but for keys from `0x2ff` on. -/
theorem input_reproduced {config : ServerConfig} (hsized : config.Sized)
    {ls : List (Env τ × ServerEvent τ)} {evs : List RawEvent}
    (hreach : (Server.system config).Reach (NamedSenders owner) (s, r))
    (hrun : (Server.system config).Steps (Activation owner n) (s, r) ls (s', r'))
    (hactive : s'.activeClient = some n) (haccepted : Accepted owner n (r'.log.drop r.log.length))
    (hcaptured : inputs ls = evs.filterMap RawEvent.capture)
    (serde : SerdeJson) (sender receiver : TransportState) (k : Nat)
    (hsession : InOrder sender receiver) (c : Client) (hready : c.injector.Ready)
    (lead : List Message) (hlead : c.Leads lead)
    (hsendable : ∀ msg ∈ lead ++ queuedTo owner n (r'.log.drop r.log.length), Sendable serde msg) :
    ∃ w : ProtocolWriter,
      (ProtocolWriter.new ⟨[], sender, k⟩).sendAll serde
          (lead ++ queuedTo owner n (r'.log.drop r.log.length)) = .ok w ∧
      ∀ batches : List Batch,
        (ProtocolReader.new (SecureReader.mk ⟨w.writer.writer, none⟩ receiver k)).receiveN serde
            ((lead ++ queuedTo owner n (r'.log.drop r.log.length)).length + 1)
          = (batches.flatMap Batch.messages).map (fun msg => .ok (some msg)) ++ [.ok none] →
        c.Stays batches →
          Reproduces evs s.pending s'.pending
            ((c.handleBatches batches).injector.emitted.drop c.injector.emitted.length) := by
  obtain ⟨hinputs, hmoved⟩ := forwarded_while_active hsized hreach hrun hactive haccepted
  generalize queuedTo owner n (r'.log.drop r.log.length) = queue at *
  rw [hcaptured] at hinputs
  rw [hcaptured, captured_filterMap] at hmoved
  obtain ⟨w, _, hsend, _, _, hpending, hending⟩ := sendAll_pending serde k (lead ++ queue) hsession
  refine ⟨w, hsend, ?_⟩
  intro batches hreceived hstays
  -- the client's batches are cut from what was sent
  have hbatches : batches.flatMap Batch.messages = lead ++ queue := by
    rw [receiveN_sent hsendable hpending hending] at hreceived
    have hmap := List.append_cancel_right hreceived
    exact (List.map_injective_iff.mpr (fun _ _ h => Option.some.inj (Except.ok.inj h)) hmap).symm
  have hlog : (c.handleBatches batches).injector.emitted.drop c.injector.emitted.length
      = batches.flatMap Client.batchLog := by
    rw [Client.handleBatches_spec hready _ hstays, List.drop_left]
    rcases hlead with ⟨hon, _⟩ | ⟨x, y, rfl⟩
    · exact Or.inl hon
    · right
      intro b hb
      obtain ⟨rest, rfl⟩ := List.head?_eq_some_iff.mp hb
      have hhead := congrArg List.head? hbatches
      simp only [Batch.messages, List.flatMap_cons, List.cons_append, List.head?_cons] at hhead
      rw [Option.some.inj hhead]
      rfl
  -- a switch is no act, moves nothing and is injected as nothing
  have hsilent : lead.flatMap Message.acts = [] ∧ moved lead = 0 ∧ ∀ msg ∈ lead, groups msg = [] := by
    rcases hlead with ⟨_, rfl⟩ | ⟨x, y, rfl⟩
    · exact ⟨rfl, rfl, by simp⟩
    · refine ⟨rfl, rfl, ?_⟩
      intro msg hmsg
      rw [List.mem_singleton.mp hmsg]
      rfl
  rw [hlog]
  refine ⟨?_, ?_, ?_⟩
  · rw [(Client.batchLogs_raw batches).1, hbatches, List.flatMap_append, hsilent.1, List.nil_append,
      acts_inputsOf, hinputs, acts_filterMap]
  · rw [(Client.batchLogs_raw batches).2, hbatches, moved_append, hsilent.2.1, zero_add, hmoved]
  · apply Client.batchLogs_placed
    rw [hbatches]
    intro msg hmsg
    rcases List.mem_append.mp hmsg with hled | hqueued
    · rw [hsilent.2.2 msg hled]
      simp
    · exact queued_placed hinputs msg hqueued

/-! ## A key, a button, a wheel and the pointer -/

/-- What the devices of the server do while the laptop of `leftConfig` has control: a key goes down and
up, and in between the pointer moves, with a synchronisation, and a button and a wheel are used. Then
the pointer moves again. -/
def deskWork : List RawEvent :=
  [⟨EV_KEY, KEY_A, 1⟩, ⟨EV_REL, REL_X, 5⟩, ⟨0, 0, 0⟩, ⟨EV_REL, REL_Y, 3⟩, ⟨EV_KEY, BTN_LEFT, 1⟩,
    ⟨EV_REL, REL_WHEEL, -1⟩, ⟨EV_KEY, KEY_A, 0⟩, ⟨EV_REL, REL_X, 2⟩]

/-- What the server is handed of that work. -/
def deskInput : List (Env Unit × ServerEvent Unit) :=
  (deskWork.filterMap RawEvent.capture).map fun ev => (⟨10, HashOrder.entries Unit⟩, .input ev)

/-- What the laptop is sent: the motion before the button, and nothing yet of the last one. -/
def deskMessages : List Message :=
  [Message.keyEvent KEY_A 1, Message.mouseMove 5 243 5 3, Message.mouseButton BTN_LEFT 1,
    Message.mouseScroll 0 (-1), Message.keyEvent KEY_A 0]

/-- The laptop takes the messages in two batches. -/
def deskBatches : List Batch :=
  [⟨(Message.keyEvent KEY_A 1, 20), [(Message.mouseMove 5 243 5 3, 21)], ⟨22, 22, 22⟩⟩,
    ⟨(Message.mouseButton BTN_LEFT 1, 30), [(Message.mouseScroll 0 (-1), 31),
      (Message.keyEvent KEY_A 0, 32)], ⟨33, 33, 33⟩⟩]

/-- `serde_json` on those messages. -/
def deskSerde : SerdeJson := .ofValues (deskMessages.map Message.payload)

theorem sendable_desk : ∀ msg ∈ deskMessages, Sendable deskSerde msg :=
  sendable_ofValues (by decide) (by decide)

theorem input_reproduced_desk :
    ∃ p p' : Server Unit × Recorder Unit,
      (Server.system leftConfig).exec
          (Server.new leftConfig ClipboardManager.new 0, ⟨fun _ => .ok, []⟩) (leftRun.take 2)
        = some p ∧
      (Server.system leftConfig).exec p deskInput = some p' ∧ p'.1.pending = (2, 0) ∧
      Reproduces deskWork p.1.pending p'.1.pending
        ((heldLaptop.handleBatches deskBatches).injector.emitted.drop
          heldLaptop.injector.emitted.length) := by
  refine ⟨_, _, rfl, rfl, rfl, ?_⟩
  have hregister : NamedSenders (fun _ : Unit => "laptop")
      (Server.new leftConfig ClipboardManager.new 0, (⟨fun _ => .ok, []⟩ : Recorder Unit))
      (⟨0, HashOrder.entries Unit⟩, .newClient "laptop" .left 800 600 ()) := by
    intro name position w hgt tx hevent
    exact (ServerEvent.newClient.inj hevent).1
  have hinput := @namedSenders_input Unit fun _ => "laptop"
  have haccepted : ∀ msgs : List Message, Accepted (fun _ : Unit => "laptop") "laptop"
      (msgs.map fun msg => ⟨(), msg, .ok⟩) := by
    intro msgs a ha _
    obtain ⟨msg, _, rfl⟩ := List.mem_map.mp ha
    rfl
  obtain ⟨w, hsend, hreproduced⟩ := @input_reproduced Unit (fun _ => "laptop") "laptop" _ _ _ _
    leftConfig ⟨by decide, by decide⟩ deskInput deskWork
    ⟨_, leftRun.take 2, ⟨ClipboardManager.new, 0, rfl⟩,
      LTS.steps_of_exec rfl ⟨hregister, hinput _ _ _, trivial⟩⟩
    (LTS.steps_of_exec rfl ⟨⟨hinput _ _ _, rfl⟩, ⟨hinput _ _ _, rfl⟩, ⟨hinput _ _ _, rfl⟩,
      ⟨hinput _ _ _, rfl⟩, ⟨hinput _ _ _, rfl⟩, ⟨hinput _ _ _, rfl⟩, ⟨hinput _ _ _, rfl⟩, trivial⟩) rfl
    (haccepted deskMessages) rfl deskSerde taggedSession taggedSession 0 inOrder_taggedSession heldLaptop
    ⟨rfl, rfl⟩ [] (Or.inl ⟨rfl, rfl⟩) sendable_desk
  apply hreproduced
  · obtain ⟨w', _, hsend', _, _, hpending, hending⟩ := sendAll_pending deskSerde 0 deskMessages
      inOrder_taggedSession
    rw [Except.ok.inj (hsend.symm.trans hsend')]
    exact receiveN_sent sendable_desk hpending hending
  · exact ⟨rfl, rfl, trivial⟩

end Server

end Bluecross
