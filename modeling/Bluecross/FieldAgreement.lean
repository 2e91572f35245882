/-
# Bluecross.FieldAgreement — what one side writes under a name is what the other side reads under it.

The constructors of messages and their readers agree on nothing but the names of the fields. A name that
does not match, a value of another type or a cast that narrows would not be an error anywhere: the
reader would go on with its default, or with a part of the number. `Agreement` says, for every kind of
message that carries data, that decoding what was encoded and acting on it has the effect of the
arguments it was built from, whatever they are. It is put together from one lemma for each kind, which
reads the fields by `Value.get_json` and undoes the casts.
-/
import Bluecross.Admission
import Bluecross.Wire

namespace Bluecross

/-- The message is decoded from its encoding, and what is decoded has the property. -/
def Arrives (serde : SerdeJson) (msg : Message) (P : Message → Prop) : Prop :=
  ∃ received, Message.decode serde (msg.encode serde) =
    .ok (some (received, (msg.encode serde).length)) ∧ P received

theorem Sendable.arrives {serde : SerdeJson} {msg : Message} {P : Message → Prop}
    (h : Sendable serde msg) (hP : P msg) : Arrives serde msg P :=
  ⟨msg, Message.decode_encode h.1 h.2, hP⟩

/-- The first message that the reader of a connection delivers. -/
def Arrival.FirstMessage (serde : SerdeJson) (a : Arrival) (msg : Message) : Prop :=
  ∃ secureReader secureWriter reader, a.secure = some (.ok (secureReader, secureWriter)) ∧
    (ProtocolReader.new secureReader).receive serde = (.ok (some msg), reader)

/-- Nothing fails while the connection is handled: its first message comes in time, and the ack with
this position is encrypted, written and flushed. -/
structure Arrival.Unhindered (serde : SerdeJson) (config : ServerConfig) (a : Arrival)
    (position : ScreenPosition) : Prop where
  timely : a.timedOut = false
  encrypted : ∀ secureReader secureWriter, a.secure = some (.ok (secureReader, secureWriter)) →
    ∃ writer, (ProtocolWriter.new secureWriter).send serde (Message.handshakeAck position.asStr
      config.screenWidth config.screenHeight) = .ok writer
  written : a.written = .ok ()
  flushed : a.flushed = .ok ()

/-! ## The fields of a message, read back -/

/-- A field that was written as an `i32`. -/
theorem i64Or_ofI32 {payload : Value} {key : String} {n : Int32} (d : Int64)
    (h : payload.get key = some (.ofI32 n)) : (payload.i64Or key d).toInt32 = n := by
  simp [Value.i64Or, h]

/-- A field that was written as a `u16`. -/
theorem i64Or_ofU16 {payload : Value} {key : String} {n : UInt16} (d : Int64)
    (h : payload.get key = some (.ofU16 n)) : (payload.i64Or key d).toUInt64.toUInt16 = n := by
  simp [Value.i64Or, h]

/-- A field that was written as a string. -/
theorem asStr_string {payload : Value} {key text : String}
    (h : payload.get key = some (.string text)) : (payload.get key).bind Value.asStr = some text := by
  simp [h, Value.asStr]

namespace Client

variable (c : Client) (now : Instant)

theorem applyMessage_keyEvent (hactive : c.state.active = true) (code : UInt16) (value : Int32) :
    c.applyMessage (Message.keyEvent code value) now =
      ({ c with injector := c.injector.injectKey code value }, 0, 0) := by
  have hcode : u16Field (Message.keyEvent code value) "code" = code := by
    apply i64Or_ofU16
    simp [Message.keyEvent, Value.get_json, List.lookup_cons]
  have hvalue : i32Field (Message.keyEvent code value) "value" = value := by
    apply i64Or_ofI32
    simp [Message.keyEvent, Value.get_json]
  have hread : c.applyMessage (Message.keyEvent code value) now =
      ({ c with
          injector := c.injector.injectKey (u16Field (Message.keyEvent code value) "code")
            (i32Field (Message.keyEvent code value) "value") }, 0, 0) := by
    simp only [applyMessage, Message.keyEvent, hactive, not_true_eq_false, if_false]
  rw [hread, hcode, hvalue]

theorem applyMessage_mouseMove (hactive : c.state.active = true) (x y dx dy : Int32) :
    c.applyMessage (Message.mouseMove x y dx dy) now = (c, dx, dy) := by
  have hread : c.applyMessage (Message.mouseMove x y dx dy) now =
      (c, (Message.mouseMove x y dx dy).delta) := by
    simp only [applyMessage, Message.mouseMove, hactive, not_true_eq_false, if_false]
  rw [hread, Message.delta_mouseMove]

theorem applyMessage_mouseButton (hactive : c.state.active = true) (button : UInt16)
    (value : Int32) :
    c.applyMessage (Message.mouseButton button value) now =
      ({ c with injector := c.injector.injectMouseButton button value }, 0, 0) := by
  have hbutton : u16Field (Message.mouseButton button value) "button" = button := by
    apply i64Or_ofU16
    simp [Message.mouseButton, Value.get_json, List.lookup_cons]
  have hvalue : i32Field (Message.mouseButton button value) "value" = value := by
    apply i64Or_ofI32
    simp [Message.mouseButton, Value.get_json]
  have hread : c.applyMessage (Message.mouseButton button value) now =
      ({ c with
          injector := c.injector.injectMouseButton
            (u16Field (Message.mouseButton button value) "button")
            (i32Field (Message.mouseButton button value) "value") }, 0, 0) := by
    simp only [applyMessage, Message.mouseButton, hactive, not_true_eq_false, if_false]
  rw [hread, hbutton, hvalue]

theorem applyMessage_mouseScroll (hactive : c.state.active = true) (dx dy : Int32) :
    c.applyMessage (Message.mouseScroll dx dy) now =
      ({ c with injector := c.injector.injectMouseScroll dx dy }, 0, 0) := by
  have hdx : i32Field (Message.mouseScroll dx dy) "dx" = dx := by
    apply i64Or_ofI32
    simp [Message.mouseScroll, Value.get_json, List.lookup_cons]
  have hdy : i32Field (Message.mouseScroll dx dy) "dy" = dy := by
    apply i64Or_ofI32
    simp [Message.mouseScroll, Value.get_json]
  have hread : c.applyMessage (Message.mouseScroll dx dy) now =
      ({ c with
          injector := c.injector.injectMouseScroll (i32Field (Message.mouseScroll dx dy) "dx")
            (i32Field (Message.mouseScroll dx dy) "dy") }, 0, 0) := by
    simp only [applyMessage, Message.mouseScroll, hactive, not_true_eq_false, if_false]
  rw [hread, hdx, hdy]

theorem applyMessage_switchToClient (entryX entryY : Int32) :
    c.applyMessage (Message.switchToClient entryX entryY) now =
      ({ c with
          state :=
            { c.state with
              active := true
              switchTime := now
              edgePushing := false
              mouseX := entryX
              mouseY := entryY } }, 0, 0) := by
  have hx : ((Message.switchToClient entryX entryY).payload.i64Or "entry_x"
      (c.state.config.screenWidth / 2).toInt64).toInt32 = entryX := by
    apply i64Or_ofI32
    simp [Message.switchToClient, Value.get_json, List.lookup_cons]
  have hy : ((Message.switchToClient entryX entryY).payload.i64Or "entry_y"
      (c.state.config.screenHeight / 2).toInt64).toInt32 = entryY := by
    apply i64Or_ofI32
    simp [Message.switchToClient, Value.get_json]
  rw [c.applyMessage_of_isSwitch rfl now, takeControl, hx, hy]

end Client

/-- The name and the screen of a hello. -/
theorem handshake_fields (name : String) (width height : Int32) :
    ((Message.handshake name width height).payload.get "name").bind Value.asStr = some name ∧
      ((Message.handshake name width height).payload.i64Or "screen_width" 1920).toInt32 = width ∧
      ((Message.handshake name width height).payload.i64Or "screen_height" 1080).toInt32 = height := by
  refine ⟨?_, ?_, ?_⟩
  · apply asStr_string
    simp [Message.handshake, Value.get_json, List.lookup_cons]
  · apply i64Or_ofI32
    simp [Message.handshake, Value.get_json, List.lookup_cons]
  · apply i64Or_ofI32
    simp [Message.handshake, Value.get_json]

theorem acknowledged_handshakeAck (s : ClientState) (position : String) (width height : Int32) :
    s.acknowledged (Message.handshakeAck position width height) =
      { s with
        position := ScreenPosition.fromStr position
        serverWidth := width
        serverHeight := height } := by
  have hposition : ((Message.handshakeAck position width height).payload.get "position").bind
      Value.asStr = some position := by
    apply asStr_string
    simp [Message.handshakeAck, Value.get_json, List.lookup_cons]
  have hwidth : ((Message.handshakeAck position width height).payload.i64Or "server_width"
      1920).toInt32 = width := by
    apply i64Or_ofI32
    simp [Message.handshakeAck, Value.get_json, List.lookup_cons]
  have hheight : ((Message.handshakeAck position width height).payload.i64Or "server_height"
      1080).toInt32 = height := by
    apply i64Or_ofI32
    simp [Message.handshakeAck, Value.get_json]
  rw [ClientState.acknowledged, hposition, hwidth, hheight, Option.bind_some]

theorem fromStr_asStr (p : ScreenPosition) : ScreenPosition.fromStr p.asStr = some p := by
  cases p <;> rfl

/-- A connection whose first message is a hello with this name and screen is admitted under them. -/
theorem admitted_of_handshake {serde : SerdeJson} {config : ServerConfig} {a : Arrival}
    {adm : Admitted} {name : String} {width height : Int32}
    (hfirst : a.FirstMessage serde (Message.handshake name width height))
    (hadmits : a.handleNewConnection serde config = .ok adm) :
    adm.name = name ∧ adm.screenWidth = width ∧ adm.screenHeight = height := by
  obtain ⟨secureReader, secureWriter, reader, hsecure, hreceive⟩ := hfirst
  obtain ⟨secureReader', secureWriter', msg, hsecure', _, hreceive', _, hname, hwidth, hheight, _⟩ :=
    (Arrival.handleNewConnection_eq_ok.mp hadmits).greeted
  -- the connection has one channel, and the channel one first message
  rw [hsecure] at hsecure'
  cases hsecure'
  rw [hreceive] at hreceive'
  cases hreceive'
  obtain ⟨hname', hwidth', hheight'⟩ := handshake_fields name width height
  rw [hname'] at hname
  exact ⟨(Option.some.inj hname).symm, hwidth.trans hwidth', hheight.trans hheight'⟩

/-- A connection that says hello under a configured name is admitted if nothing fails. -/
theorem admits_of_handshake {serde : SerdeJson} {config : ServerConfig} {a : Arrival} {name : String}
    {width height : Int32} {position : ScreenPosition}
    (hfirst : a.FirstMessage serde (Message.handshake name width height))
    (hposition : config.clients.lookup name = some position)
    (hnothing : a.Unhindered serde config position) :
    ∃ adm, a.handleNewConnection serde config = .ok adm ∧ adm.position = position := by
  obtain ⟨secureReader, secureWriter, reader, hsecure, hreceive⟩ := hfirst
  obtain ⟨writer, hsend⟩ := hnothing.encrypted secureReader secureWriter hsecure
  obtain ⟨hname, hwidth, hheight⟩ := handshake_fields name width height
  refine ⟨⟨name, position, width, height, reader, writer⟩, ?_, rfl⟩
  apply Arrival.handleNewConnection_eq_ok.mpr
  exact ⟨⟨secureReader, secureWriter, _, hsecure, hnothing.timely, hreceive, rfl, hname, hwidth.symm,
    hheight.symm, hsend⟩, hposition, hnothing.written, hnothing.flushed⟩

/-! ## Every kind of message -/

/-- What arrives has the effect of what was sent, for every kind of message that carries data. -/
structure Agreement (serde : SerdeJson) (c : Client) (now : Instant) (config : ServerConfig) :
    Prop where
  keyEvent : ∀ code value, Sendable serde (Message.keyEvent code value) →
    Arrives serde (Message.keyEvent code value) fun m =>
      c.applyMessage m now = ({ c with injector := c.injector.injectKey code value }, 0, 0)
  mouseMove : ∀ x y dx dy, Sendable serde (Message.mouseMove x y dx dy) →
    Arrives serde (Message.mouseMove x y dx dy) fun m => c.applyMessage m now = (c, dx, dy)
  mouseButton : ∀ button value, Sendable serde (Message.mouseButton button value) →
    Arrives serde (Message.mouseButton button value) fun m =>
      c.applyMessage m now = ({ c with injector := c.injector.injectMouseButton button value }, 0, 0)
  mouseScroll : ∀ dx dy, Sendable serde (Message.mouseScroll dx dy) →
    Arrives serde (Message.mouseScroll dx dy) fun m =>
      c.applyMessage m now = ({ c with injector := c.injector.injectMouseScroll dx dy }, 0, 0)
  switchToClient : ∀ entryX entryY, Sendable serde (Message.switchToClient entryX entryY) →
    Arrives serde (Message.switchToClient entryX entryY) fun m =>
      c.applyMessage m now =
        ({ c with
            state :=
              { c.state with
                active := true
                switchTime := now
                edgePushing := false
                mouseX := entryX
                mouseY := entryY } }, 0, 0)
  clipboardData : ∀ content, Sendable serde (Message.clipboardData content) →
    Arrives serde (Message.clipboardData content) fun m =>
      c.applyMessage m now = ({ c with clipboard := c.clipboard.set content }, 0, 0)
  /-- A connection that says this first, with a configured name, is admitted if nothing fails; and
  whoever says this first and is admitted is registered with this screen under this name. -/
  handshake : ∀ name width height, Sendable serde (Message.handshake name width height) →
    Arrives serde (Message.handshake name width height) fun m =>
      ∀ a : Arrival, a.FirstMessage serde m →
        (∀ position, config.clients.lookup name = some position →
          a.Unhindered serde config position →
          ∃ adm, a.handleNewConnection serde config = .ok adm ∧ adm.position = position) ∧
        ∀ adm, a.handleNewConnection serde config = .ok adm →
          ∀ (env : Env ConnId) (s : Server ConnId) (ch : Recorder ConnId) (conn : ConnId),
            (s.handle env ch (Listener.newClient conn adm).event).1.clients.lookup name =
              some ⟨adm.position, width, height, conn⟩
  handshakeAck : ∀ position width height, Sendable serde (Message.handshakeAck position width height) →
    Arrives serde (Message.handshakeAck position width height) fun m =>
      ∀ s : ClientState, s.acknowledged m =
        { s with
          position := ScreenPosition.fromStr position
          serverWidth := width
          serverHeight := height }
  /-- The name of a position is read as the position. -/
  position : ∀ p : ScreenPosition, ScreenPosition.fromStr p.asStr = some p

/-- Constructors and handlers agree across the wire: no default and no cast ever changes a value. -/
theorem constructors_meet_handlers (serde : SerdeJson) (c : Client) (now : Instant)
    (config : ServerConfig) (hactive : c.state.active = true)
    (hsharing : c.state.config.clipboardSharing = true) : Agreement serde c now config where
  keyEvent code value h := h.arrives (c.applyMessage_keyEvent now hactive code value)
  mouseMove x y dx dy h := h.arrives (c.applyMessage_mouseMove now hactive x y dx dy)
  mouseButton button value h := h.arrives (c.applyMessage_mouseButton now hactive button value)
  mouseScroll dx dy h := h.arrives (c.applyMessage_mouseScroll now hactive dx dy)
  switchToClient entryX entryY h := h.arrives (c.applyMessage_switchToClient now entryX entryY)
  clipboardData content h := h.arrives (Client.applyMessage_clipboardData hsharing content now)
  handshake name width height h := by
    apply h.arrives
    intro a hfirst
    refine ⟨fun position => admits_of_handshake hfirst, ?_⟩
    intro adm hadmits env s ch conn
    obtain ⟨hname, hwidth, hheight⟩ := admitted_of_handshake hfirst hadmits
    simp only [Listener.newClient, Server.handle, hname, hwidth, hheight, AList.lookup_insert]
  handshakeAck position width height h :=
    h.arrives fun s => acknowledged_handshakeAck s position width height
  position := fromStr_asStr

/-- A key event with the largest code and the smallest value. -/
def extremeKey : Message := Message.keyEvent 65535 (-2147483648)

example : extremeKey.payload.text = "\x7b\"code\":65535,\"value\":-2147483648\x7d".toUTF8.toList := by
  decide +kernel

/-- `serde_json` on that key event and on the greetings of the laptop. -/
def keySerde : SerdeJson :=
  .ofValues [Listener.laptopHello.payload, (Message.handshakeAck "left" 640 480).payload,
    extremeKey.payload]

/-- The laptop that was just given control. -/
def heldLaptop : Client := (Listener.laptopPeer.applyMessage (Message.switchToClient 795 240) 0).1

/-- The laptop's hello is its first message. -/
theorem firstMessage_hello : Listener.laptopArrival.FirstMessage keySerde Listener.laptopHello := by
  have hserde : keySerde.fromSlice Listener.helloText = .ok Listener.laptopHello.payload :=
    Listener.fromSlice_hello (by decide) List.mem_cons_self
  obtain ⟨reader, hreceive⟩ := Listener.receive_hello hserde
  exact ⟨_, _, reader, rfl, hreceive⟩

/-- Nothing fails on its connection. -/
theorem unhindered_laptop : Listener.laptopArrival.Unhindered keySerde Server.leftConfig .left := by
  refine ⟨rfl, ?_, rfl, rfl⟩
  intro secureReader secureWriter hsecure
  cases hsecure
  obtain ⟨w, _, hsend, _⟩ := sendAll_pending keySerde 0 [Message.handshakeAck "left" 640 480]
    inOrder_taggedSession
  obtain ⟨writer, hack, _⟩ := bind_eq_ok.mp hsend
  exact ⟨writer, hack⟩

/-- The key event is injected, and the laptop is admitted and registered. -/
theorem constructors_meet_handlers_laptop :
    (Arrives keySerde extremeKey fun m =>
      heldLaptop.applyMessage m 1 =
        ({ heldLaptop with injector := heldLaptop.injector.injectKey 65535 (-2147483648) }, 0, 0)) ∧
    ∃ adm, Listener.laptopArrival.handleNewConnection keySerde Server.leftConfig = .ok adm ∧
      ((Server.new Server.leftConfig ClipboardManager.new 0).handle
          ⟨0, HashOrder.entries ConnId⟩ (⟨fun _ => .ok, []⟩ : Recorder ConnId)
          (Listener.newClient 7 adm).event).1.clients.lookup "laptop" =
        some ⟨.left, 800, 600, 7⟩ := by
  have hround : ∀ v ∈ [Listener.laptopHello.payload, (Message.handshakeAck "left" 640 480).payload,
      extremeKey.payload], keySerde.RoundTrips v :=
    fun v hv => SerdeJson.ofValues_roundTrips (by decide) hv
  have hhello : Sendable keySerde (Message.handshake "laptop" 800 600) :=
    ⟨hround _ List.mem_cons_self, by decide⟩
  have hagree := constructors_meet_handlers keySerde heldLaptop 1 Server.leftConfig rfl rfl
  refine ⟨hagree.keyEvent 65535 (-2147483648) ⟨hround _ (by simp [extremeKey]), by decide⟩, ?_⟩
  obtain ⟨received, hdecode, hregisters⟩ := hagree.handshake "laptop" 800 600 hhello
  -- what arrives is the hello, and it is the first message of the connection
  rw [Message.decode_encode hhello.1 hhello.2] at hdecode
  cases hdecode
  obtain ⟨hadmitted, hregistered⟩ := hregisters Listener.laptopArrival firstMessage_hello
  obtain ⟨adm, hadm, hposition⟩ := hadmitted .left rfl unhindered_laptop
  refine ⟨adm, hadm, ?_⟩
  rw [hregistered adm hadm, hposition]

end Bluecross
