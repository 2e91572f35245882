/-
# Bluecross.Handshake — how a connection comes to be encrypted, acknowledged and ready.

Both sides of the secure handshake exchange one Noise message in each direction, each behind a `u16`
length: the client's under the pre-shared key first, then the server's answer. What `snow` does with
the messages is a parameter (`Snow`); what the program relies on is said where it is needed. The write
half of the socket may break after any number of bytes.

On top of it the client sends its hello and waits for the ack (`Dial.establish`), and the server runs
the handler of `Admission`. The two sides meet in a fixed point: each receives exactly what the other
wrote. `honest_client_connects` follows such an exchange from the first byte to the messages behind the
ack; `nothing_without_key` says what a peer without the key gets, whatever it sends.
-/
import Bluecross.ConfigLoading
import Bluecross.FieldAgreement

namespace Bluecross

open ChunkReader (content)

/-! ## The library -/

/-- `snow`'s handshake states `η` and its calls, with `ε` for the ephemeral keys it draws, and
`sha2`. -/
structure Snow (η ε : Type) where
  sha256 : List UInt8 → List UInt8
  buildInitiator : List UInt8 → ε → Except Error η
  buildResponder : List UInt8 → ε → Except Error η
  writeMessage : η → List UInt8 → Except Error (List UInt8 × η)
  readMessage : η → List UInt8 → Except Error (List UInt8 × η)
  intoTransportMode : η → Except Error TransportState
  /-- A message is written into a buffer of `MAX_NOISE_MSG` bytes. -/
  write_length {h h' : η} {p m : List UInt8} :
    writeMessage h p = .ok (m, h') → m.length ≤ MAX_NOISE_MSG

/-! ## The socket's write half -/

/-- The socket's write half, with what was written to it. -/
structure WriteHalf where
  written : List UInt8
  /-- How many more bytes are taken before the connection breaks, and the error then. -/
  breaks : Option (Nat × Error)

/-- `write_all`; the flush of a socket does nothing. -/
def WriteHalf.writeAll (w : WriteHalf) (data : List UInt8) : Except Error Unit × WriteHalf :=
  match w.breaks with
  | none => (.ok (), { w with written := w.written ++ data })
  | some (n, e) =>
      if data.length ≤ n then
        (.ok (), { written := w.written ++ data, breaks := some (n - data.length, e) })
      else (.error e, { written := w.written ++ data.take n, breaks := some (0, e) })

/-- `write_hs`: the length, then the message. -/
def writeHs (w : WriteHalf) (data : List UInt8) : Except Error Unit × WriteHalf :=
  match w.writeAll (u16ToBeBytes (UInt16.ofNat data.length)) with
  | (.error e, w) => (.error e, w)
  | (.ok (), w) => w.writeAll data

/-- `read_hs`: the length, then as many bytes as it says. -/
def readHs (r : Socket) : Except Error (List UInt8) × Socket :=
  match r.readExact 2 with
  | (.unexpectedEof, r) => (.error "early eof", r)
  | (.failed e, r) => (.error e, r)
  | (.filled len, r) =>
      match r.readExact (u16FromBeBytes len) with
      | (.unexpectedEof, r) => (.error "early eof", r)
      | (.failed e, r) => (.error e, r)
      | (.filled buf, r) => (.ok buf, r)

/-! ## The two sides -/

/-- The reader and the writer of an encrypted connection. -/
abbrev Channel := SecureReader × SecureWriter

namespace Snow

variable {η ε : Type} (snow : Snow η ε)

/-- Derive the Noise key from the passphrase. -/
def derivePsk (psk : String) : List UInt8 :=
  snow.sha256 ("bluecross-noise-psk-v1".toUTF8.toList ++ psk.toUTF8.toList)

/-- The end of both handshakes: the session, under both of its counters. -/
def channel (hs : η) (r : Socket) : Except Error Channel :=
  (snow.intoTransportMode hs).map fun session => (⟨r, session, 0⟩, ⟨[], session, 0⟩)

/-- The client side of the handshake, with what it has written. -/
def clientHandshake (eph : ε) (r : Socket) (w : WriteHalf) (psk : String) :
    Except Error Channel × WriteHalf :=
  match snow.buildInitiator (snow.derivePsk psk) eph with
  | .error e => (.error e, w)
  | .ok hs =>
      -- -> psk, e
      match snow.writeMessage hs [] with
      | .error e => (.error e, w)
      | .ok (msg, hs) =>
          match writeHs w msg with
          | (.error e, w) => (.error e, w)
          | (.ok (), w) =>
              -- <- e, ee
              match readHs r with
              | (.error e, _) => (.error e, w)
              | (.ok msg, r) =>
                  match snow.readMessage hs msg with
                  | .error e => (.error e, w)
                  | .ok (_, hs) => (snow.channel hs r, w)

/-- The server side of the handshake, with what it has written. -/
def serverHandshake (eph : ε) (r : Socket) (w : WriteHalf) (psk : String) :
    Except Error Channel × WriteHalf :=
  match snow.buildResponder (snow.derivePsk psk) eph with
  | .error e => (.error e, w)
  | .ok hs =>
      -- -> psk, e
      match readHs r with
      | (.error e, _) => (.error e, w)
      | (.ok msg, r) =>
          match snow.readMessage hs msg with
          | .error e => (.error e, w)
          | .ok (_, hs) =>
              -- <- e, ee
              match snow.writeMessage hs [] with
              | .error e => (.error e, w)
              | .ok (msg, hs) =>
                  match writeHs w msg with
                  | (.error e, w) => (.error e, w)
                  | (.ok (), w) => (snow.channel hs r, w)

end Snow

/-- What happens to the client's connection while it is established. -/
structure Dial where
  secure : Except Error Channel
  /-- Whether the hello can be written to the socket. -/
  written : Except Error Unit
  flushed : Except Error Unit

/-- What the client goes on with. -/
structure Established where
  ack : Message
  reader : ProtocolReader SecureReader
  writer : ProtocolWriter

/-- The part of the client's `run_async` from the handshake to the ack. -/
def Dial.establish (serde : SerdeJson) (config : ClientConfig) (d : Dial) :
    Except Error Established := do
  let (secureReader, secureWriter) ← d.secure
  let reader := ProtocolReader.new secureReader
  let writer := ProtocolWriter.new secureWriter
  let writer ← writer.send serde
    (Message.handshake config.name config.screenWidth config.screenHeight)
  d.written
  d.flushed
  match reader.receive serde with
  | (.error e, _) => .error e
  | (.ok none, _) => .error "Connection closed during handshake"
  | (.ok (some msg), reader) =>
      if msg.msgType ≠ .handshakeAck then .error "Handshake failed"
      else return ⟨msg, reader, writer⟩

/-! ## An exchange -/

/-- All that one side has written, and what became of it. -/
structure Side (α : Type) where
  written : List UInt8
  result : Except Error α

section

variable {η ε : Type} (snow : Snow η ε) (serde : SerdeJson)

/-- A client over a connection that neither breaks nor stalls: it receives these bytes and then the
end, and once it is acknowledged it sends these messages. -/
def clientSide (config : ClientConfig) (eph : ε) (msgs : List Message) (incoming : List UInt8) :
    Side Established :=
  let handshake := snow.clientHandshake eph ⟨incoming, none⟩ ⟨[], none⟩ config.psk
  let opening := handshake.2.written
  match Dial.establish serde config ⟨handshake.1, .ok (), .ok ()⟩ with
  | .error e =>
      -- the hello is on its way as soon as there is a channel
      let hello := Message.handshake config.name config.screenWidth config.screenHeight
      match handshake.1.bind fun channel => (ProtocolWriter.new channel.2).send serde hello with
      | .error _ => ⟨opening, .error e⟩
      | .ok writer => ⟨opening ++ writer.writer.writer, .error e⟩
  | .ok up =>
      match up.writer.sendAll serde msgs with
      | .error e => ⟨opening ++ up.writer.writer.writer, .error e⟩
      | .ok writer => ⟨opening ++ writer.writer.writer, .ok up⟩

/-- The server's side of a connection that neither breaks nor stalls. -/
def serverSide (config : ServerConfig) (addr : String) (eph : ε) (msgs : List Message)
    (incoming : List UInt8) : Side Admitted :=
  let handshake := snow.serverHandshake eph ⟨incoming, none⟩ ⟨[], none⟩ config.psk
  let opening := handshake.2.written
  match Arrival.handleNewConnection serde config ⟨addr, some handshake.1, false, .ok (), .ok ()⟩ with
  | .error e => ⟨opening, .error e⟩
  | .ok adm =>
      match adm.writer.sendAll serde msgs with
      | .error e => ⟨opening ++ adm.writer.writer.writer, .error e⟩
      | .ok writer => ⟨opening ++ writer.writer.writer, .ok adm⟩

end

/-! ## Bytes of the handshake -/

/-- The message goes out in one frame, and the write half is as it was otherwise. -/
theorem writeHs_intact (written msg : List UInt8) :
    writeHs ⟨written, none⟩ msg = (.ok (), ⟨written ++ frame msg, none⟩) := by
  simp [writeHs, WriteHalf.writeAll, frame]

/-- A handshake message is read back out of its frame, and what follows stays for the reader of the
encrypted stream. -/
theorem readHs_frame {msg : List UInt8} (h : msg.length ≤ MAX_NOISE_MSG) (more : List UInt8)
    (failure : Option Error) :
    readHs ⟨frame msg ++ more, failure⟩ = (.ok msg, ⟨more, failure⟩) := by
  have hexact : (UInt16.ofNat msg.length).toNat = msg.length := by
    rw [UInt16.toNat_ofNat']
    exact Nat.mod_eq_of_lt (by rw [MAX_NOISE_MSG] at h; omega)
  have hlen : Socket.readExact ⟨frame msg ++ more, failure⟩ 2
      = (.filled (u16ToBeBytes (UInt16.ofNat msg.length)), ⟨msg ++ more, failure⟩) := by
    have hle : 2 ≤ (frame msg ++ more).length := by
      simp only [frame, List.length_append, length_u16ToBeBytes]
      omega
    simp only [Socket.readExact, hle, if_true]
    rfl
  have hbody : Socket.readExact ⟨msg ++ more, failure⟩ msg.length
      = (.filled msg, ⟨more, failure⟩) := by
    simp [Socket.readExact]
  simp only [readHs, hlen, u16FromBeBytes_toBeBytes, hexact, hbody]

/-! ## What `snow` is relied on for -/

namespace Snow

variable {η ε : Type} (snow : Snow η ε)

/-- One run of the handshake under this key: the client's message, the server's, and the sessions
both sides come to. -/
structure Agrees (key : List UInt8) (eph eph' : ε) (first second : List UInt8)
    (initiator responder : TransportState) : Prop where
  states : ∃ hi hi' hi'' hr hr' hr'' p p',
    snow.buildInitiator key eph = .ok hi ∧ snow.writeMessage hi [] = .ok (first, hi') ∧
    snow.buildResponder key eph' = .ok hr ∧ snow.readMessage hr first = .ok (p, hr') ∧
    snow.writeMessage hr' [] = .ok (second, hr'') ∧ snow.readMessage hi' second = .ok (p', hi'') ∧
    snow.intoTransportMode hi'' = .ok initiator ∧ snow.intoTransportMode hr'' = .ok responder
  up : InOrder initiator responder
  down : InOrder responder initiator

variable {snow}

/-- Whatever it receives, the client begins with its own message. -/
theorem clientHandshake_written {eph : ε} {hi hi' : η} {first : List UInt8} {psk : String}
    (hbuild : snow.buildInitiator (snow.derivePsk psk) eph = .ok hi)
    (hwrite : snow.writeMessage hi [] = .ok (first, hi')) (r : Socket) :
    (snow.clientHandshake eph r ⟨[], none⟩ psk).2.written = frame first := by
  unfold clientHandshake
  simp only [hbuild, hwrite, writeHs_intact, List.nil_append]
  split
  · rfl
  · split <;> rfl

variable {first second : List UInt8} {eph eph' : ε} {initiator responder : TransportState}
  {psk : String}

theorem Agrees.client (h : snow.Agrees (snow.derivePsk psk) eph eph' first second initiator responder)
    (more : List UInt8) :
    snow.clientHandshake eph ⟨frame second ++ more, none⟩ ⟨[], none⟩ psk
      = (.ok (⟨⟨more, none⟩, initiator, 0⟩, ⟨[], initiator, 0⟩), ⟨frame first, none⟩) := by
  obtain ⟨hi, hi', hi'', hr, hr', hr'', p, p', hbuild, hwrite, _, _, hanswer, hread, htransport, _⟩ :=
    h.states
  unfold clientHandshake
  simp only [hbuild, hwrite, writeHs_intact, readHs_frame (snow.write_length hanswer), hread, channel,
    htransport, List.nil_append]
  rfl

theorem Agrees.server (h : snow.Agrees (snow.derivePsk psk) eph eph' first second initiator responder)
    (more : List UInt8) :
    snow.serverHandshake eph' ⟨frame first ++ more, none⟩ ⟨[], none⟩ psk
      = (.ok (⟨⟨more, none⟩, responder, 0⟩, ⟨[], responder, 0⟩), ⟨frame second, none⟩) := by
  obtain ⟨hi, hi', hi'', hr, hr', hr'', p, p', _, hwrite, hbuild, hread, hanswer, _, _, htransport⟩ :=
    h.states
  unfold serverHandshake
  simp only [hbuild, readHs_frame (snow.write_length hwrite), hread, hanswer, writeHs_intact, channel,
    htransport, List.nil_append]
  rfl

end Snow

/-! ## The first message behind the handshake -/

/-- Frames in front of a socket put what they carry in front of its content. -/
theorem content_of_carries_append {receiver : TransportState} {n : Nat} {ps cs : List (List UInt8)}
    (h : Carries receiver n ps cs) (more : List UInt8) :
    (content (SecureReader.mk ⟨cs.flatMap frame ++ more, none⟩ receiver n)).1
      = ps.flatten
        ++ (content (SecureReader.mk ⟨more, none⟩ receiver (n + ps.length))).1 := by
  induction h with
  | nil n => simp
  | @cons n p c ps cs hc hp _ ih =>
      rw [List.flatMap_cons, List.append_assoc, content_of_chunk (readChunk_frame hc hp), ih,
        List.flatten_cons, List.append_assoc, List.length_cons]
      have hcount : n + 1 + ps.length = n + (ps.length + 1) := by omega
      rw [hcount]

/-- A reader takes the message at the front of its content. -/
theorem receive_front {serde : SerdeJson} {sr : SecureReader} {msg : Message} {rest : List UInt8}
    (hmsg : Sendable serde msg) (hcontent : (content sr).1 = msg.encode serde ++ rest) :
    ∃ r, (ProtocolReader.new sr).receive serde = (.ok (some msg), r) ∧ r.pending = rest ∧
      r.ending = (content sr).2 := by
  have hpending : (ProtocolReader.new sr).pending = msg.encode serde ++ rest := by
    rw [← hcontent]
    exact List.nil_append _
  have hdecode : Message.decode serde (ProtocolReader.new sr).pending
      = .ok (some (msg, (msg.encode serde).length)) := by
    have hone := Message.decode_encode hmsg.1 hmsg.2
    rw [hpending, Message.decode_append rest (by rw [hone]; simp), hone]
  obtain ⟨r, hreceive, hrest, hending⟩ := ProtocolReader.receive_item hdecode
  refine ⟨r, hreceive, ?_, hending⟩
  rw [hrest, hpending, List.drop_left]

/-- What it takes for the client to go on. -/
theorem establish_eq_ok {serde : SerdeJson} {config : ClientConfig} {d : Dial} {up : Established} :
    d.establish serde config = .ok up ↔
      ∃ secureReader secureWriter, d.secure = .ok (secureReader, secureWriter) ∧
        (ProtocolWriter.new secureWriter).send serde
          (Message.handshake config.name config.screenWidth config.screenHeight) = .ok up.writer ∧
        d.written = .ok () ∧ d.flushed = .ok () ∧
        (ProtocolReader.new secureReader).receive serde = (.ok (some up.ack), up.reader) ∧
        up.ack.msgType = .handshakeAck := by
  unfold Dial.establish
  constructor
  · intro h
    obtain ⟨⟨secureReader, secureWriter⟩, hsecure, h⟩ := bind_eq_ok.mp h
    obtain ⟨writer, hsend, h⟩ := bind_eq_ok.mp h
    obtain ⟨_, hwritten, h⟩ := bind_eq_ok.mp h
    obtain ⟨_, hflushed, h⟩ := bind_eq_ok.mp h
    split at h
    · cases h
    · cases h
    · rename_i msg reader hreceive
      split at h
      · cases h
      · rename_i htype
        cases h
        exact ⟨secureReader, secureWriter, hsecure, hsend, hwritten, hflushed, hreceive,
          not_not.mp htype⟩
  · rintro ⟨secureReader, secureWriter, hsecure, hsend, hwritten, hflushed, hreceive, htype⟩
    refine bind_eq_ok.mpr ⟨_, hsecure, bind_eq_ok.mpr ⟨_, hsend, bind_eq_ok.mpr ⟨_, hwritten,
      bind_eq_ok.mpr ⟨_, hflushed, ?_⟩⟩⟩⟩
    rw [hreceive]
    exact if_neg (not_not.mpr htype)

/-- A writer that goes on sending only adds to what it has written. -/
theorem sendAll_extends {serde : SerdeJson} (receiver : TransportState) {w w' : ProtocolWriter}
    {msgs : List Message} (hsession : InOrder w.writer.session receiver)
    (h : w.sendAll serde msgs = .ok w') : ∃ more, w'.writer.writer = w.writer.writer ++ more := by
  obtain ⟨w'', hsend, cs, _, hbytes, _⟩ := @sendAll_wrote serde receiver w msgs hsession
  rw [Except.ok.inj (h.symm.trans hsend)]
  exact ⟨_, hbytes⟩

/-- One message from a fresh writer: its frames, and the session goes on behind them. -/
theorem send_first {serde : SerdeJson} {sender receiver : TransportState} (msg : Message)
    (hsession : InOrder sender receiver) :
    ∃ w cs, (ProtocolWriter.new ⟨[], sender, 0⟩).send serde msg = .ok w ∧
      Carries receiver 0 (plaintextWrites serde [msg]) cs ∧ w.writer.writer = cs.flatMap frame ∧
      w.writer.session = sender := by
  obtain ⟨w, hsend, cs, hcarries, hbytes, _, hsame⟩ :=
    @sendAll_wrote serde receiver (ProtocolWriter.new ⟨[], sender, 0⟩) [msg] hsession
  obtain ⟨w', hone, hrest⟩ := bind_eq_ok.mp hsend
  cases hrest
  exact ⟨w, cs, hone, hcarries, by simpa [ProtocolWriter.new] using hbytes, hsame⟩

/-- The messages behind the first are sent, too, in further frames. -/
theorem send_rest {serde : SerdeJson} {sender receiver : TransportState} {msg : Message}
    (msgs : List Message) {w : ProtocolWriter} (hsession : InOrder sender receiver)
    (hfirst : (ProtocolWriter.new ⟨[], sender, 0⟩).send serde msg = .ok w)
    (hsame : w.writer.session = sender) :
    ∃ w' more, w.sendAll serde msgs = .ok w' ∧ w'.writer.writer = w.writer.writer ++ more := by
  obtain ⟨w', hall, _⟩ :=
    @sendAll_wrote serde receiver (ProtocolWriter.new ⟨[], sender, 0⟩) (msg :: msgs) hsession
  obtain ⟨w'', hone, hrest⟩ := bind_eq_ok.mp hall
  rw [← Except.ok.inj (hfirst.symm.trans hone)] at hrest
  obtain ⟨more, hmore⟩ := sendAll_extends receiver (by rw [hsame]; exact hsession) hrest
  exact ⟨w', more, hrest, hmore⟩

/-- What the receiver finds behind the first message of a connection, whatever follows it. -/
theorem receive_first {serde : SerdeJson} {receiver : TransportState} {msg : Message}
    {cs : List (List UInt8)} (hmsg : Sendable serde msg)
    (hcarries : Carries receiver 0 (plaintextWrites serde [msg]) cs) (more : List UInt8) :
    ∃ r, (ProtocolReader.new (SecureReader.mk ⟨cs.flatMap frame ++ more, none⟩ receiver 0)).receive
      serde = (.ok (some msg), r) := by
  have hcontent := content_of_carries_append hcarries more
  rw [flatten_plaintextWrites, List.flatMap_singleton] at hcontent
  obtain ⟨r, hreceive, _⟩ := receive_front hmsg hcontent
  exact ⟨r, hreceive⟩

/-- After the first message the reader delivers the others, and then the end. -/
theorem receive_rest {serde : SerdeJson} {sender receiver : TransportState} {msg : Message}
    {msgs : List Message} {w w' : ProtocolWriter} (hsession : InOrder sender receiver)
    (hmsg : Sendable serde msg) (hmsgs : ∀ m ∈ msgs, Sendable serde m)
    (hfirst : (ProtocolWriter.new ⟨[], sender, 0⟩).send serde msg = .ok w)
    (hrest : w.sendAll serde msgs = .ok w') {r : ProtocolReader SecureReader}
    (hreceive : (ProtocolReader.new (SecureReader.mk ⟨w'.writer.writer, none⟩ receiver 0)).receive
      serde = (.ok (some msg), r)) :
    r.receiveN serde (msgs.length + 1) = msgs.map (fun m => .ok (some m)) ++ [.ok none] := by
  have hall : (ProtocolWriter.new ⟨[], sender, 0⟩).sendAll serde (msg :: msgs) = .ok w' :=
    bind_eq_ok.mpr ⟨w, hfirst, hrest⟩
  obtain ⟨w'', _, hsend, _, _, hpending, hending⟩ :=
    sendAll_pending serde 0 (msg :: msgs) hsession
  rw [← Except.ok.inj (hall.symm.trans hsend)] at hpending hending
  have hdecode : Message.decode serde
      (ProtocolReader.new (SecureReader.mk ⟨w'.writer.writer, none⟩ receiver 0)).pending
        = .ok (some (msg, (msg.encode serde).length)) := by
    have hone := Message.decode_encode hmsg.1 hmsg.2
    rw [hpending, List.flatMap_cons, Message.decode_append _ (by rw [hone]; simp), hone]
  obtain ⟨r', hreceive', hpending', hending'⟩ := ProtocolReader.receive_item hdecode
  have hsame : r = r' := (Prod.mk.inj (hreceive.symm.trans hreceive')).2
  rw [hsame]
  apply receiveN_sent hmsgs
  · rw [hpending', hpending, List.flatMap_cons, List.drop_left]
  · rw [hending', hending]

/-! ## The exchange, byte by byte -/

section

variable {η ε : Type} {snow : Snow η ε} {serde : SerdeJson} {config : ClientConfig}
  {sconfig : ServerConfig} {addr : String} {eph eph' : ε} {first second : List UInt8}
  {initiator responder : TransportState} {msgs : List Message}

/-- The hello of a client. -/
def hello (config : ClientConfig) : Message :=
  Message.handshake config.name config.screenWidth config.screenHeight

/-- The ack of a server for a client at this position. -/
def ackFor (config : ServerConfig) (position : ScreenPosition) : Message :=
  Message.handshakeAck position.asStr config.screenWidth config.screenHeight

/-- Whatever it receives, the client's side begins with its handshake message. -/
theorem clientSide_opening (serde : SerdeJson) (msgs : List Message)
    (h : snow.Agrees (snow.derivePsk config.psk) eph eph' first second initiator responder)
    (incoming : List UInt8) :
    ∃ more, (clientSide snow serde config eph msgs incoming).written = frame first ++ more := by
  obtain ⟨hi, hi', _, _, _, _, _, _, hbuild, hwrite, _⟩ := h.states
  have hopening := Snow.clientHandshake_written hbuild hwrite ⟨incoming, none⟩
  unfold clientSide
  simp only [hopening]
  split
  · split
    · exact ⟨[], (List.append_nil _).symm⟩
    · exact ⟨_, rfl⟩
  · split <;> exact ⟨_, rfl⟩

/-- The server answers the client's handshake message, whatever else it receives. -/
theorem serverSide_opening (serde : SerdeJson) (addr : String) (msgs : List Message)
    (h : snow.Agrees (snow.derivePsk sconfig.psk) eph eph' first second initiator responder)
    (incoming : List UInt8) :
    ∃ more, (serverSide snow serde sconfig addr eph' msgs (frame first ++ incoming)).written
      = frame second ++ more := by
  unfold serverSide
  simp only [h.server incoming]
  split
  · exact ⟨[], (List.append_nil _).symm⟩
  · split <;> exact ⟨_, rfl⟩

/-- Once the server has answered, the hello follows, whatever the server sends next. -/
theorem clientSide_hello (msgs : List Message)
    (h : snow.Agrees (snow.derivePsk config.psk) eph eph' first second initiator responder)
    {w : ProtocolWriter}
    (hsend : (ProtocolWriter.new ⟨[], initiator, 0⟩).send serde (hello config) = .ok w)
    (hsession : w.writer.session = initiator) (incoming : List UInt8) :
    ∃ more, (clientSide snow serde config eph msgs (frame second ++ incoming)).written
      = frame first ++ (w.writer.writer ++ more) := by
  unfold clientSide
  simp only [h.client incoming]
  split
  · simp only [Except.bind, show (ProtocolWriter.new ⟨[], initiator, 0⟩).send serde
      (Message.handshake config.name config.screenWidth config.screenHeight) = .ok w from hsend]
    exact ⟨[], by rw [List.append_nil]⟩
  · rename_i up hup
    obtain ⟨_, _, hsecure, hsent, _⟩ := establish_eq_ok.mp hup
    cases hsecure
    have hwriter : up.writer = w := Except.ok.inj (hsent.symm.trans hsend)
    split
    · exact ⟨[], by rw [hwriter, List.append_nil]⟩
    · rename_i w' hall
      rw [hwriter] at hall
      obtain ⟨more, hmore⟩ := sendAll_extends responder (by rw [hsession]; exact h.up) hall
      exact ⟨more, by rw [hmore]⟩

/-- An acknowledged client has sent its hello and its messages. -/
theorem clientSide_established
    (h : snow.Agrees (snow.derivePsk config.psk) eph eph' first second initiator responder)
    {w w' : ProtocolWriter} {msg : Message} {r : ProtocolReader SecureReader} {incoming : List UInt8}
    (hsend : (ProtocolWriter.new ⟨[], initiator, 0⟩).send serde (hello config) = .ok w)
    (hall : w.sendAll serde msgs = .ok w')
    (hreceive : (ProtocolReader.new (SecureReader.mk ⟨incoming, none⟩ initiator 0)).receive serde
      = (.ok (some msg), r)) (htype : msg.msgType = .handshakeAck) :
    clientSide snow serde config eph msgs (frame second ++ incoming)
      = ⟨frame first ++ w'.writer.writer, .ok ⟨msg, r, w⟩⟩ := by
  have hup : Dial.establish serde config
      ⟨.ok (⟨⟨incoming, none⟩, initiator, 0⟩, ⟨[], initiator, 0⟩), .ok (), .ok ()⟩
        = .ok ⟨msg, r, w⟩ :=
    establish_eq_ok.mpr ⟨_, _, rfl, hsend, rfl, rfl, hreceive, htype⟩
  unfold clientSide
  simp only [h.client incoming, hup, hall]

/-- A server that receives a configured client's hello has acknowledged it and sent its messages. -/
theorem serverSide_admitted (addr : String)
    (h : snow.Agrees (snow.derivePsk sconfig.psk) eph eph' first second initiator responder)
    {w w' : ProtocolWriter} {position : ScreenPosition} {r : ProtocolReader SecureReader}
    {incoming : List UInt8}
    (hposition : sconfig.clients.lookup config.name = some position)
    (hsend : (ProtocolWriter.new ⟨[], responder, 0⟩).send serde (ackFor sconfig position) = .ok w)
    (hall : w.sendAll serde msgs = .ok w')
    (hreceive : (ProtocolReader.new (SecureReader.mk ⟨incoming, none⟩ responder 0)).receive serde
      = (.ok (some (hello config)), r)) :
    serverSide snow serde sconfig addr eph' msgs (frame first ++ incoming)
      = ⟨frame second ++ w'.writer.writer, .ok ⟨config.name, position, config.screenWidth,
          config.screenHeight, r, w⟩⟩ := by
  obtain ⟨hname, hwidth, hheight⟩ :=
    handshake_fields config.name config.screenWidth config.screenHeight
  have hadm : Arrival.handleNewConnection serde sconfig
      ⟨addr, some (.ok (⟨⟨incoming, none⟩, responder, 0⟩, ⟨[], responder, 0⟩)), false, .ok (), .ok ()⟩
        = .ok ⟨config.name, position, config.screenWidth, config.screenHeight, r, w⟩ := by
    apply Arrival.handleNewConnection_eq_ok.mpr
    exact ⟨⟨_, _, hello config, rfl, rfl, hreceive, rfl, hname, hwidth.symm, hheight.symm, hsend⟩,
      hposition, rfl, rfl⟩
  unfold serverSide
  simp only [h.server incoming, hadm, hall]

/-- Two honest sides have an exchange. -/
theorem exists_exchange (addr : String) (msgs msgs' : List Message) {position : ScreenPosition}
    (hkey : sconfig.psk = config.psk)
    (hagrees : snow.Agrees (snow.derivePsk config.psk) eph eph' first second initiator responder)
    (hposition : sconfig.clients.lookup config.name = some position)
    (hhello : Sendable serde (hello config)) (hack : Sendable serde (ackFor sconfig position)) :
    ∃ toServer toClient : List UInt8,
      (clientSide snow serde config eph msgs toClient).written = toServer ∧
      (serverSide snow serde sconfig addr eph' msgs' toServer).written = toClient := by
  obtain ⟨w, cs, hsend, hcarries, hbytes, hsame⟩ :=
    @send_first serde initiator responder (hello config) hagrees.up
  obtain ⟨v, ds, hsend', hcarries', hbytes', hsame'⟩ :=
    @send_first serde responder initiator (ackFor sconfig position) hagrees.down
  obtain ⟨w', more, hall, hmore⟩ := send_rest msgs hagrees.up hsend hsame
  obtain ⟨v', more', hall', hmore'⟩ := send_rest msgs' hagrees.down hsend' hsame'
  obtain ⟨r, hreceive⟩ := receive_first hhello hcarries more
  obtain ⟨r', hreceive'⟩ := receive_first hack hcarries' more'
  rw [← hbytes, ← hmore] at hreceive
  rw [← hbytes', ← hmore'] at hreceive'
  refine ⟨frame first ++ w'.writer.writer, frame second ++ v'.writer.writer, ?_, ?_⟩
  · rw [clientSide_established hagrees hsend hall hreceive' rfl]
  · rw [serverSide_admitted addr (by rw [hkey]; exact hagrees) hposition hsend' hall' hreceive]

/-- An honest client gets in. Where both sides have the same passphrase, the configuration names the
client, and each side receives exactly what the other wrote: the server admits the client under its
name, position and screen, the client takes position and screen of the server from the ack, and every
message that either side sends from then on is received by the other, in order and once. -/
theorem honest_client_connects {msgs' : List Message} {position : ScreenPosition}
    (hkey : sconfig.psk = config.psk)
    (hagrees : snow.Agrees (snow.derivePsk config.psk) eph eph' first second initiator responder)
    (hposition : sconfig.clients.lookup config.name = some position)
    (hhello : Sendable serde (hello config)) (hack : Sendable serde (ackFor sconfig position))
    (hmsgs : ∀ m ∈ msgs, Sendable serde m) (hmsgs' : ∀ m ∈ msgs', Sendable serde m)
    {toServer toClient : List UInt8}
    (hup : (clientSide snow serde config eph msgs toClient).written = toServer)
    (hdown : (serverSide snow serde sconfig addr eph' msgs' toServer).written = toClient)
    (now₁ now₂ : Instant) :
    ∃ adm up, (serverSide snow serde sconfig addr eph' msgs' toServer).result = .ok adm ∧
      (clientSide snow serde config eph msgs toClient).result = .ok up ∧
      adm.name = config.name ∧ adm.position = position ∧ adm.screenWidth = config.screenWidth ∧
      adm.screenHeight = config.screenHeight ∧
      (ClientState.new config now₁ now₂).acknowledged up.ack
        = { ClientState.new config now₁ now₂ with
            position := some position
            serverWidth := sconfig.screenWidth
            serverHeight := sconfig.screenHeight } ∧
      adm.reader.receiveN serde (msgs.length + 1)
        = msgs.map (fun m => .ok (some m)) ++ [.ok none] ∧
      up.reader.receiveN serde (msgs'.length + 1)
        = msgs'.map (fun m => .ok (some m)) ++ [.ok none] := by
  have hagrees' : snow.Agrees (snow.derivePsk sconfig.psk) eph eph' first second initiator responder := by
    rw [hkey]
    exact hagrees
  obtain ⟨w, cs, hsend, hcarries, hbytes, hsame⟩ :=
    @send_first serde initiator responder (hello config) hagrees.up
  obtain ⟨v, ds, hsend', hcarries', hbytes', hsame'⟩ :=
    @send_first serde responder initiator (ackFor sconfig position) hagrees.down
  obtain ⟨w', more, hall, hmore⟩ := send_rest msgs hagrees.up hsend hsame
  obtain ⟨v', more', hall', hmore'⟩ := send_rest msgs' hagrees.down hsend' hsame'
  -- the handshake messages, then the hello, then the ack: each is answered once it has arrived
  obtain ⟨x, hx⟩ := clientSide_opening serde msgs hagrees toClient
  have hserver : ∃ y, toClient = frame second ++ y := by
    obtain ⟨y, hy⟩ := serverSide_opening serde addr msgs' hagrees' x
    refine ⟨y, ?_⟩
    rw [← hdown, ← hup, hx, hy]
  obtain ⟨y, hy⟩ := hserver
  have hclient : ∃ z, toServer = frame first ++ (cs.flatMap frame ++ z) := by
    obtain ⟨z, hz⟩ := clientSide_hello msgs hagrees hsend hsame y
    refine ⟨z, ?_⟩
    rw [← hup, hy, hz, hbytes]
  obtain ⟨z, hz⟩ := hclient
  obtain ⟨r, hreceive⟩ := receive_first hhello hcarries z
  have hadmitted := serverSide_admitted addr hagrees' hposition hsend' hall' hreceive
  rw [← hz] at hadmitted
  have htoClient : toClient = frame second ++ v'.writer.writer := by
    rw [← hdown, hadmitted]
  obtain ⟨r', hreceive'⟩ := receive_first hack hcarries' more'
  rw [← hbytes', ← hmore'] at hreceive'
  have hestablished := clientSide_established hagrees hsend hall hreceive' rfl
  rw [← htoClient] at hestablished
  have htoServer : toServer = frame first ++ w'.writer.writer := by
    rw [← hup, hestablished]
  have hincoming : cs.flatMap frame ++ z = w'.writer.writer :=
    List.append_cancel_left (hz.symm.trans htoServer)
  rw [hincoming] at hreceive
  refine ⟨_, _, congrArg Side.result hadmitted, congrArg Side.result hestablished, rfl, rfl, rfl, rfl,
    ?_, ?_, ?_⟩
  · show (ClientState.new config now₁ now₂).acknowledged (Message.handshakeAck _ _ _) = _
    rw [acknowledged_handshakeAck, fromStr_asStr]
  · exact receive_rest hagrees.up hhello hmsgs hsend hall hreceive
  · exact receive_rest hagrees.down hack hmsgs' hsend' hall' hreceive'

end

/-- A `snow` whose messages are an ephemeral key of zeros and a tag that only the key makes. -/
def keyedSnow : Snow (List UInt8) Unit where
  sha256 bytes := bytes.drop 22
  buildInitiator key _ := .ok key
  buildResponder key _ := .ok key
  writeMessage key _ :=
    if key.length ≤ 32 then .ok (List.replicate 32 0 ++ key, key) else .error "input error"
  readMessage key msg :=
    if msg = List.replicate 32 0 ++ key then .ok ([], key) else .error "decrypt error"
  intoTransportMode _ := .ok taggedSession
  write_length {h h' p m} hwrite := by
    split at hwrite
    · rename_i hlen
      cases hwrite
      rw [List.length_append, List.length_replicate, MAX_NOISE_MSG]
      omega
    · cases hwrite

/-- The passphrase of the house. -/
def houseKey : String := "correct-horse-battery-staple-001"

/-- The laptop, with that passphrase. -/
def keyedLaptop : ClientConfig := { laptop with psk := houseKey }

/-- A server that expects the laptop on its left. -/
def keyedServer : ServerConfig := { Server.leftConfig with psk := houseKey }

/-- What the file says to the server. -/
def keyedServerSection : ServerSection where
  screenWidth := some 640
  screenHeight := some 480
  psk := some houseKey
  clients := some (AList.singleton "laptop" "left")

/-- The passphrase was copied together with the end of its line. -/
def keyedLaptopSection : ClientSection where
  screenWidth := some 800
  screenHeight := some 600
  name := some "laptop"
  psk := some (houseKey ++ "\n")

/-- One file, copied to both machines. -/
def keyedFile : LoadEnv :=
  { houseFile none with
    file := some (.ok ⟨some keyedServerSection, some keyedLaptopSection⟩) }

theorem accepts_keyed : Accepts keyedFile (.ofSection keyedServerSection) keyedServer ∧
    AcceptsClient keyedFile (.ofSection keyedLaptopSection) keyedLaptop := by
  have hpsk : trim houseKey = houseKey := by decide +kernel
  have hline : trim (houseKey ++ "\n") = houseKey := by decide +kernel
  have hlong : MIN_PSK_LEN ≤ houseKey.utf8ByteSize := by decide
  exact ⟨⟨rfl, rfl, rfl, rfl, rfl, hpsk.symm, hlong, rfl⟩,
    ⟨rfl, rfl, rfl, rfl, rfl, hline.symm, hlong⟩⟩

/-- The two sections fit. -/
theorem fit_keyed : Fit (.ofSection keyedServerSection) (.ofSection keyedLaptopSection) .left := by
  have hpsk : trim houseKey = trim (houseKey ++ "\n") := by decide +kernel
  exact ⟨hpsk, rfl⟩

/-- The laptop reports that it lives. -/
def fromLaptop : List Message := [Message.heartbeat]

/-- The laptop is given control, and a key goes down and up. -/
def toLaptop : List Message :=
  [Message.switchToClient 700 300, Message.keyEvent 30 1, Message.keyEvent 30 0]

/-- What the two sides write. -/
def keyedMessages : List Message :=
  [hello keyedLaptop, ackFor keyedServer .left] ++ fromLaptop ++ toLaptop

/-- `serde_json` on it. -/
def keyedSerde : SerdeJson := .ofValues (keyedMessages.map Message.payload)

/-- Two ends with one key agree. -/
theorem agrees_keyed {key : List UInt8} (h : key.length ≤ 32) :
    keyedSnow.Agrees key () () (List.replicate 32 0 ++ key) (List.replicate 32 0 ++ key)
      taggedSession taggedSession := by
  refine ⟨⟨key, key, key, key, key, key, [], [], rfl, ?_, rfl, ?_, ?_, ?_, rfl, rfl⟩,
    inOrder_taggedSession, inOrder_taggedSession⟩
  · exact if_pos h
  · exact if_pos rfl
  · exact if_pos h
  · exact if_pos rfl

theorem sendable_keyed : ∀ msg ∈ keyedMessages, Sendable keyedSerde msg :=
  sendable_ofValues (by decide) (by decide)

/-- Both programs read their file, and the laptop gets in. Its heartbeat is received by the server, and
what the server writes by it. -/
theorem honest_client_connects_laptop :
    loadServerConfig keyedFile = .ok keyedServer ∧ loadClientConfig keyedFile = .ok keyedLaptop ∧
    ∃ toServer toClient : List UInt8,
      (clientSide keyedSnow keyedSerde keyedLaptop () fromLaptop toClient).written = toServer ∧
      (serverSide keyedSnow keyedSerde keyedServer "10.0.0.2:40000" () toLaptop toServer).written
        = toClient ∧
      ∃ adm up,
        (serverSide keyedSnow keyedSerde keyedServer "10.0.0.2:40000" () toLaptop toServer).result
          = .ok adm ∧
        (clientSide keyedSnow keyedSerde keyedLaptop () fromLaptop toClient).result = .ok up ∧
        adm.name = "laptop" ∧ adm.position = .left ∧
        ((ClientState.new keyedLaptop 0 0).acknowledged up.ack).position = some .left ∧
        adm.reader.receiveN keyedSerde 2 = [.ok (some Message.heartbeat), .ok none] ∧
        up.reader.receiveN keyedSerde 4 = [.ok (some (Message.switchToClient 700 300)),
          .ok (some (Message.keyEvent 30 1)), .ok (some (Message.keyEvent 30 0)), .ok none] := by
  have hlength : (keyedSnow.derivePsk houseKey).length ≤ 32 := by decide +kernel
  have hagrees := agrees_keyed hlength
  obtain ⟨hserver, hclient⟩ := accepts_keyed
  obtain ⟨hkey, hposition⟩ := fit_keyed.loaded hserver hclient
  have hhello := sendable_keyed (hello keyedLaptop) (by simp [keyedMessages])
  have hack := sendable_keyed (ackFor keyedServer .left) (by simp [keyedMessages])
  have hup : ∀ msg ∈ fromLaptop, Sendable keyedSerde msg :=
    fun msg hmsg => sendable_keyed msg (by simp [keyedMessages, hmsg])
  have hdown : ∀ msg ∈ toLaptop, Sendable keyedSerde msg :=
    fun msg hmsg => sendable_keyed msg (by simp [keyedMessages, hmsg])
  obtain ⟨toServer, toClient, hwritten, hanswered⟩ := exists_exchange "10.0.0.2:40000" fromLaptop
    toLaptop hkey hagrees hposition hhello hack
  obtain ⟨adm, up, hadm, hestablished, hname, hat, _, _, hacknowledged, hheard, htold⟩ :=
    honest_client_connects hkey hagrees hposition hhello hack hup hdown hwritten hanswered 0 0
  refine ⟨loadServerConfig_eq_ok.mpr ⟨_, rfl, hserver⟩, loadClientConfig_eq_ok.mpr ⟨_, rfl, hclient⟩, ?_⟩
  exact ⟨toServer, toClient, hwritten, hanswered, adm, up, hadm, hestablished, hname, hat,
    by rw [hacknowledged], hheard, htold⟩

/-! ## Without the key -/

/-- No message at the front of the socket is accepted by a responder with this key. -/
def Snow.Refused {η ε : Type} (snow : Snow η ε) (key : List UInt8) (eph : ε) (r : Socket) : Prop :=
  ∀ h msg r', snow.buildResponder key eph = .ok h → readHs r = (.ok msg, r') →
    ∀ out, snow.readMessage h msg ≠ .ok out

section

variable {η ε : Type} {snow : Snow η ε} {eph : ε} {r : Socket} {psk : String}

/-- The server writes behind the first accepted message, and gives a channel behind that. -/
theorem serverHandshake_refused (h : snow.Refused (snow.derivePsk psk) eph r) (w : WriteHalf) :
    ∃ e, snow.serverHandshake eph r w psk = (.error e, w) := by
  unfold Snow.serverHandshake
  split
  · exact ⟨_, rfl⟩
  · rename_i hs hbuild
    split
    · exact ⟨_, rfl⟩
    · rename_i msg r' hread
      split
      · exact ⟨_, rfl⟩
      · rename_i out _ haccepted
        exact absurd haccepted (h hs msg r' hbuild hread _)

/-- A client that is sent nothing gives up. -/
theorem clientSide_unanswered {config : ClientConfig} {hi hi' : η} {first : List UInt8}
    (hbuild : snow.buildInitiator (snow.derivePsk config.psk) eph = .ok hi)
    (hwrite : snow.writeMessage hi [] = .ok (first, hi')) (serde : SerdeJson) (msgs : List Message) :
    clientSide snow serde config eph msgs [] = ⟨frame first, .error "early eof"⟩ := by
  have hread : readHs ⟨[], none⟩ = (.error "early eof", ⟨[], none⟩) := rfl
  unfold clientSide Snow.clientHandshake
  simp only [hbuild, hwrite, writeHs_intact, hread, List.nil_append]
  rfl

/-- A peer without the key gets nothing, whatever bytes it sends and wherever its connection breaks:
the server does not write a byte to it, and however its handler goes on, no connection enters the
system. A client in its place that receives what the server wrote ends with an error. -/
theorem nothing_without_key (serde : SerdeJson) (sconfig : ServerConfig)
    (h : snow.Refused (snow.derivePsk sconfig.psk) eph r) (w : WriteHalf) :
    (snow.serverHandshake eph r w sconfig.psk).2 = w ∧
    (∀ a : Arrival, a.secure = none ∨ a.secure = some (snow.serverHandshake eph r w sconfig.psk).1 →
      ∀ (s : System) (c : ConnId) (peer : Client), s.server.config = sconfig →
        Listener.enter serde s c a peer = s) ∧
    ∀ (config : ClientConfig) (eph' : ε) (hi hi' : η) (first : List UInt8) (msgs : List Message),
      snow.buildInitiator (snow.derivePsk config.psk) eph' = .ok hi →
      snow.writeMessage hi [] = .ok (first, hi') →
      (clientSide snow serde config eph' msgs
        (snow.serverHandshake eph r ⟨[], none⟩ sconfig.psk).2.written).result
          = .error "early eof" := by
  obtain ⟨e, hrefused⟩ := serverHandshake_refused h w
  refine ⟨by rw [hrefused], ?_, ?_⟩
  · intro a ha s c peer hconfig
    have hfailed : ∃ e', a.secureChannel = .error e' := by
      unfold Arrival.secureChannel
      rcases ha with ha | ha
      · rw [ha]
        exact ⟨_, rfl⟩
      · rw [ha, hrefused]
        exact ⟨_, rfl⟩
    obtain ⟨e', hfailed⟩ := hfailed
    unfold Listener.enter Arrival.handleNewConnection
    rw [hfailed]
    rfl
  · intro config eph' hi hi' first msgs hbuild hwrite
    obtain ⟨e', hsilent⟩ := serverHandshake_refused h ⟨[], none⟩
    rw [hsilent]
    exact congrArg Side.result (clientSide_unanswered hbuild hwrite serde msgs)

end

/-- A client with another key sends its handshake message to the house's server. -/
theorem nothing_without_key_stranger :
    (keyedSnow.serverHandshake ()
      ⟨frame (List.replicate 32 0 ++ keyedSnow.derivePsk "totally-different-preshared-key0"), none⟩
      ⟨[], none⟩ houseKey).2.written = [] := by
  have hlength : (List.replicate 32 0
      ++ keyedSnow.derivePsk "totally-different-preshared-key0").length ≤ MAX_NOISE_MSG := by
    decide +kernel
  have hread := readHs_frame hlength [] none
  rw [List.append_nil] at hread
  have hrefused : keyedSnow.Refused (keyedSnow.derivePsk keyedServer.psk) ()
      ⟨frame (List.replicate 32 0 ++ keyedSnow.derivePsk "totally-different-preshared-key0"),
        none⟩ := by
    intro h msg r' hbuild hmsg out
    cases hbuild
    rw [hread] at hmsg
    cases hmsg
    have hother : List.replicate 32 0 ++ keyedSnow.derivePsk "totally-different-preshared-key0"
        ≠ List.replicate 32 0 ++ keyedSnow.derivePsk keyedServer.psk := by
      decide +kernel
    have hfailed : keyedSnow.readMessage (keyedSnow.derivePsk keyedServer.psk)
        (List.replicate 32 0 ++ keyedSnow.derivePsk "totally-different-preshared-key0")
          = .error "decrypt error" := if_neg hother
    rw [hfailed]
    simp
  rw [show houseKey = keyedServer.psk from rfl,
    (nothing_without_key keyedSerde keyedServer hrefused ⟨[], none⟩).1]

end Bluecross
