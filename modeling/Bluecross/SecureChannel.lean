/-
# Bluecross.SecureChannel — one direction of a connection, byte by byte, is a queue of messages.

A message on its way is first a list of chunks that `write_all` has still to encrypt, then frames in a
buffered writer, then bytes of the network in pieces of any size, then bytes that have arrived and that
`read_exact` takes in pieces of any size, then plaintext in the buffer of the `ProtocolReader`. All of
this goes on at once: the writer may be in the middle of a message and the reader in the middle of a
frame. The connection may break at every byte.

`SecureChannel.Holds ch q x` says which messages are in there: all of `q`, and of `x` (the message that
is being written, or was when the writer gave up) only a part. What a step does to them is what it does
to a queue (`Holds.next`, `Holds.send`, `Holds.writes`), and so is what whole runs do
(`delivered_in_order`).
-/
import Bluecross.Wire
import Bluecross.Lib.Settling

namespace Bluecross

open Lib (LTS chunks flatten_chunks mem_chunks StreamDecoder)

/-! ## The channel -/

/-- Where the calls of `receive` are. -/
inductive Receiving where
  /-- None is under way. -/
  | waiting
  /-- In `read_exact` of a length, with what it has so far. -/
  | length (got : List UInt8)
  /-- In `read_exact` of a ciphertext of `n` bytes. -/
  | ciphertext (n : Nat) (got : List UInt8)
  /-- The last one gave `Ok(None)` or an error. -/
  | ended (result : Except Error Unit)

/-- One direction of a connection, from the writer's buffer to the reader's. -/
structure SecureChannel where
  /-- The bytes in the buffered writer, and the sending session. -/
  writer : SecureWriter
  /-- The chunks that `write_all` has still to encrypt. -/
  pending : List (List UInt8)
  /-- The bytes that have left and not arrived. -/
  wire : List UInt8
  /-- The bytes that have arrived. -/
  socket : List UInt8
  /-- How the stream ends, once nothing more gets through. -/
  broken : Option (Option Error)
  /-- The receiving session. -/
  session : TransportState
  nonce : Nat
  receiving : Receiving
  /-- The plaintext in the buffer of the `ProtocolReader`. -/
  buffer : List UInt8

/-- A step of the writer, of the network, or of the reader. -/
inductive ChannelStep where
  /-- `write_all` encrypts a chunk and puts its frame into the buffered writer. -/
  | writeFrame
  /-- So many bytes leave the buffered writer. -/
  | leave (n : Nat)
  | arrive (n : Nat)
  /-- `receive` is called. -/
  | call
  /-- `read_exact` takes so many bytes. -/
  | fill (n : Nat)
  /-- `read_exact` finds the end of the stream. -/
  | eof
  /-- The connection breaks; the last of the bytes on their way are lost. -/
  | breaks (lost : Nat) (failure : Option Error)

namespace SecureChannel

variable (serde : SerdeJson)

/-- A channel on which `n` frames were sent and received. -/
def new (sender receiver : TransportState) (n : Nat) : SecureChannel where
  writer := ⟨[], sender, n⟩
  pending := []
  wire := []
  socket := []
  broken := none
  session := receiver
  nonce := n
  receiving := .waiting
  buffer := []

/-- Nothing is being written: `send` and `flush` have returned. -/
def quiet (ch : SecureChannel) : Bool := ch.pending.isEmpty && ch.writer.writer.isEmpty

/-- `ProtocolWriter::send` encodes the message and calls `write_all`. -/
def send (ch : SecureChannel) (msg : Message) : SecureChannel :=
  { ch with pending := chunks MAX_CHUNK (msg.encode serde) }

/-- The head of the loop of `receive`: a message, an error, or another `read_chunk`. -/
def look (ch : SecureChannel) : SecureChannel × List Message :=
  match Message.decode serde ch.buffer with
  | .error e => ({ ch with receiving := .ended (.error e) }, [])
  | .ok (some (msg, consumed)) =>
      ({ ch with buffer := ch.buffer.drop consumed, receiving := .waiting }, [msg])
  | .ok none => ({ ch with receiving := .length [] }, [])

/-- `read_chunk` with so much of the length. -/
def gotLength (ch : SecureChannel) (got : List UInt8) : SecureChannel :=
  if got.length < 2 then { ch with receiving := .length got }
  else
    let n := u16FromBeBytes got
    if n = 0 then { ch with receiving := .ended (.error "empty encrypted frame") }
    else { ch with receiving := .ciphertext n [] }

/-- `read_chunk` with so much of a ciphertext of `n` bytes, and back to the loop of `receive`. -/
def gotCiphertext (ch : SecureChannel) (n : Nat) (got : List UInt8) : SecureChannel × List Message :=
  if got.length < n then ({ ch with receiving := .ciphertext n got }, [])
  else
    match ch.session.readMessage ch.nonce got with
    | .error e => ({ ch with receiving := .ended (.error e) }, [])
    | .ok plaintext =>
        look serde { ch with nonce := ch.nonce + 1, buffer := ch.buffer ++ plaintext }

/-- `receive` ends: `read_chunk` has found the end of the stream before a frame or in its length. -/
def endOf : Option Error → Except Error Unit
  | none => .ok ()
  | some e => .error e

/-- The steps, with the messages that `receive` returns. -/
def next (ch : SecureChannel) : ChannelStep → Option (SecureChannel × List Message)
  | .writeFrame =>
      match ch.pending with
      | chunk :: pending =>
          match ch.writer.writeFrame chunk with
          | .ok writer => some ({ ch with writer := writer, pending := pending }, [])
          | .error _ => none
      | [] => none
  | .leave n =>
      if 0 < n ∧ n ≤ ch.writer.writer.length then
        let wire := match ch.broken with
          | none => ch.wire ++ ch.writer.writer.take n
          | some _ => ch.wire
        some ({ ch with
          writer := { ch.writer with writer := ch.writer.writer.drop n }, wire := wire }, [])
      else none
  | .arrive n =>
      if 0 < n ∧ n ≤ ch.wire.length then
        some ({ ch with wire := ch.wire.drop n, socket := ch.socket ++ ch.wire.take n }, [])
      else none
  | .call =>
      match ch.receiving with
      | .waiting => some (look serde ch)
      | _ => none
  | .fill n =>
      match ch.receiving with
      | .length got =>
          if 0 < n ∧ n ≤ ch.socket.length ∧ got.length + n ≤ 2 then
            some (gotLength { ch with socket := ch.socket.drop n } (got ++ ch.socket.take n), [])
          else none
      | .ciphertext len got =>
          if 0 < n ∧ n ≤ ch.socket.length ∧ got.length + n ≤ len then
            some (gotCiphertext serde { ch with socket := ch.socket.drop n } len
              (got ++ ch.socket.take n))
          else none
      | _ => none
  | .eof =>
      match ch.broken, ch.wire, ch.socket with
      | some failure, [], [] =>
          match ch.receiving with
          | .length _ => some ({ ch with receiving := .ended (endOf failure) }, [])
          | .ciphertext _ _ =>
              some ({ ch with receiving := .ended (.error (failure.getD "early eof")) }, [])
          | _ => none
      | _, _, _ => none
  | .breaks lost failure =>
      some ({ ch with
        wire := ch.wire.take (ch.wire.length - lost), broken := some failure }, [])

/-- `receive_all_buffered`, which looks at the buffer alone. -/
def drain (ch : SecureChannel) : List Message × SecureChannel :=
  let drained := (ProtocolReader.mk (PlainChunks.mk []) ch.buffer).receiveAllBuffered serde
  (drained.1, { ch with buffer := drained.2.buffer })

end SecureChannel

/-! ## What a channel holds -/

/-- The encoding of a message is decoded to the message, or found to be no message. -/
def Message.Framed (serde : SerdeJson) (msg : Message) : Prop :=
  (Message.decoder serde).Encodes (Message.encode serde) msg ∨
    ∃ e, Message.decode serde (msg.encode serde) = .error e

/-- A payload that survives serialisation is framed well, unless its length does not fit the `u32` of
the header; one that is too long for a message is found out by the header. -/
theorem Message.framed {serde : SerdeJson} {msg : Message} (hround : serde.RoundTrips msg.payload)
    (hlen : (serde.toVec msg.payload).length < 2 ^ 32) : msg.Framed serde := by
  by_cases hfits : (serde.toVec msg.payload).length ≤ MAX_PAYLOAD
  · exact Or.inl (Message.decode_encode hround hfits)
  · right
    have hexact : (UInt32.ofNat (serde.toVec msg.payload).length).toNat
        = (serde.toVec msg.payload).length := by
      rw [UInt32.toNat_ofNat']
      exact Nat.mod_eq_of_lt hlen
    have hbytes := u32FromBeBytes_toBeBytes (UInt32.ofNat (serde.toVec msg.payload).length)
    rw [hexact] at hbytes
    have hlong : (serde.toVec msg.payload).length > MAX_PAYLOAD := by omega
    simp only [encode, u32ToBeBytes, decode, List.cons_append, List.nil_append, hexact, hbytes]
    rw [if_pos hlong]
    exact ⟨_, rfl⟩

/-- The bytes of a frame that `read_exact` has taken. -/
def Receiving.taken : Receiving → List UInt8
  | .length got => got
  | .ciphertext n got => u16ToBeBytes (UInt16.ofNat n) ++ got
  | _ => []

/-- The steps that are not the writer's. -/
def ChannelStep.reads : ChannelStep → Bool
  | .writeFrame => false
  | .leave _ => false
  | _ => true

namespace SecureChannel

variable {serde : SerdeJson}

/-- The bytes between the buffered writer and the session of the reader. -/
def within (ch : SecureChannel) : List UInt8 := ch.receiving.taken ++ (ch.socket ++ ch.wire)

/-- The frames `cs` that the reader will find decrypt to `ps`; `tail` are the bytes of them that have
not left the writer, or never will, and `later` is the plaintext behind them. All together it is the
encodings of `msgs`. -/
structure Conveys (serde : SerdeJson) (ch : SecureChannel) (msgs : List Message)
    (ps cs : List (List UInt8)) (tail later : List UInt8) : Prop where
  session : InOrder ch.writer.session ch.session
  framed : ∀ msg ∈ msgs, msg.Framed serde
  carries : Carries ch.session ch.nonce ps cs
  bytes : ch.within ++ tail = cs.flatMap frame
  plain : ch.buffer ++ (ps.flatten ++ later) = msgs.flatMap (Message.encode serde)
  filled : ∀ p ∈ ps, p ≠ []
  chunked : ∀ p ∈ ch.pending, p ≠ [] ∧ p.length ≤ MAX_CHUNK
  ready : ch.broken = none →
    tail = ch.writer.writer ∧ later = ch.pending.flatten ∧ ch.writer.nonce = ch.nonce + ps.length

/-- A `read_exact` under way is not filled yet, and the buffer had no message. -/
def Unfilled (serde : SerdeJson) (ch : SecureChannel) : Prop :=
  match ch.receiving with
  | .waiting => True
  | .length got => got.length < 2 ∧ Message.decode serde ch.buffer = .ok none
  | .ciphertext n got => got.length < n ∧ (UInt16.ofNat n).toNat = n ∧
      Message.decode serde ch.buffer = .ok none
  | .ended _ => False

/-- The channel holds all of `q`, and a part of `x` at most. -/
def Holds (serde : SerdeJson) (ch : SecureChannel) (q x : List Message) : Prop :=
  ch.Unfilled serde ∧ x.length ≤ 1 ∧ ∃ ps cs tail later,
    ch.Conveys serde (q ++ x) ps cs tail later ∧ (x ≠ [] → tail ≠ [] ∨ later ≠ [])

/-- The reader has ended: the connection is broken, or what came first is no message. -/
def Failed (serde : SerdeJson) (ch : SecureChannel) (msgs : List Message) : Prop :=
  (∃ result, ch.receiving = .ended result) ∧
    (ch.broken ≠ none ∨ ∃ msg rest, msgs = msg :: rest ∧
    ¬ (Message.decoder serde).Encodes (Message.encode serde) msg)

variable {ch ch' : SecureChannel} {q x msgs out : List Message} {ps cs : List (List UInt8)}
variable {tail later : List UInt8}

theorem holds_new {sender receiver : TransportState} (hsession : InOrder sender receiver) (n : Nat) :
    (new sender receiver n).Holds serde [] [] := by
  refine ⟨trivial, Nat.zero_le _, [], [], [], [], ⟨hsession, ?_, .nil n, rfl, rfl, ?_, ?_, ?_⟩, ?_⟩
  · simp
  · simp
  · simp [new]
  · intro _
    exact ⟨rfl, rfl, rfl⟩
  · simp

/-- Something of what the channel holds in part is missing, so it is not empty. -/
theorem Conveys.ne_nil (h : ch.Conveys serde msgs ps cs tail later)
    (hmissing : tail ≠ [] ∨ later ≠ []) :
    msgs ≠ [] := by
  rintro rfl
  have hplain := h.plain
  simp only [List.flatMap_nil, List.append_eq_nil_iff, List.flatten_eq_nil_iff] at hplain
  obtain ⟨_, hps, hlater⟩ := hplain
  -- a chunk would not be empty, so there is none, and no frame
  have hnone : ps = [] := by
    rcases ps with _ | ⟨p, ps⟩
    · rfl
    · exact absurd (hps p (List.mem_cons_self ..)) (h.filled p (List.mem_cons_self ..))
  have hframes : cs = [] := by
    have hcarries := h.carries
    rw [hnone] at hcarries
    cases hcarries
    rfl
  have hbytes := h.bytes
  rw [hframes] at hbytes
  simp only [List.flatMap_nil, List.append_eq_nil_iff] at hbytes
  rcases hmissing with htail | hmore
  · exact htail hbytes.2
  · exact hmore hlater

/-! ## The reader -/

/-- A step of the reader has taken what it returns, or it has ended. -/
def Reads (serde : SerdeJson) (msgs : List Message) (tail later : List UInt8)
    (r : SecureChannel × List Message) : Prop :=
  (∃ msgs' ps cs, msgs = r.2 ++ msgs' ∧ r.1.Conveys serde msgs' ps cs tail later ∧
    r.1.Unfilled serde) ∨ r.2 = [] ∧ r.1.Failed serde msgs

/-- `look` takes the message at the front of the buffer, if it is there whole. -/
theorem Conveys.look (h : ch.Conveys serde msgs ps cs tail later) (hstart : ch.receiving.taken = []) :
    Reads serde msgs tail later (ch.look serde) := by
  have hbytes : (ch.socket ++ ch.wire) ++ tail = cs.flatMap frame := by
    have hb := h.bytes
    rwa [within, hstart, List.nil_append] at hb
  have hprefix : ch.buffer <+: msgs.flatMap (Message.encode serde) := ⟨_, h.plain⟩
  unfold SecureChannel.look
  rcases StreamDecoder.decode_of_prefix (D := Message.decoder serde) rfl h.framed hprefix with
    hnone | ⟨e, msg, rest, hfail, hmsgs, hbad⟩ | ⟨msg, rest, hitem, rfl, hthere⟩
  · rw [Message.decoder_decode] at hnone
    rw [hnone]
    refine Or.inl ⟨msgs, ps, cs, rfl, ?_, Nat.zero_lt_two, hnone⟩
    exact ⟨h.session, h.framed, h.carries, hbytes, h.plain, h.filled, h.chunked, h.ready⟩
  · rw [Message.decoder_decode] at hfail
    rw [hfail]
    exact Or.inr ⟨rfl, ⟨_, rfl⟩, Or.inr ⟨msg, rest, hmsgs, hbad⟩⟩
  · rw [Message.decoder_decode] at hitem
    rw [hitem]
    obtain ⟨more, hmore⟩ := hthere
    have hplain := h.plain
    rw [← hmore, List.flatMap_cons, List.append_assoc, List.append_cancel_left_eq] at hplain
    refine Or.inl ⟨rest, ps, cs, rfl, ?_, trivial⟩
    refine ⟨h.session, fun m hm => h.framed m (List.mem_cons_of_mem _ hm), h.carries, hbytes, ?_,
      h.filled, h.chunked, h.ready⟩
    show ch.buffer.drop (msg.encode serde).length ++ _ = _
    rw [← hmore, List.drop_left]
    exact hplain

/-- `look` does not see where the reader was. -/
theorem look_receiving (ch : SecureChannel) (receiving : Receiving) :
    { ch with receiving := receiving }.look serde = ch.look serde := by
  unfold SecureChannel.look
  rcases Message.decode serde ch.buffer with e | _ | ⟨msg, consumed⟩ <;> rfl

/-- What is taken of a frame begins with the length of its ciphertext. -/
theorem frame_front {got more : List UInt8} (hbytes : got ++ more = cs.flatMap frame)
    (hgot : got.length = 2) :
    ∃ c cs', cs = c :: cs' ∧ got = u16ToBeBytes (UInt16.ofNat c.length) ∧
      more = c ++ cs'.flatMap frame := by
  rcases cs with _ | ⟨c, cs⟩
  · have hnone : got = [] := by
      simp only [List.flatMap_nil, List.append_eq_nil_iff] at hbytes
      exact hbytes.1
    simp [hnone] at hgot
  · rw [List.flatMap_cons, frame, List.append_assoc] at hbytes
    obtain ⟨hlen, hmore⟩ := List.append_inj hbytes (by simp [hgot])
    exact ⟨c, cs, rfl, hlen, hmore⟩

/-- The length of the next frame is there, or a part of it. -/
theorem Conveys.gotLength {got : List UInt8}
    (h : { ch with receiving := .length got }.Conveys serde msgs ps cs tail later)
    (hgot : got.length ≤ 2) (hnone : Message.decode serde ch.buffer = .ok none) :
    Reads serde msgs tail later (ch.gotLength got, []) := by
  unfold SecureChannel.gotLength
  split
  · rename_i hshort
    exact Or.inl ⟨msgs, ps, cs, rfl, h, hshort, hnone⟩
  · have hbytes : got ++ (ch.socket ++ ch.wire ++ tail) = cs.flatMap frame := by
      have hb := h.bytes
      simpa [within, Receiving.taken] using hb
    obtain ⟨c, cs', rfl, hlen, hmore⟩ := frame_front hbytes (by omega)
    obtain ⟨hne, hexact⟩ := h.carries.frameExact c (List.mem_cons_self ..)
    have hn : u16FromBeBytes got = c.length := by rw [hlen, u16FromBeBytes_toBeBytes, hexact]
    have hpos : c.length ≠ 0 := fun hzero => hne (List.length_eq_zero_iff.mp hzero)
    simp only [hn, hpos, if_false]
    refine Or.inl ⟨msgs, ps, c :: cs', rfl, ?_, ?_⟩
    · refine ⟨h.session, h.framed, h.carries, ?_, h.plain, h.filled, h.chunked, h.ready⟩
      show u16ToBeBytes (UInt16.ofNat c.length) ++ [] ++ (ch.socket ++ ch.wire) ++ tail = _
      rw [← hlen, List.append_nil, List.append_assoc]
      exact hbytes
    · exact ⟨Nat.pos_of_ne_zero hpos, hexact, hnone⟩

/-- The ciphertext of the next frame is there, or a part of it. -/
theorem Conveys.gotCiphertext {n : Nat} {got : List UInt8}
    (h : { ch with receiving := .ciphertext n got }.Conveys serde msgs ps cs tail later)
    (hgot : got.length ≤ n) (hn : (UInt16.ofNat n).toNat = n)
    (hnone : Message.decode serde ch.buffer = .ok none) :
    Reads serde msgs tail later (ch.gotCiphertext serde n got) := by
  unfold SecureChannel.gotCiphertext
  split
  · rename_i hshort
    exact Or.inl ⟨msgs, ps, cs, rfl, h, hshort, hn, hnone⟩
  · have hbytes : u16ToBeBytes (UInt16.ofNat n) ++ (got ++ (ch.socket ++ ch.wire ++ tail))
        = cs.flatMap frame := by
      have hb := h.bytes
      simpa [within, Receiving.taken] using hb
    obtain ⟨c, cs', rfl, hlen, hmore⟩ := frame_front hbytes rfl
    obtain ⟨_, hexact⟩ := h.carries.frameExact c (List.mem_cons_self ..)
    have hsize : n = c.length := by
      have hread := congrArg u16FromBeBytes hlen
      rwa [u16FromBeBytes_toBeBytes, u16FromBeBytes_toBeBytes, hn, hexact] at hread
    obtain ⟨rfl, hrest⟩ := List.append_inj hmore (by omega)
    cases hcarries : h.carries with
    | @cons _ p _ ps' _ _ hread hps =>
        have hread' : ch.session.readMessage ch.nonce got = .ok p := hread
        rw [hread']
        have hready : ch.broken = none → tail = ch.writer.writer ∧ later = ch.pending.flatten ∧
            ch.writer.nonce = ch.nonce + 1 + ps'.length := by
          intro hopen
          obtain ⟨htail, hlater, hnonce⟩ := h.ready hopen
          refine ⟨htail, hlater, ?_⟩
          have hcount : ch.writer.nonce = ch.nonce + (ps'.length + 1) := hnonce
          omega
        have hplain : ch.buffer ++ p ++ (ps'.flatten ++ later)
            = msgs.flatMap (Message.encode serde) := by
          rw [← h.plain, List.flatten_cons, List.append_assoc, List.append_assoc]
        have hnext : Conveys serde
            { ch with nonce := ch.nonce + 1, buffer := ch.buffer ++ p, receiving := .waiting }
            msgs ps' cs' tail later :=
          ⟨h.session, h.framed, hps, hrest, hplain,
            fun q hq => h.filled q (List.mem_cons_of_mem _ hq), h.chunked, hready⟩
        have hlook := hnext.look rfl
        rwa [look_receiving
          { ch with nonce := ch.nonce + 1, buffer := ch.buffer ++ p } .waiting] at hlook

/-- Bytes that move on towards the reader. -/
theorem Conveys.moved (h : ch.Conveys serde msgs ps cs tail later) (receiving : Receiving)
    {socket wire : List UInt8} (hbytes : receiving.taken ++ (socket ++ wire) = ch.within) :
    { ch with receiving := receiving, socket := socket, wire := wire }.Conveys serde msgs ps cs tail
      later := by
  refine ⟨h.session, h.framed, h.carries, ?_, h.plain, h.filled, h.chunked, h.ready⟩
  show receiving.taken ++ (socket ++ wire) ++ tail = _
  rw [hbytes]
  exact h.bytes

/-- The connection breaks, and what has not left or was lost will never come. -/
theorem Conveys.breaks (h : ch.Conveys serde msgs ps cs tail later) (n : Nat)
    (failure : Option Error) :
    { ch with wire := ch.wire.take n, broken := some failure }.Conveys serde msgs ps cs
      (ch.wire.drop n ++ tail) later := by
  refine ⟨h.session, h.framed, h.carries, ?_, h.plain, h.filled, h.chunked, nofun⟩
  rw [← h.bytes]
  show ch.receiving.taken ++ (ch.socket ++ ch.wire.take n) ++ (ch.wire.drop n ++ tail)
    = ch.receiving.taken ++ (ch.socket ++ ch.wire) ++ tail
  have hwire : ch.wire.take n ++ (ch.wire.drop n ++ tail) = ch.wire ++ tail := by
    rw [← List.append_assoc, List.take_append_drop]
  simp only [List.append_assoc, hwire]

/-- A step of the reader or of the network takes what the reader returns from the front. -/
theorem Conveys.read {step : ChannelStep} (h : ch.Conveys serde msgs ps cs tail later)
    (hunfilled : ch.Unfilled serde) (hreads : step.reads = true)
    (hnext : ch.next serde step = some (ch', out)) :
    ∃ tail', (tail ≠ [] → tail' ≠ []) ∧ Reads serde msgs tail' later (ch', out) := by
  unfold SecureChannel.next at hnext
  cases step with
  | writeFrame => cases hreads
  | leave n => cases hreads
  | arrive n =>
      simp only at hnext
      split at hnext
      · cases hnext
        refine ⟨tail, id, Or.inl ⟨msgs, ps, cs, rfl, ?_, hunfilled⟩⟩
        refine h.moved ch.receiving ?_
        rw [within, List.append_assoc ch.socket, List.take_append_drop]
      · cases hnext
  | call =>
      simp only at hnext
      split at hnext
      · rename_i hwaiting
        refine ⟨tail, id, ?_⟩
        rw [← Option.some.inj hnext]
        exact h.look (by rw [hwaiting]; rfl)
      · cases hnext
  | fill n =>
      refine ⟨tail, id, ?_⟩
      unfold Unfilled at hunfilled
      rcases hreceiving : ch.receiving with _ | got | ⟨len, got⟩ | result
      · simp [hreceiving] at hnext
      · simp only [hreceiving] at hnext
        split at hnext
        · rename_i hroom
          cases hnext
          refine Conveys.gotLength (h.moved (.length (got ++ ch.socket.take n)) ?_) ?_ ?_
          · simp only [within, hreceiving, Receiving.taken, List.append_assoc]
            rw [← List.append_assoc (ch.socket.take n), List.take_append_drop]
          · rw [List.length_append, List.length_take]
            omega
          · rw [hreceiving] at hunfilled
            exact hunfilled.2
        · cases hnext
      · simp only [hreceiving] at hnext
        split at hnext
        · rename_i hroom
          rw [← Option.some.inj hnext]
          rw [hreceiving] at hunfilled
          refine Conveys.gotCiphertext
            (h.moved (.ciphertext len (got ++ ch.socket.take n)) ?_) ?_ hunfilled.2.1 hunfilled.2.2
          · simp only [within, hreceiving, Receiving.taken, List.append_assoc]
            rw [← List.append_assoc (ch.socket.take n), List.take_append_drop]
          · rw [List.length_append, List.length_take]
            omega
        · cases hnext
      · simp [hreceiving] at hnext
  | eof =>
      refine ⟨tail, id, Or.inr ?_⟩
      simp only at hnext
      split at hnext
      · rename_i hbroken _ _
        split at hnext
        · cases hnext
          exact ⟨rfl, ⟨_, rfl⟩, Or.inl (by simp [hbroken])⟩
        · cases hnext
          exact ⟨rfl, ⟨_, rfl⟩, Or.inl (by simp [hbroken])⟩
        · cases hnext
      · cases hnext
  | breaks lost failure =>
      simp only at hnext
      cases hnext
      refine ⟨ch.wire.drop (ch.wire.length - lost) ++ tail, ?_,
        Or.inl ⟨msgs, ps, cs, rfl, ?_, hunfilled⟩⟩
      · intro htail hnone
        exact htail (List.append_eq_nil_iff.mp hnone).2
      · exact h.breaks _ failure

/-- What is returned was held whole. -/
theorem append_of_reads {msgs' : List Message} (hsplit : q ++ x = out ++ msgs') (hx : x.length ≤ 1)
    (hne : x ≠ [] → msgs' ≠ []) : ∃ q', q = out ++ q' ∧ msgs' = q' ++ x := by
  rcases x with _ | ⟨m, _ | _⟩
  · exact ⟨msgs', by simpa using hsplit, (List.append_nil _).symm⟩
  · rcases List.append_eq_append_iff.mp hsplit with ⟨more, hout, hm⟩ | ⟨more, hq, hmsgs⟩
    · -- what is left is the last message itself
      rcases more with _ | ⟨m', more⟩
      · rw [List.append_nil] at hout
        exact ⟨[], by simp [hout], by simpa using hm.symm⟩
      · simp only [List.cons_append, List.cons.injEq] at hm
        have hnone := (List.append_eq_nil_iff.mp hm.2.symm).2
        exact absurd hnone (hne (by simp))
    · exact ⟨more, hq, hmsgs⟩
  · simp at hx

/-- A step of the reader or of the network takes what the reader returns from the front of the queue,
and never any of what is held in part. -/
theorem Holds.read {step : ChannelStep} (h : ch.Holds serde q x) (hreads : step.reads = true)
    (hnext : ch.next serde step = some (ch', out)) :
    (∃ q', q = out ++ q' ∧ ch'.Holds serde q' x) ∨ out = [] ∧ ch'.Failed serde (q ++ x) := by
  obtain ⟨hunfilled, hx, ps, cs, tail, later, hconveys, hpart⟩ := h
  obtain ⟨tail', htail, hreads'⟩ := hconveys.read hunfilled hreads hnext
  rcases hreads' with ⟨msgs', ps', cs', hsplit, hconveys', hunfilled'⟩ | hfailed
  · have hpart' : x ≠ [] → tail' ≠ [] ∨ later ≠ [] := fun hne => (hpart hne).imp_left htail
    obtain ⟨q', hq, rfl⟩ := append_of_reads hsplit hx fun hne => hconveys'.ne_nil (hpart' hne)
    exact Or.inl ⟨q', hq, hunfilled', hx, ps', cs', tail', later, hconveys', hpart'⟩
  · exact Or.inr hfailed

/-- `receive_all_buffered` takes messages from the front as well. -/
theorem Conveys.drain (h : ch.Conveys serde msgs ps cs tail later) :
    ∃ msgs', msgs = (ch.drain serde).1 ++ msgs' ∧
      (ch.drain serde).2.Conveys serde msgs' ps cs tail later := by
  unfold SecureChannel.drain
  rw [ProtocolReader.receiveAllBuffered_eq]
  simp only
  suffices hparse : ∀ (data : List UInt8) (msgs : List Message), (∀ msg ∈ msgs, msg.Framed serde) →
      data ++ (ps.flatten ++ later) = msgs.flatMap (Message.encode serde) →
      ∃ msgs', msgs = ((Message.decoder serde).parse data).items ++ msgs' ∧
        ((Message.decoder serde).parse data).rest ++ (ps.flatten ++ later)
          = msgs'.flatMap (Message.encode serde) by
    obtain ⟨msgs', hmsgs, hplain⟩ := hparse ch.buffer msgs h.framed h.plain
    refine ⟨msgs', hmsgs, h.session, ?_, h.carries, h.bytes, hplain, h.filled, h.chunked, h.ready⟩
    intro msg hmsg
    exact h.framed msg (hmsgs ▸ List.mem_append_right _ hmsg)
  intro data
  induction data using StreamDecoder.parse_induction (D := Message.decoder serde) with
  | failed data e hfail =>
      intro msgs _ hplain
      rw [StreamDecoder.parse_of_error hfail]
      exact ⟨msgs, rfl, hplain⟩
  | stuck data hnone =>
      intro msgs _ hplain
      rw [StreamDecoder.parse_of_incomplete hnone]
      exact ⟨msgs, rfl, hplain⟩
  | item data msg k hitem ih =>
      intro msgs hframed hplain
      rw [StreamDecoder.parse_of_item hitem]
      rcases StreamDecoder.decode_of_prefix (D := Message.decoder serde) rfl hframed ⟨_, hplain⟩ with
        hnone | ⟨e, _, _, hfail, _⟩ | ⟨first, rest, hfirst, rfl, more, rfl⟩
      · rw [hnone] at hitem
        cases hitem
      · rw [hfail] at hitem
        cases hitem
      · rw [hfirst] at hitem
        cases hitem
        rw [List.drop_left] at ih ⊢
        rw [List.flatMap_cons, List.append_assoc, List.append_cancel_left_eq] at hplain
        obtain ⟨msgs', hmsgs, hrest⟩ :=
          ih rest (fun m hm => hframed m (List.mem_cons_of_mem _ hm)) hplain
        exact ⟨msgs', by rw [hmsgs]; rfl, hrest⟩

theorem Holds.drain (h : ch.Holds serde q x) (hwaiting : ch.receiving = .waiting) :
    ∃ q', q = (ch.drain serde).1 ++ q' ∧ (ch.drain serde).2.Holds serde q' x := by
  obtain ⟨_, hx, ps, cs, tail, later, hconveys, hpart⟩ := h
  obtain ⟨msgs', hsplit, hconveys'⟩ := hconveys.drain
  obtain ⟨q', hq, rfl⟩ := append_of_reads hsplit hx fun hne => hconveys'.ne_nil (hpart hne)
  have hwaiting' : (ch.drain serde).2.receiving = .waiting := hwaiting
  refine ⟨q', hq, ?_, hx, ps, cs, tail, later, hconveys', hpart⟩
  simp only [Unfilled, hwaiting']

/-! ## The writer -/

theorem encode_ne_nil (msg : Message) : msg.encode serde ≠ [] := by
  intro hnil
  have hlen : (msg.encode serde).length = HEADER_LEN + _ := Message.length_encode msg
  rw [hnil, HEADER_LEN, List.length_nil] at hlen
  omega

/-- While a message is being written some of it has not left. -/
theorem missing_of_busy (hchunked : ∀ p ∈ ch.pending, p ≠ [] ∧ p.length ≤ MAX_CHUNK)
    (hbusy : ch.quiet = false) : ch.writer.writer ≠ [] ∨ ch.pending.flatten ≠ [] := by
  rcases hpending : ch.pending with _ | ⟨p, pending⟩
  · left
    simpa [quiet, hpending] using hbusy
  · right
    have hp := (hchunked p (hpending ▸ List.mem_cons_self ..)).1
    simp [hp]

theorem quiet_send (ch : SecureChannel) (msg : Message) : (ch.send serde msg).quiet = false := by
  have hsome : chunks MAX_CHUNK (msg.encode serde) ≠ [] := by
    intro hnil
    have hchunks : (chunks MAX_CHUNK (msg.encode serde)).flatten = msg.encode serde :=
      flatten_chunks (by decide) _
    rw [hnil, List.flatten_nil] at hchunks
    exact encode_ne_nil msg hchunks.symm
  simp [quiet, SecureChannel.send, hsome]

/-- A message that is passed to `send` is held in part from then on. -/
theorem Holds.send (h : ch.Holds serde q []) (hquiet : ch.quiet = true) {msg : Message}
    (hframed : msg.Framed serde) :
    (ch.send serde msg).Holds serde q [msg] := by
  obtain ⟨hunfilled, _, ps, cs, tail, later, hconveys, _⟩ := h
  have hchunks : (chunks MAX_CHUNK (msg.encode serde)).flatten = msg.encode serde :=
    flatten_chunks (by decide) _
  refine ⟨hunfilled, Nat.le_refl _, ps, cs, tail, later ++ msg.encode serde, ?_, ?_⟩
  · refine ⟨hconveys.session, ?_, hconveys.carries, hconveys.bytes, ?_, hconveys.filled, ?_, ?_⟩
    · intro m hm
      rcases List.mem_append.mp hm with hq | hlast
      · exact hconveys.framed m (List.mem_append_left _ hq)
      · rw [List.mem_singleton.mp hlast]
        exact hframed
    · have hplain : ch.buffer ++ (ps.flatten ++ later) = q.flatMap (Message.encode serde) := by
        simpa using hconveys.plain
      show ch.buffer ++ (ps.flatten ++ (later ++ msg.encode serde)) = _
      rw [List.flatMap_append, ← hplain]
      simp
    · exact fun p hp => mem_chunks (by decide) hp
    · intro hopen
      obtain ⟨htail, hlater, hnonce⟩ := hconveys.ready hopen
      have hnone : ch.pending = [] := by
        simp only [quiet, Bool.and_eq_true, List.isEmpty_iff] at hquiet
        exact hquiet.1
      rw [hnone, List.flatten_nil] at hlater
      refine ⟨htail, ?_, hnonce⟩
      show later ++ msg.encode serde = (chunks MAX_CHUNK (msg.encode serde)).flatten
      rw [hlater, hchunks]
      rfl
  · intro _
    exact Or.inr (by simp [encode_ne_nil])

theorem session_writeFrame {w w' : SecureWriter} {p : List UInt8} (h : w.writeFrame p = .ok w') :
    w'.session = w.session := by
  unfold SecureWriter.writeFrame at h
  split at h
  · cases h
  · cases h
    rfl

/-- A step of the writer conveys the same. -/
theorem Conveys.write {step : ChannelStep} (h : ch.Conveys serde msgs ps cs tail later)
    (hwrites : step.reads = false) (hnext : ch.next serde step = some (ch', out)) :
    out = [] ∧ ch'.receiving = ch.receiving ∧ ch'.buffer = ch.buffer ∧ ch'.broken = ch.broken ∧
      ∃ ps' cs' tail' later', ch'.Conveys serde msgs ps' cs' tail' later' ∧
        (ch.broken ≠ none → tail' = tail ∧ later' = later) := by
  unfold SecureChannel.next at hnext
  cases step with
  | writeFrame =>
      simp only at hnext
      split at hnext
      · rename_i p pending hpending
        split at hnext
        · rename_i w' hwrite
          cases hnext
          refine ⟨rfl, rfl, rfl, rfl, ?_⟩
          have hsession := session_writeFrame hwrite
          have hp := h.chunked p (hpending ▸ List.mem_cons_self ..)
          have hchunked : ∀ p ∈ pending, p ≠ [] ∧ p.length ≤ MAX_CHUNK :=
            fun p' hp' => h.chunked p' (hpending ▸ List.mem_cons_of_mem _ hp')
          rcases hbroken : ch.broken with _ | failure
          · obtain ⟨htail, hlater, hnonce⟩ := h.ready hbroken
            obtain ⟨w, hw, cs', hcarries, hbytes, hcount, _⟩ := writeFrame_wrote h.session hp.2
            cases hwrite.symm.trans hw
            refine ⟨ps ++ [p], cs ++ cs', w'.writer, pending.flatten, ?_, fun hne => absurd rfl hne⟩
            refine ⟨hsession ▸ h.session, h.framed, ?_, ?_, ?_, ?_, hchunked, ?_⟩
            · exact h.carries.append (hnonce ▸ hcarries)
            · show ch.within ++ w'.writer = _
              rw [hbytes, List.flatMap_append, ← h.bytes, htail, List.append_assoc]
            · show ch.buffer ++ ((ps ++ [p]).flatten ++ pending.flatten) = _
              rw [← h.plain, hlater, hpending]
              simp
            · intro p' hp'
              rcases List.mem_append.mp hp' with hold | hlast
              · exact h.filled p' hold
              · rw [List.mem_singleton.mp hlast]
                exact hp.1
            · intro _
              refine ⟨rfl, rfl, ?_⟩
              show w'.nonce = ch.nonce + (ps ++ [p]).length
              rw [hcount, hnonce, List.length_append, Nat.add_assoc]
          · refine ⟨ps, cs, tail, later, ?_, fun _ => ⟨rfl, rfl⟩⟩
            exact ⟨hsession ▸ h.session, h.framed, h.carries, h.bytes, h.plain, h.filled, hchunked,
              nofun⟩
        · cases hnext
      · cases hnext
  | leave n =>
      simp only at hnext
      split at hnext
      · cases hnext
        refine ⟨rfl, rfl, rfl, rfl, ?_⟩
        rcases hbroken : ch.broken with _ | failure
        · obtain ⟨htail, hlater, hnonce⟩ := h.ready hbroken
          refine ⟨ps, cs, ch.writer.writer.drop n, later, ?_, fun hne => absurd rfl hne⟩
          refine ⟨h.session, h.framed, h.carries, ?_, h.plain, h.filled, h.chunked,
            fun _ => ⟨rfl, hlater, hnonce⟩⟩
          rw [← h.bytes, htail]
          show ch.receiving.taken ++ (ch.socket ++ (ch.wire ++ ch.writer.writer.take n))
              ++ ch.writer.writer.drop n
            = ch.receiving.taken ++ (ch.socket ++ ch.wire) ++ ch.writer.writer
          simp only [List.append_assoc, List.take_append_drop]
        · refine ⟨ps, cs, tail, later, ?_, fun _ => ⟨rfl, rfl⟩⟩
          exact ⟨h.session, h.framed, h.carries, h.bytes, h.plain, h.filled, h.chunked, nofun⟩
      · cases hnext
  | _ => cases hwrites

theorem busy_of_writeFrame (hnext : ch.next serde .writeFrame = some (ch', out)) :
    ch'.quiet = false := by
  unfold SecureChannel.next at hnext
  simp only at hnext
  split at hnext
  · split at hnext
    · rename_i hwrite
      cases hnext
      unfold SecureWriter.writeFrame at hwrite
      split at hwrite <;> cases hwrite
      simp [quiet, u16ToBeBytes]
    · cases hnext
  · cases hnext

/-- A step of the writer needs something to write. -/
theorem busy_of_writes {step : ChannelStep} (hwrites : step.reads = false)
    (hnext : ch.next serde step = some (ch', out)) : ch.quiet = false := by
  unfold SecureChannel.next at hnext
  cases step with
  | writeFrame =>
      simp only at hnext
      split at hnext
      · rename_i hpending
        simp [quiet, hpending]
      · cases hnext
  | leave n =>
      simp only at hnext
      split at hnext
      · rename_i hroom
        have hsome : ch.writer.writer ≠ [] := by
          intro hnil
          rw [hnil, List.length_nil] at hroom
          omega
        simp [quiet, hsome]
      · cases hnext
  | _ => cases hwrites

/-- A step of the writer takes nothing out, and the message that is being written is held whole when
`send` and `flush` return. -/
theorem Holds.write {step : ChannelStep} (h : ch.Holds serde q x) (hwrites : step.reads = false)
    (hnext : ch.next serde step = some (ch', out)) :
    out = [] ∧ (ch'.quiet = true → ch'.Holds serde (q ++ x) []) ∧
      (ch'.quiet = false → ch'.Holds serde q x) := by
  obtain ⟨hunfilled, hx, ps, cs, tail, later, hconveys, hpart⟩ := h
  obtain ⟨hout, hreceiving, hbuffer, hbroken, ps', cs', tail', later', hconveys', hlost⟩ :=
    hconveys.write hwrites hnext
  have hunfilled' : ch'.Unfilled serde := by
    unfold Unfilled at hunfilled ⊢
    rwa [hreceiving, hbuffer]
  refine ⟨hout, fun _ => ?_, fun hbusy => ?_⟩
  · refine ⟨hunfilled', Nat.zero_le _, ps', cs', tail', later', ?_, fun hne => absurd rfl hne⟩
    rw [List.append_nil]
    exact hconveys'
  · refine ⟨hunfilled', hx, ps', cs', tail', later', hconveys', fun hne => ?_⟩
    rcases hopen : ch'.broken with _ | failure
    · obtain ⟨htail, hlater, _⟩ := hconveys'.ready hopen
      rw [htail, hlater]
      exact missing_of_busy hconveys'.chunked hbusy
    · obtain ⟨rfl, rfl⟩ := hlost (by simp [← hbroken, hopen])
      exact hpart hne

theorem quiet_of_reads {step : ChannelStep} (hreads : step.reads = true)
    (hnext : ch.next serde step = some (ch', out)) : ch'.quiet = ch.quiet := by
  unfold SecureChannel.next at hnext
  cases step with
  | writeFrame => cases hreads
  | leave n => cases hreads
  | arrive n =>
      simp only at hnext
      split at hnext <;> cases hnext
      rfl
  | call =>
      simp only at hnext
      split at hnext
      · have hch := congrArg Prod.fst (Option.some.inj hnext)
        rw [← show (ch.look serde).1 = ch' from hch]
        unfold SecureChannel.look
        split <;> rfl
      · cases hnext
  | fill n =>
      simp only at hnext
      split at hnext
      · split at hnext <;> cases hnext
        unfold SecureChannel.gotLength
        split
        · rfl
        · simp only
          split <;> rfl
      · split at hnext
        · have hch := congrArg Prod.fst (Option.some.inj hnext)
          simp only at hch
          rw [← hch]
          unfold SecureChannel.gotCiphertext
          split
          · rfl
          · split
            · rfl
            · unfold SecureChannel.look
              split <;> rfl
        · cases hnext
      · cases hnext
  | eof =>
      simp only at hnext
      split at hnext
      · split at hnext <;> cases hnext <;> rfl
      · cases hnext
  | breaks lost failure =>
      cases hnext
      rfl

/-- After the end of the reader nothing is returned any more. -/
theorem next_of_ended {step : ChannelStep} {result : Except Error Unit}
    (hended : ch.receiving = .ended result) (hnext : ch.next serde step = some (ch', out)) :
    out = [] ∧ ch'.receiving = .ended result ∧ (ch.broken ≠ none → ch'.broken ≠ none) := by
  unfold SecureChannel.next at hnext
  cases step with
  | writeFrame =>
      simp only at hnext
      split at hnext
      · split at hnext <;> cases hnext
        exact ⟨rfl, hended, id⟩
      · cases hnext
  | leave n =>
      simp only at hnext
      split at hnext <;> cases hnext
      exact ⟨rfl, hended, id⟩
  | arrive n =>
      simp only at hnext
      split at hnext <;> cases hnext
      exact ⟨rfl, hended, id⟩
  | call => simp [hended] at hnext
  | fill n => simp [hended] at hnext
  | eof =>
      simp only [hended] at hnext
      split at hnext <;> cases hnext
  | breaks lost failure =>
      cases hnext
      exact ⟨rfl, hended, fun _ => by simp⟩

theorem Failed.next {step : ChannelStep} (h : ch.Failed serde msgs)
    (hnext : ch.next serde step = some (ch', out)) : out = [] ∧ ch'.Failed serde msgs := by
  obtain ⟨⟨result, hended⟩, hwhy⟩ := h
  obtain ⟨hout, hended', hbroken⟩ := next_of_ended hended hnext
  exact ⟨hout, ⟨result, hended'⟩, hwhy.imp_left hbroken⟩

end SecureChannel

/-! ## Runs -/

/-- A channel with what was passed to `send` and what the calls of the reader have returned. -/
structure Line where
  channel : SecureChannel
  sent : List Message
  received : List Message

/-- A step of a channel that carries messages. -/
inductive LineStep where
  | send (msg : Message)
  | step (step : ChannelStep)
  /-- `receive_all_buffered`. -/
  | drain

namespace Line

variable {serde : SerdeJson} {sender receiver : TransportState} {n : Nat} {l l' : Line}

/-- The steps of a line. A writer that is in the middle of a message does not begin another one. -/
def next (serde : SerdeJson) (l : Line) : LineStep → Option Line
  | .send msg =>
      if l.channel.quiet then
        some { l with channel := l.channel.send serde msg, sent := l.sent ++ [msg] }
      else none
  | .step step =>
      (l.channel.next serde step).map fun p =>
        { l with channel := p.1, received := l.received ++ p.2 }
  | .drain =>
      match l.channel.receiving with
      | .waiting =>
          let drained := l.channel.drain serde
          some { l with channel := drained.2, received := l.received ++ drained.1 }
      | _ => none

/-- A line over two sessions that have counted to `n`. -/
def lts (serde : SerdeJson) (sender receiver : TransportState) (n : Nat) : LTS Line LineStep where
  init l := l = ⟨SecureChannel.new sender receiver n, [], []⟩
  next := next serde

/-- What is passed to `send` can be told from what is no message. -/
def Framing (serde : SerdeJson) (_ : Line) : LineStep → Prop
  | .send msg => msg.Framed serde
  | _ => True

/-- The messages that were sent and not received are held by the channel, the last one perhaps in part,
or the reader has ended. -/
def Sound (serde : SerdeJson) (l : Line) : Prop :=
  ∃ q x, l.sent = l.received ++ (q ++ x) ∧ (l.channel.quiet = true → x = []) ∧
    (l.channel.Holds serde q x ∨ l.channel.Failed serde (q ++ x))

theorem sound_next {step : LineStep} (h : l.Sound serde) (hguard : Framing serde l step)
    (hnext : l.next serde step = some l') : l'.Sound serde := by
  obtain ⟨ch, sent, received⟩ := l
  obtain ⟨q, x, hsent, hpart, hcase⟩ := h
  simp only at hsent hpart hcase
  subst hsent
  unfold next at hnext
  cases step with
  | send msg =>
      simp only at hnext
      split at hnext
      · rename_i hquiet
        cases hnext
        obtain rfl := hpart hquiet
        have hsplit : received ++ (q ++ []) ++ [msg] = received ++ (q ++ [msg]) := by simp
        rcases hcase with hholds | ⟨hended, hwhy⟩
        · refine ⟨q, [msg], hsplit, ?_, Or.inl (hholds.send hquiet hguard)⟩
          intro hquiet'
          cases (ch.quiet_send msg).symm.trans hquiet'
        · refine ⟨q ++ [msg], [], by simp, fun _ => rfl, Or.inr ⟨hended, ?_⟩⟩
          refine hwhy.imp_right ?_
          rintro ⟨first, rest, hfirst, hbad⟩
          refine ⟨first, rest ++ [msg], ?_, hbad⟩
          rw [List.append_nil] at hfirst ⊢
          rw [hfirst]
          rfl
      · cases hnext
  | step step =>
      obtain ⟨⟨ch', out⟩, hstep, rfl⟩ := Option.map_eq_some_iff.mp hnext
      rcases hcase with hholds | hfailed
      · rcases hreads : step.reads with _ | _
        · obtain ⟨rfl, hfinished, hgoing⟩ := hholds.write hreads hstep
          rcases hquiet : ch'.quiet with _ | _
          · refine ⟨q, x, by simp, ?_, Or.inl (hgoing hquiet)⟩
            intro hquiet'
            cases hquiet.symm.trans hquiet'
          · exact ⟨q ++ x, [], by simp, fun _ => rfl, Or.inl (hfinished hquiet)⟩
        · have hquiet := SecureChannel.quiet_of_reads hreads hstep
          rcases hholds.read hreads hstep with ⟨q', rfl, hholds'⟩ | ⟨rfl, hfailed⟩
          · exact ⟨q', x, by simp, fun hq => hpart (hquiet ▸ hq), Or.inl hholds'⟩
          · exact ⟨q, x, by simp, fun hq => hpart (hquiet ▸ hq), Or.inr hfailed⟩
      · obtain ⟨rfl, hfailed'⟩ := hfailed.next hstep
        have hsame : q ++ x ++ [] = q ++ x := List.append_nil _
        exact ⟨q ++ x, [], by simp, fun _ => rfl, Or.inr (hsame.symm ▸ hfailed')⟩
  | drain =>
      simp only at hnext
      split at hnext
      · rename_i hwaiting
        cases hnext
        rcases hcase with hholds | ⟨⟨result, hended⟩, _⟩
        · obtain ⟨q', hq, hholds'⟩ := hholds.drain hwaiting
          refine ⟨q', x, ?_, hpart, Or.inl hholds'⟩
          show received ++ (q ++ x) = received ++ (ch.drain serde).1 ++ (q' ++ x)
          rw [hq]
          simp
        · cases hwaiting.symm.trans hended
      · cases hnext

theorem sound_reach (hsession : InOrder sender receiver)
    (h : (lts serde sender receiver n).Reach (Framing serde) l) : l.Sound serde := by
  refine h.invariant ?_ fun l a l' => sound_next
  rintro l rfl
  exact ⟨[], [], rfl, fun _ => rfl, Or.inl (SecureChannel.holds_new hsession n)⟩

end Line

/-! ## What is sent arrives -/

namespace SecureChannel

variable {serde : SerdeJson} {ch ch' : SecureChannel} {q x out : List Message}

/-- A reader that finds nothing more, over a connection that holds and has nothing under way, has
returned everything. -/
theorem Holds.nil_of_stuck (h : ch.Holds serde q x) (hopen : ch.broken = none)
    (hpending : ch.pending = []) (hwriter : ch.writer.writer = []) (hwire : ch.wire = [])
    (hsocket : ch.socket = []) (hreading : ch.receiving ≠ .waiting) : q ++ x = [] := by
  obtain ⟨hunfilled, _, ps, cs, tail, later, hconveys, _⟩ := h
  obtain ⟨htail, hlater, _⟩ := hconveys.ready hopen
  have htaken : ch.receiving.taken = cs.flatMap frame := by
    have hbytes := hconveys.bytes
    simpa [within, hsocket, hwire, htail, hwriter] using hbytes
  -- no frame is under way, as a part of one would be less than what has been taken
  have hnone : cs = [] ∧ Message.decode serde ch.buffer = .ok none := by
    unfold Unfilled at hunfilled
    rcases hreceiving : ch.receiving with _ | got | ⟨n, got⟩ | result
    · exact absurd hreceiving hreading
    · rw [hreceiving] at hunfilled htaken
      refine ⟨?_, hunfilled.2⟩
      rcases cs with _ | ⟨c, cs⟩
      · rfl
      · have hlen := congrArg List.length htaken
        have hshort := hunfilled.1
        simp [Receiving.taken, frame] at hlen
        omega
    · rw [hreceiving] at hunfilled htaken
      refine ⟨?_, hunfilled.2.2⟩
      have hbytes : u16ToBeBytes (UInt16.ofNat n) ++ got = cs.flatMap frame := htaken
      obtain ⟨c, cs', rfl, hlen, hmore⟩ := frame_front hbytes rfl
      obtain ⟨_, hexact⟩ := hconveys.carries.frameExact c (List.mem_cons_self ..)
      have hread := congrArg u16FromBeBytes hlen
      rw [u16FromBeBytes_toBeBytes, u16FromBeBytes_toBeBytes, hunfilled.2.1, hexact] at hread
      have hshort := hunfilled.1
      rw [hmore, List.length_append] at hshort
      omega
    · rw [hreceiving] at hunfilled
      exact hunfilled.elim
  obtain ⟨rfl, hdecode⟩ := hnone
  have hcarries := hconveys.carries
  cases hcarries
  have hplain : ch.buffer = (q ++ x).flatMap (Message.encode serde) := by
    have hp := hconveys.plain
    simpa [hlater, hpending] using hp
  -- a message in the buffer would have been found
  rcases hmsgs : q ++ x with _ | ⟨msg, rest⟩
  · rfl
  · rw [hmsgs, List.flatMap_cons] at hplain
    rw [hplain] at hdecode
    rcases hconveys.framed msg (hmsgs ▸ List.mem_cons_self ..) with hfine | ⟨e, hfail⟩
    · have hitem := (Message.decoder serde).extend_item (rest.flatMap (Message.encode serde)) hfine
      rw [Message.decoder_decode, hdecode] at hitem
      cases hitem
    · rw [Message.decode_append _ (by simp [hfail]), hfail] at hdecode
      cases hdecode

/-- No step of a writer, a network and a reader that do not fail is possible. -/
def Idle (serde : SerdeJson) (ch : SecureChannel) : Prop :=
  ∀ step, (∀ lost failure, step ≠ .breaks lost failure) → ch.next serde step = none

theorem Holds.nil_of_idle (h : ch.Holds serde q x) (hidle : ch.Idle serde)
    (hopen : ch.broken = none) : q ++ x = [] := by
  obtain ⟨hunfilled, _, ps, cs, tail, later, hconveys, _⟩ := id h
  have hpending : ch.pending = [] := by
    rcases hpending : ch.pending with _ | ⟨p, pending⟩
    · rfl
    · have hfit := (hconveys.chunked p (hpending ▸ List.mem_cons_self ..)).2
      obtain ⟨w, hw, _⟩ := writeFrame_wrote hconveys.session hfit
      have hnext := hidle .writeFrame (by simp)
      simp [SecureChannel.next, hpending, hw] at hnext
  have hwriter : ch.writer.writer = [] := by
    have hnext := hidle (.leave 1) (by simp)
    simpa [SecureChannel.next] using hnext
  have hwire : ch.wire = [] := by
    have hnext := hidle (.arrive 1) (by simp)
    simpa [SecureChannel.next] using hnext
  have hreading : ch.receiving ≠ .waiting := by
    intro hwaiting
    have hnext := hidle .call (by simp)
    simp [SecureChannel.next, hwaiting] at hnext
  have hsocket : ch.socket = [] := by
    by_contra hne
    have hpos := List.length_pos_iff.mpr hne
    have hnext := hidle (.fill 1) (by simp)
    unfold Unfilled at hunfilled
    rcases hreceiving : ch.receiving with _ | got | ⟨len, got⟩ | result
    · exact absurd hreceiving hreading
    · rw [hreceiving] at hunfilled
      simp [SecureChannel.next, hreceiving] at hnext
      omega
    · rw [hreceiving] at hunfilled
      simp [SecureChannel.next, hreceiving] at hnext
      omega
    · rw [hreceiving] at hunfilled
      exact hunfilled.elim
  exact h.nil_of_stuck hopen hpending hwriter hwire hsocket hreading

/-! ## Every step brings something on its way -/

/-- The steps that a `receive` under way will take with what it has. -/
def receivingCost : Receiving → Nat
  | .waiting => 2
  | .length got => 2 * got.length + 1
  | .ciphertext _ got => 2 * got.length + 1
  | .ended _ => 0

/-- A bound on the steps until everything has been returned. -/
def cost (ch : SecureChannel) : Nat :=
  (ch.pending.map fun p => 5 * (p.length + TAG_LEN + 2) + 1).sum + 5 * ch.writer.writer.length
    + 4 * ch.wire.length + 3 * ch.socket.length + receivingCost ch.receiving + ch.buffer.length

theorem cost_look (serde : SerdeJson) (ch : SecureChannel) :
    (ch.look serde).1.cost + receivingCost ch.receiving ≤ ch.cost + 1 := by
  unfold SecureChannel.look
  rcases hdecode : Message.decode serde ch.buffer with e | _ | ⟨msg, consumed⟩
  · simp only [cost, receivingCost]
    omega
  · simp only [cost, receivingCost, List.length_nil]
    omega
  · have hconsumed := Message.decode_consumed hdecode
    simp only [cost, receivingCost, List.length_drop]
    omega

theorem cost_gotLength (ch : SecureChannel) (got : List UInt8) :
    (ch.gotLength got).cost + receivingCost ch.receiving ≤ ch.cost + 2 * got.length + 1 := by
  unfold SecureChannel.gotLength
  split
  · simp only [cost, receivingCost]
    omega
  · simp only
    split
    · simp only [cost, receivingCost]
      omega
    · simp only [cost, receivingCost, List.length_nil]
      omega

theorem cost_gotCiphertext (serde : SerdeJson) (ch : SecureChannel) (n : Nat) (got : List UInt8) :
    (ch.gotCiphertext serde n got).1.cost + receivingCost ch.receiving
      ≤ ch.cost + 2 * got.length + 1 := by
  unfold SecureChannel.gotCiphertext
  split
  · simp only [cost, receivingCost]
    omega
  · rcases hread : ch.session.readMessage ch.nonce got with e | plaintext
    · simp only [cost, receivingCost]
      omega
    · have hlen := ch.session.read_length hread
      have hlook := cost_look serde
        { ch with nonce := ch.nonce + 1, buffer := ch.buffer ++ plaintext }
      simp only [cost, List.length_append] at hlook ⊢
      omega

theorem Holds.cost_next {step : ChannelStep} (h : ch.Holds serde q x)
    (hworks : ∀ lost failure, step ≠ .breaks lost failure)
    (hnext : ch.next serde step = some (ch', out)) : ch'.cost < ch.cost := by
  obtain ⟨_, _, ps, cs, tail, later, hconveys, _⟩ := h
  unfold SecureChannel.next at hnext
  cases step with
  | writeFrame =>
      simp only at hnext
      split at hnext
      · rename_i p pending hpending
        have hfit := (hconveys.chunked p (hpending ▸ List.mem_cons_self ..)).2
        obtain ⟨c, hwrite, hlen, _⟩ := hconveys.session ch.writer.nonce p hfit
        unfold SecureWriter.writeFrame at hnext
        rw [hwrite] at hnext
        cases hnext
        simp only [cost, hpending, List.map_cons, List.sum_cons, List.length_append,
          length_u16ToBeBytes]
        omega
      · cases hnext
  | leave n =>
      simp only at hnext
      split at hnext
      · cases hnext
        rcases ch.broken with _ | failure
        · simp only [cost, List.length_append, List.length_drop, List.length_take]
          omega
        · simp only [cost, List.length_drop]
          omega
      · cases hnext
  | arrive n =>
      simp only at hnext
      split at hnext
      · cases hnext
        simp only [cost, List.length_append, List.length_drop, List.length_take]
        omega
      · cases hnext
  | call =>
      simp only at hnext
      split at hnext
      · rename_i hwaiting
        have hch := congrArg Prod.fst (Option.some.inj hnext)
        simp only at hch
        have hlook := cost_look serde ch
        rw [hch, hwaiting] at hlook
        simp only [receivingCost] at hlook
        omega
      · cases hnext
  | fill n =>
      rcases hreceiving : ch.receiving with _ | got | ⟨len, got⟩ | result
      · simp [hreceiving] at hnext
      · simp only [hreceiving] at hnext
        split at hnext
        · cases hnext
          have hgot := cost_gotLength { ch with socket := ch.socket.drop n }
            (got ++ ch.socket.take n)
          simp only [cost, hreceiving, receivingCost, List.length_append, List.length_take,
            List.length_drop] at hgot ⊢
          omega
        · cases hnext
      · simp only [hreceiving] at hnext
        split at hnext
        · have hch := congrArg Prod.fst (Option.some.inj hnext)
          simp only at hch
          have hgot := cost_gotCiphertext serde { ch with socket := ch.socket.drop n } len
            (got ++ ch.socket.take n)
          rw [hreceiving] at hgot
          rw [hch] at hgot
          simp only [cost, hreceiving, receivingCost, List.length_append, List.length_take,
            List.length_drop] at hgot ⊢
          omega
        · cases hnext
      · simp [hreceiving] at hnext
  | eof =>
      simp only at hnext
      split at hnext
      · split at hnext
        · rename_i got hreceiving
          cases hnext
          simp only [cost, hreceiving, receivingCost]
          omega
        · rename_i len got hreceiving
          cases hnext
          simp only [cost, hreceiving, receivingCost]
          omega
        · cases hnext
      · cases hnext
  | breaks lost failure => exact absurd rfl (hworks lost failure)

end SecureChannel

namespace Line

variable {serde : SerdeJson} {sender receiver : TransportState} {n : Nat} {l l' : Line}

/-- The steps of a writer, a network and a reader that do not fail, while the reader lives. -/
def Working (l : Line) : LineStep → Prop
  | .step (.breaks _ _) => False
  | .step _ => ∀ result, l.channel.receiving ≠ .ended result
  | _ => False

theorem working_lowers : LTS.Lowers (lts serde sender receiver n) Working (Sound serde)
    (fun l => l.channel.cost) := by
  constructor
  · intro l a l' hsound hworking hnext
    refine sound_next hsound ?_ hnext
    cases a with
    | send msg => exact hworking.elim
    | _ => trivial
  · intro l a l' hsound hworking hnext
    obtain ⟨q, x, _, _, hcase⟩ := hsound
    cases a with
    | send msg => exact hworking.elim
    | drain => exact hworking.elim
    | step step =>
        obtain ⟨⟨ch', out⟩, hstep, rfl⟩ := Option.map_eq_some_iff.mp hnext
        have hworks : ∀ lost failure, step ≠ .breaks lost failure := by
          rintro lost failure rfl
          exact hworking
        have halive : ∀ result, l.channel.receiving ≠ .ended result := by
          cases step with
          | breaks lost failure => exact hworking.elim
          | _ => exact hworking
        rcases hcase with hholds | ⟨⟨result, hended⟩, _⟩
        · exact hholds.cost_next hworks hstep
        · exact absurd hended (halive result)

/-- Where nothing goes on, over a connection that holds and with a reader that lives, everything that
was sent has been received. -/
theorem received_of_settled (hsound : l.Sound serde)
    (hsettled : LTS.Settled (lts serde sender receiver n) Working l)
    (hopen : l.channel.broken = none) (halive : ∀ result, l.channel.receiving ≠ .ended result) :
    l.received = l.sent := by
  obtain ⟨q, x, hsent, _, hcase⟩ := hsound
  have hidle : l.channel.Idle serde := by
    intro step hworks
    by_contra hstep
    obtain ⟨p, hp⟩ := Option.ne_none_iff_exists'.mp hstep
    refine hsettled (.step step) { l with channel := p.1, received := l.received ++ p.2 } ?_ ?_
    · cases step with
      | breaks lost failure => exact absurd rfl (hworks lost failure)
      | _ => exact halive
    · show (l.channel.next serde step).map _ = _
      rw [hp]
      rfl
  rcases hcase with hholds | ⟨⟨result, hended⟩, _⟩
  · have hnone := hholds.nil_of_idle hidle hopen
    rw [hnone, List.append_nil] at hsent
    exact hsent.symm
  · exact absurd hended (halive result)

/-- One direction of a connection is a queue of messages, however it is cut into frames and pieces,
and however writer, network and reader are interleaved. What was received is the beginning of what was
sent; the reader ends only when the connection has broken or at what is no message; the steps that
bring messages on their way come to an end, and if the connection holds and the reader lives,
everything has then been received. -/
theorem delivered_in_order (serde : SerdeJson) (sender receiver : TransportState)
    (hsession : InOrder sender receiver) (n : Nat) (l : Line)
    (h : (lts serde sender receiver n).Reach (Framing serde) l) :
    l.received <+: l.sent ∧
    (∀ result, l.channel.receiving = .ended result → l.channel.broken = none →
      ∃ msg rest, l.sent = l.received ++ msg :: rest ∧
        ¬ (Message.decoder serde).Encodes (Message.encode serde) msg) ∧
    (∀ ls l', LTS.Steps (lts serde sender receiver n) Working l ls l' →
      ls.length ≤ l.channel.cost) ∧
    (∃ ls l', LTS.Steps (lts serde sender receiver n) Working l ls l' ∧
      LTS.Settled (lts serde sender receiver n) Working l') ∧
    (LTS.Settled (lts serde sender receiver n) Working l → l.channel.broken = none →
      (∀ result, l.channel.receiving ≠ .ended result) → l.received = l.sent) := by
  have hsound := sound_reach hsession h
  obtain ⟨q, x, hsent, _, hcase⟩ := id hsound
  refine ⟨⟨q ++ x, hsent.symm⟩, ?_, ?_, working_lowers.settles hsound, ?_⟩
  · intro result hended hopen
    rcases hcase with ⟨hunfilled, _⟩ | ⟨_, hbroken | ⟨msg, rest, hmsgs, hbad⟩⟩
    · unfold SecureChannel.Unfilled at hunfilled
      rw [hended] at hunfilled
      exact hunfilled.elim
    · exact absurd hopen hbroken
    · exact ⟨msg, rest, by rw [hsent, hmsgs], hbad⟩
  · intro ls l' hsteps
    have hlength := working_lowers.length_le hsteps hsound
    omega
  · exact received_of_settled hsound

/-- The 25 bytes of a heartbeat's frame leave, arrive and are taken in pieces. -/
def heartbeatInPieces : List LineStep :=
  [.step .writeFrame, .step (.leave 3), .step (.arrive 1), .step .call, .step (.fill 1),
    .step (.leave 22), .step (.arrive 24), .step (.fill 1), .step (.fill 20), .step (.fill 3)]

theorem chunks_heartbeat : chunks MAX_CHUNK (Message.heartbeat.encode emptyObjectSerde)
    = [Message.heartbeat.encode emptyObjectSerde] := by
  rw [Lib.chunks_of_ne_nil (by decide) (SecureChannel.encode_ne_nil _),
    List.take_of_length_le (by decide), List.drop_of_length_le (by decide), Lib.chunks_nil]

/-- A heartbeat is about to be written. -/
def heartbeatSent : Line where
  channel := { SecureChannel.new taggedSession taggedSession 0 with
    pending := [Message.heartbeat.encode emptyObjectSerde] }
  sent := [Message.heartbeat]
  received := []

theorem exec_heartbeatInPieces :
    ∃ l, (lts emptyObjectSerde taggedSession taggedSession 0).exec heartbeatSent heartbeatInPieces
      = some l ∧ l.received = [Message.heartbeat] :=
  ⟨_, rfl, rfl⟩

theorem delivered_in_order_heartbeat :
    ∃ l : Line, l.received = [Message.heartbeat] ∧ l.received <+: l.sent := by
  have hsend : (lts emptyObjectSerde taggedSession taggedSession 0).next
      ⟨SecureChannel.new taggedSession taggedSession 0, [], []⟩ (.send Message.heartbeat)
      = some heartbeatSent := by
    unfold heartbeatSent
    rw [← chunks_heartbeat]
    rfl
  have hframed : Message.heartbeat.Framed emptyObjectSerde :=
    Message.framed rfl (by decide)
  obtain ⟨l, hexec, hreceived⟩ := exec_heartbeatInPieces
  have hguarded : (lts emptyObjectSerde taggedSession taggedSession 0).Guarded
      (Framing emptyObjectSerde) heartbeatSent heartbeatInPieces :=
    LTS.guarded_of_forall (by simp [heartbeatInPieces, Framing]) heartbeatSent
  exact ⟨l, hreceived, (delivered_in_order emptyObjectSerde taggedSession taggedSession
    inOrder_taggedSession 0 l ⟨_, .send Message.heartbeat :: heartbeatInPieces, rfl,
      .cons hframed hsend (LTS.steps_of_exec hexec hguarded)⟩).1⟩

end Line

end Bluecross
