/-
# Bluecross.Wire — two layers of framing between the two ends of a connection.

A message is cut into Noise frames without regard to message boundaries by the reader on the other
side: a frame may hold the end of one message and the start of another. `Carries` is the relation in
between: these wire bytes, read from this counter on, decrypt to these chunks. The writer produces
such bytes (`sendAll_wrote`) and the reader's content is the chunks put together
(`content_of_carries`), so that the reader parses the concatenation of the encoded messages and
nothing else depends on where the frames were cut. `wire_round_trip` follows.

Against an attacker who delivers other bytes, the session is assumed ideal: under the `i`-th counter
only the ciphertext of the peer's `i`-th write is accepted. Whatever lengths and cuts the attacker
chooses, the decrypted content is then a prefix of what the peer wrote (`content_of_ideal`), and a
prefix of the input has a prefix of the messages.
-/
import Bluecross.Parsing

namespace Bluecross

open Lib (StreamDecoder chunks flatten_chunks mem_chunks)
open ChunkReader (content readChunk)

/-! ## Frames on the wire -/

/-- A Noise frame: the length of the ciphertext, then the ciphertext. -/
def frame (ciphertext : List UInt8) : List UInt8 :=
  u16ToBeBytes (UInt16.ofNat ciphertext.length) ++ ciphertext

/-- The length written before a ciphertext is its length, and the ciphertext is not empty. -/
def FrameExact (ciphertext : List UInt8) : Prop :=
  ciphertext ≠ [] ∧ (UInt16.ofNat ciphertext.length).toNat = ciphertext.length

/-- The frames of these ciphertexts, read from counter `n` on, decrypt to these chunks. -/
inductive Carries (receiver : TransportState) :
    Nat → List (List UInt8) → List (List UInt8) → Prop
  | nil (n : Nat) : Carries receiver n [] []
  | cons {n : Nat} {p c : List UInt8} {ps cs : List (List UInt8)} :
      FrameExact c → receiver.readMessage n c = .ok p → Carries receiver (n + 1) ps cs →
      Carries receiver n (p :: ps) (c :: cs)

theorem Carries.append {receiver : TransportState} {n : Nat} {ps qs cs ds : List (List UInt8)}
    (h₁ : Carries receiver n ps cs) (h₂ : Carries receiver (n + ps.length) qs ds) :
    Carries receiver n (ps ++ qs) (cs ++ ds) := by
  induction h₁ with
  | nil n => exact h₂
  | @cons n p c ps cs hc hp _ ih =>
      refine .cons hc hp (ih ?_)
      have hcount : n + (p :: ps).length = n + 1 + ps.length := by
        rw [List.length_cons]
        omega
      rw [← hcount]
      exact h₂

theorem Carries.frameExact {receiver : TransportState} {n : Nat} {ps cs : List (List UInt8)}
    (h : Carries receiver n ps cs) : ∀ c ∈ cs, FrameExact c := by
  induction h with
  | nil n => intro c hc; cases hc
  | cons hc _ _ ih =>
      intro c hmem
      rcases List.mem_cons.mp hmem with rfl | hmem
      · exact hc
      · exact ih c hmem

/-- Reading the frame at the front of the socket. -/
theorem readChunk_frame {receiver : TransportState} {n : Nat} {c p more : List UInt8}
    {failure : Option Error} (hc : FrameExact c) (hp : receiver.readMessage n c = .ok p) :
    readChunk (SecureReader.mk ⟨frame c ++ more, failure⟩ receiver n)
      = (.ok (some p), SecureReader.mk ⟨more, failure⟩ receiver (n + 1)) := by
  obtain ⟨hne, hexact⟩ := hc
  have hpos : c.length ≠ 0 := fun h => hne (List.length_eq_zero_iff.mp h)
  have hlen : Socket.readExact ⟨frame c ++ more, failure⟩ 2
      = (.filled (u16ToBeBytes (UInt16.ofNat c.length)), ⟨c ++ more, failure⟩) := by
    have hle : 2 ≤ (frame c ++ more).length := by
      simp only [frame, List.length_append, length_u16ToBeBytes]
      omega
    simp only [Socket.readExact, hle, if_true]
    rfl
  have hbody : Socket.readExact ⟨c ++ more, failure⟩ c.length
      = (.filled c, ⟨more, failure⟩) := by
    have hle : c.length ≤ (c ++ more).length := by
      rw [List.length_append]
      omega
    simp only [Socket.readExact, hle, if_true, List.take_left, List.drop_left]
  show SecureReader.readChunk _ = _
  simp only [SecureReader.readChunk, hlen, u16FromBeBytes_toBeBytes, hexact, hpos, if_false, hbody,
    hp]

/-- The content of a socket that delivers such frames is the chunks they carry. -/
theorem content_of_carries {receiver : TransportState} {n : Nat} {ps cs : List (List UInt8)}
    (h : Carries receiver n ps cs) :
    content (SecureReader.mk ⟨cs.flatMap frame, none⟩ receiver n) = (ps.flatten, none) := by
  induction h with
  | nil n =>
      have hread : readChunk (SecureReader.mk ⟨[], none⟩ receiver n)
          = (.ok none, SecureReader.mk ⟨[], none⟩ receiver n) := rfl
      exact content_of_eof hread
  | cons hc hp _ ih =>
      rw [List.flatMap_cons, content_of_chunk (readChunk_frame hc hp), ih, List.flatten_cons]

/-! ## What the writer puts on the wire -/

/-- The receiver's session decrypts, in order, what the sender's encrypts: a plaintext that fits a
Noise message becomes a ciphertext of 16 bytes more, and comes back under the same counter. -/
def InOrder (sender receiver : TransportState) : Prop :=
  ∀ n p, p.length ≤ MAX_CHUNK → ∃ c, sender.writeMessage n p = .ok c ∧
    c.length = p.length + TAG_LEN ∧ receiver.readMessage n c = .ok p

/-- What a writer has produced when it goes on from `w` to `w'` by these plaintext chunks. -/
def Wrote (receiver : TransportState) (w w' : SecureWriter) (ps : List (List UInt8)) : Prop :=
  ∃ cs, Carries receiver w.nonce ps cs ∧ w'.writer = w.writer ++ cs.flatMap frame ∧
    w'.nonce = w.nonce + ps.length ∧ w'.session = w.session

theorem Wrote.refl (receiver : TransportState) (w : SecureWriter) : Wrote receiver w w [] :=
  ⟨[], .nil _, by simp, rfl, rfl⟩

theorem Wrote.trans {receiver : TransportState} {w w' w'' : SecureWriter}
    {ps qs : List (List UInt8)} (h₁ : Wrote receiver w w' ps) (h₂ : Wrote receiver w' w'' qs) :
    Wrote receiver w w'' (ps ++ qs) := by
  obtain ⟨cs, hc, hw, hn, hs⟩ := h₁
  obtain ⟨ds, hd, hw', hn', hs'⟩ := h₂
  rw [hn] at hd
  refine ⟨cs ++ ds, hc.append hd, ?_, ?_, hs'.trans hs⟩
  · rw [hw', hw, List.flatMap_append, List.append_assoc]
  · rw [hn', hn, List.length_append, Nat.add_assoc]

theorem writeFrame_wrote {receiver : TransportState} {w : SecureWriter} {p : List UInt8}
    (hsession : InOrder w.session receiver) (hp : p.length ≤ MAX_CHUNK) :
    ∃ w', w.writeFrame p = .ok w' ∧ Wrote receiver w w' [p] := by
  obtain ⟨c, hwrite, hlen, hread⟩ := hsession w.nonce p hp
  have hexact : FrameExact c := by
    refine ⟨?_, ?_⟩
    · intro hnil
      rw [hnil, TAG_LEN] at hlen
      simp at hlen
    · rw [hlen]
      exact u16_length_exact hp
  refine ⟨{ w with writer := w.writer ++ u16ToBeBytes (UInt16.ofNat c.length) ++ c
                   nonce := w.nonce + 1 }, ?_, [c], .cons hexact hread (.nil _), ?_, rfl, rfl⟩
  · rw [SecureWriter.writeFrame, hwrite]
  · rw [List.flatMap_cons, List.flatMap_nil, List.append_nil, frame, List.append_assoc]

/-- Writing a list of chunks that fit. -/
theorem writeFrames_wrote {receiver : TransportState} {w : SecureWriter}
    {ps : List (List UInt8)} (hsession : InOrder w.session receiver)
    (hps : ∀ p ∈ ps, p.length ≤ MAX_CHUNK) :
    ∃ w', ps.foldlM SecureWriter.writeFrame w = .ok w' ∧ Wrote receiver w w' ps := by
  induction ps generalizing w with
  | nil => exact ⟨w, rfl, .refl receiver w⟩
  | cons p ps ih =>
      obtain ⟨w₁, h₁, hw₁⟩ := writeFrame_wrote hsession (hps p (List.mem_cons_self ..))
      obtain ⟨_, _, _, _, hs⟩ := id hw₁
      obtain ⟨w₂, h₂, hw₂⟩ := ih (w := w₁) (by rw [hs]; exact hsession)
        fun q hq => hps q (List.mem_cons_of_mem p hq)
      refine ⟨w₂, ?_, hw₁.trans hw₂⟩
      rw [List.foldlM_cons, h₁]
      exact h₂

/-- The plaintexts of the session's successive `write_message` calls, for messages sent in order. -/
def plaintextWrites (serde : SerdeJson) (msgs : List Message) : List (List UInt8) :=
  msgs.flatMap fun msg => chunks MAX_CHUNK (msg.encode serde)

theorem flatten_plaintextWrites (serde : SerdeJson) (msgs : List Message) :
    (plaintextWrites serde msgs).flatten = msgs.flatMap (Message.encode serde) := by
  induction msgs with
  | nil => rfl
  | cons msg msgs ih =>
      have hsplit : plaintextWrites serde (msg :: msgs)
          = chunks MAX_CHUNK (msg.encode serde) ++ plaintextWrites serde msgs := rfl
      rw [hsplit, List.flatten_append, flatten_chunks (by decide), ih, List.flatMap_cons]

/-- Sending messages in order writes their chunks, each in one exact frame. -/
theorem sendAll_wrote {serde : SerdeJson} {receiver : TransportState} {w : ProtocolWriter}
    {msgs : List Message} (hsession : InOrder w.writer.session receiver) :
    ∃ w', w.sendAll serde msgs = .ok w' ∧
      Wrote receiver w.writer w'.writer (plaintextWrites serde msgs) := by
  induction msgs generalizing w with
  | nil => exact ⟨w, rfl, .refl receiver w.writer⟩
  | cons msg msgs ih =>
      have hfit : ∀ p ∈ chunks MAX_CHUNK (msg.encode serde), p.length ≤ MAX_CHUNK :=
        fun p hp => (mem_chunks (by decide) hp).2
      obtain ⟨w₁, h₁, hw₁⟩ := writeFrames_wrote hsession hfit
      obtain ⟨_, _, _, _, hs⟩ := id hw₁
      obtain ⟨w₂, h₂, hw₂⟩ := ih (w := ⟨w₁⟩) (by rw [hs]; exact hsession)
      refine ⟨w₂, ?_, hw₁.trans hw₂⟩
      have hsend : w.send serde msg = .ok ⟨w₁⟩ := by
        rw [ProtocolWriter.send, SecureWriter.writeAll, h₁]
        rfl
      rw [ProtocolWriter.sendAll, List.foldlM_cons, hsend]
      exact h₂

/-! ## The round trip -/

/-- The answers of `k` successive `receive` calls. -/
def ProtocolReader.receiveN {ρ : Type} [ChunkReader ρ] (serde : SerdeJson) :
    Nat → ProtocolReader ρ → List (Except Error (Option Message))
  | 0, _ => []
  | k + 1, r =>
      let (answer, r') := r.receive serde
      answer :: receiveN serde k r'

/-- When the pending input parses to `msgs` without error and the source ends cleanly, successive
calls deliver `msgs` and then `Ok(None)`. -/
theorem receiveN_of_parse {ρ : Type} [ChunkReader ρ] {serde : SerdeJson} {msgs : List Message}
    {r : ProtocolReader ρ} (hitems : ((Message.decoder serde).parse r.pending).items = msgs)
    (hout : r.outcome serde = .ok ()) :
    r.receiveN serde (msgs.length + 1) = msgs.map (fun msg => .ok (some msg)) ++ [.ok none] := by
  induction msgs generalizing r with
  | nil =>
      rcases @ProtocolReader.receive_parse ρ _ serde r with ⟨msg, r', _, hcons, _⟩ | ⟨_, hr⟩
      · rw [hitems] at hcons
        cases hcons
      · rw [hout] at hr
        simp only [ProtocolReader.receiveN, hr, Except.map, List.length_nil, List.map_nil,
          List.nil_append]
  | cons msg msgs ih =>
      rcases @ProtocolReader.receive_parse ρ _ serde r with ⟨msg', r', hr, hcons, ho⟩ | ⟨hnil, _⟩
      · rw [hitems, List.cons.injEq] at hcons
        obtain ⟨rfl, htail⟩ := hcons
        have hrest := ih (r := r') htail.symm (ho.trans hout)
        rw [List.length_cons, ProtocolReader.receiveN, hr, List.map_cons, List.cons_append]
        simp only [hrest]
      · rw [hitems] at hnil
        cases hnil

/-- Each payload survives serialisation and fits a message. -/
def Sendable (serde : SerdeJson) (msg : Message) : Prop :=
  serde.RoundTrips msg.payload ∧ (serde.toVec msg.payload).length ≤ MAX_PAYLOAD

/-- Short messages can be sent where their payloads are the values that are read, each from a text of
its own. -/
theorem sendable_ofValues {msgs : List Message}
    (hapart : ((msgs.map Message.payload).map Value.text).Nodup)
    (hshort : ∀ msg ∈ msgs, msg.payload.text.length ≤ MAX_PAYLOAD) :
    ∀ msg ∈ msgs, Sendable (.ofValues (msgs.map Message.payload)) msg := by
  intro msg hmsg
  have hround := SerdeJson.ofValues_roundTrips hapart (List.mem_map_of_mem hmsg)
  exact ⟨hround, hshort msg hmsg⟩

/-- The bytes of sendable messages, followed by nothing, parse to those messages. -/
theorem parse_sent {serde : SerdeJson} {msgs : List Message}
    (hmsgs : ∀ msg ∈ msgs, Sendable serde msg) :
    (Message.decoder serde).parse (msgs.flatMap (Message.encode serde)) = ⟨msgs, [], none⟩ := by
  have henc : ∀ msg ∈ msgs, (Message.decoder serde).Encodes (Message.encode serde) msg :=
    fun msg hmsg => Message.decode_encode (hmsgs msg hmsg).1 (hmsgs msg hmsg).2
  have hempty : (Message.decoder serde).decode [] = .ok none := rfl
  have hparse := StreamDecoder.parse_encodings henc []
  rw [StreamDecoder.parse_of_incomplete hempty, List.append_nil, List.append_nil] at hparse
  exact hparse

/-- Messages are sent in exact frames, and what the reader finds on the other side is their bytes. -/
theorem sendAll_pending (serde : SerdeJson) {sender receiver : TransportState} (n : Nat)
    (msgs : List Message) (hsession : InOrder sender receiver) :
    ∃ (w : ProtocolWriter) (ciphertexts : List (List UInt8)),
      (ProtocolWriter.new ⟨[], sender, n⟩).sendAll serde msgs = .ok w ∧
      w.writer.writer = ciphertexts.flatMap frame ∧ (∀ c ∈ ciphertexts, FrameExact c) ∧
      (ProtocolReader.new (SecureReader.mk ⟨w.writer.writer, none⟩ receiver n)).pending
        = msgs.flatMap (Message.encode serde) ∧
      (ProtocolReader.new (SecureReader.mk ⟨w.writer.writer, none⟩ receiver n)).ending = none := by
  obtain ⟨w, hsend, cs, hcarries, hbytes, _, _⟩ :=
    @sendAll_wrote serde receiver (ProtocolWriter.new ⟨[], sender, n⟩) msgs hsession
  have hwire : w.writer.writer = cs.flatMap frame := by
    rw [hbytes]
    rfl
  have hcontent : content (SecureReader.mk ⟨cs.flatMap frame, none⟩ receiver n)
      = (msgs.flatMap (Message.encode serde), none) := by
    rw [← flatten_plaintextWrites]
    exact content_of_carries hcarries
  refine ⟨w, cs, hsend, hwire, hcarries.frameExact, ?_, ?_⟩
  · rw [hwire]
    show [] ++ (content (SecureReader.mk ⟨cs.flatMap frame, none⟩ receiver n)).1 = _
    rw [hcontent, List.nil_append]
  · rw [hwire]
    show (content (SecureReader.mk ⟨cs.flatMap frame, none⟩ receiver n)).2 = _
    rw [hcontent]

/-- A reader that finds the bytes of sendable messages delivers the messages and then the end. -/
theorem receiveN_sent {ρ : Type} [ChunkReader ρ] {serde : SerdeJson} {r : ProtocolReader ρ}
    {msgs : List Message} (hmsgs : ∀ msg ∈ msgs, Sendable serde msg)
    (hpending : r.pending = msgs.flatMap (Message.encode serde)) (hending : r.ending = none) :
    r.receiveN serde (msgs.length + 1) = msgs.map (fun msg => .ok (some msg)) ++ [.ok none] := by
  have hparse := parse_sent hmsgs
  apply receiveN_of_parse
  · rw [hpending, hparse]
  · rw [ProtocolReader.outcome, hpending, hending, hparse]

/-- Messages passed to `send` in order arrive in order, and after them the end of the stream. Every
frame length and every payload length on the way is written exactly, and no frame is empty. -/
theorem wire_round_trip (serde : SerdeJson) (sender receiver : TransportState) (n : Nat)
    (msgs : List Message) (hsession : InOrder sender receiver)
    (hmsgs : ∀ msg ∈ msgs, Sendable serde msg) :
    ∃ (w : ProtocolWriter) (ciphertexts : List (List UInt8)),
      (ProtocolWriter.new ⟨[], sender, n⟩).sendAll serde msgs = .ok w ∧
      w.writer.writer = ciphertexts.flatMap frame ∧
      (∀ c ∈ ciphertexts, FrameExact c) ∧
      (∀ msg ∈ msgs, (UInt32.ofNat (serde.toVec msg.payload).length).toNat
        = (serde.toVec msg.payload).length) ∧
      (ProtocolReader.new (SecureReader.mk ⟨w.writer.writer, none⟩ receiver n)).receiveN serde
          (msgs.length + 1)
        = msgs.map (fun msg => .ok (some msg)) ++ [.ok none] := by
  obtain ⟨w, cs, hsend, hwire, hexact, hpending, hending⟩ := sendAll_pending serde n msgs hsession
  refine ⟨w, cs, hsend, hwire, hexact, ?_, receiveN_sent hmsgs hpending hending⟩
  intro msg hmsg
  exact Message.u32_length_exact (hmsgs msg hmsg).2

/-- A session whose ciphertext is the plaintext and a constant tag. -/
def taggedSession : TransportState where
  writeMessage _ p := .ok (p ++ List.replicate TAG_LEN 0)
  readMessage _ c := .ok (c.take (c.length - TAG_LEN))
  read_length h := by
    cases h
    rw [List.length_take]
    omega

theorem inOrder_taggedSession : InOrder taggedSession taggedSession := by
  intro n p _
  refine ⟨p ++ List.replicate TAG_LEN 0, rfl, by simp, ?_⟩
  simp [taggedSession]

/-- A heartbeat and a hand-back, over a tagged session. -/
theorem wire_round_trip_two :
    ∃ w : ProtocolWriter,
      (ProtocolWriter.new ⟨[], taggedSession, 0⟩).sendAll emptyObjectSerde
          [Message.heartbeat, Message.switchToServer] = .ok w ∧
      (ProtocolReader.new (SecureReader.mk ⟨w.writer.writer, none⟩ taggedSession 0)).receiveN
          emptyObjectSerde 3
        = [.ok (some Message.heartbeat), .ok (some Message.switchToServer), .ok none] := by
  have hsendable : ∀ msg ∈ [Message.heartbeat, Message.switchToServer],
      Sendable emptyObjectSerde msg := by
    intro msg hmsg
    simp only [List.mem_cons, List.not_mem_nil, or_false] at hmsg
    rcases hmsg with rfl | rfl <;> exact ⟨rfl, by decide⟩
  obtain ⟨w, _, hsend, _, _, _, hreceived⟩ := wire_round_trip emptyObjectSerde taggedSession
    taggedSession 0 [Message.heartbeat, Message.switchToServer] inOrder_taggedSession hsendable
  exact ⟨w, hsend, hreceived⟩

/-! ## An attacker on the wire -/

/-- The ideal session of a receiver: under the `i`-th counter exactly the ciphertext of the peer's
`i`-th write is accepted, and it decrypts to what the peer wrote. -/
def Ideal (sender receiver : TransportState) (writes : List (List UInt8)) : Prop :=
  ∀ i c p, receiver.readMessage i c = .ok p ↔
    writes[i]? = some p ∧ sender.writeMessage i p = .ok c

/-- Whatever the socket delivers, its content from counter `i` on is a prefix of what the peer
wrote from there on. -/
theorem content_of_ideal {sender receiver : TransportState} {writes : List (List UInt8)}
    (hideal : Ideal sender receiver writes) (s : Socket) (i : Nat) :
    (content (SecureReader.mk s receiver i)).1 <+: (writes.drop i).flatten := by
  induction hl : s.bytes.length using Nat.strongRecOn generalizing s i with
  | _ l ih =>
      subst hl
      match hread : readChunk (SecureReader.mk s receiver i) with
      | (.error e, r') =>
          rw [content_of_error hread]
          exact List.nil_prefix
      | (.ok none, r') =>
          rw [content_of_eof hread]
          exact List.nil_prefix
      | (.ok (some p), ⟨s', session', i'⟩) =>
          have hless := ChunkReader.remaining_lt hread
          obtain ⟨len, c, _, _, _, _, hdec, hsession, hnonce, _⟩ :=
            SecureReader.readChunk_some hread
          simp only at hsession hnonce hdec
          subst hsession
          subst hnonce
          obtain ⟨hwrite, _⟩ := (hideal i c p).mp hdec
          obtain ⟨hi, hp⟩ := List.getElem?_eq_some_iff.mp hwrite
          rw [content_of_chunk hread, List.drop_eq_getElem_cons hi, hp, List.flatten_cons]
          exact (List.prefix_append_right_inj p).mpr (ih _ hless s' (i + 1) rfl)

/-- Over an ideal session no choice of delivered bytes makes the reader deliver anything but a
prefix of the messages that were sent. -/
theorem no_forged_messages (serde : SerdeJson) (sender receiver : TransportState)
    (msgs : List Message) (hmsgs : ∀ msg ∈ msgs, Sendable serde msg)
    (hideal : Ideal sender receiver (plaintextWrites serde msgs)) (delivered : Socket)
    (calls : List ReaderCall) :
    ((ProtocolReader.new (SecureReader.mk delivered receiver 0)).session serde calls).1 <+: msgs := by
  have hcontent := content_of_ideal hideal delivered 0
  rw [List.drop_zero, flatten_plaintextWrites] at hcontent
  obtain ⟨more, hmore⟩ := hcontent
  have hpending : (ProtocolReader.new (SecureReader.mk delivered receiver 0)).pending
      = (content (SecureReader.mk delivered receiver 0)).1 := List.nil_append _
  have hitems := StreamDecoder.parse_items_prefix (D := Message.decoder serde)
    (content (SecureReader.mk delivered receiver 0)).1 more
  rw [hmore, parse_sent hmsgs] at hitems
  have hsession := (@ProtocolReader.session_spec SecureReader _ serde calls
    (ProtocolReader.new (SecureReader.mk delivered receiver 0))).1
  rw [hpending] at hsession
  exact hsession.trans hitems

/-- The ideal receiver of a tagged session, for a peer that makes these writes. -/
def idealReceiver (writes : List (List UInt8)) : TransportState where
  writeMessage _ p := .ok (p ++ List.replicate TAG_LEN 0)
  readMessage i c :=
    match writes[i]? with
    | none => .error "decrypt error"
    | some p => if c = p ++ List.replicate TAG_LEN 0 then .ok p else .error "decrypt error"
  read_length {n c p} h := by
    cases hw : writes[n]? with
    | none =>
        rw [hw] at h
        cases h
    | some q =>
        rw [hw] at h
        by_cases hc : c = q ++ List.replicate TAG_LEN 0
        · simp only [hc, if_true, Except.ok.injEq] at h
          rw [hc, ← h, List.length_append]
          omega
        · simp only [hc, if_false] at h
          cases h

/-- The frame of a heartbeat over a tagged session. -/
def heartbeatFrame : List UInt8 :=
  frame (Message.heartbeat.encode emptyObjectSerde ++ List.replicate TAG_LEN 0)

/-- The peer sends one heartbeat and its frame is replayed: at most that heartbeat comes out. -/
theorem no_forged_messages_replay :
    ((ProtocolReader.new (SecureReader.mk ⟨heartbeatFrame ++ heartbeatFrame, none⟩
      (idealReceiver (plaintextWrites emptyObjectSerde [Message.heartbeat])) 0)).session
        emptyObjectSerde [.receive, .receive]).1 <+: [Message.heartbeat] := by
  apply no_forged_messages emptyObjectSerde taggedSession
  · intro msg hmsg
    rw [List.mem_singleton.mp hmsg]
    exact ⟨rfl, by decide⟩
  · intro i c p
    simp only [idealReceiver, taggedSession, Except.ok.injEq]
    cases (plaintextWrites emptyObjectSerde [Message.heartbeat])[i]? with
    | none => simp
    | some q =>
        by_cases hc : c = q ++ List.replicate TAG_LEN 0
        · simp only [hc, if_true, Except.ok.injEq, Option.some.injEq]
          constructor
          · intro hq
            exact ⟨hq, by rw [hq]⟩
          · intro hq
            exact hq.1
        · simp only [hc, if_false, reduceCtorEq, Option.some.injEq, false_iff, not_and]
          intro hq htag
          exact hc (by rw [hq, htag])

end Bluecross
