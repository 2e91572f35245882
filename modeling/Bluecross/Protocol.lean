/-
# Bluecross.Protocol — messages, their constructors and their framing.

A message is a type byte, a big-endian `u32` payload length and a JSON payload. `Message.decode`
looks at a buffer and answers with a message and the bytes it took, with "incomplete", or with an
error; the order of its checks (header present, length within `MAX_PAYLOAD`, payload present, type
known, payload parses) is the order of the source, and it is what makes the answer stable when more
bytes arrive: an answer other than "incomplete" depends only on bytes that are already there. That
stability is packaged as `Message.decoder`, an instance of the library's `StreamDecoder`.
-/
import Bluecross.Json
import Bluecross.Lib.StreamDecoder

namespace Bluecross

/-- A peer that announces more is not waited for. It is the ceiling for clipboard values too. -/
def MAX_PAYLOAD : Nat := 16 * 1024 * 1024
/-- The type byte and the length. -/
def HEADER_LEN : Nat := 5

/-- What a message is about. -/
inductive MessageType where
  | handshake
  | handshakeAck
  | keyEvent
  | mouseMove
  | mouseButton
  | mouseScroll
  | switchToClient
  | switchToServer
  | heartbeat
  | clipboardData
  deriving DecidableEq, Repr

namespace MessageType

/-- The discriminant, `msg_type as u8`. -/
def asU8 : MessageType → UInt8
  | handshake => 1
  | handshakeAck => 2
  | keyEvent => 3
  | mouseMove => 4
  | mouseButton => 5
  | mouseScroll => 6
  | switchToClient => 7
  | switchToServer => 8
  | heartbeat => 9
  | clipboardData => 10

/-- The type that a byte stands for. -/
def fromU8 (v : UInt8) : Option MessageType :=
  match v with
  | 1 => some handshake
  | 2 => some handshakeAck
  | 3 => some keyEvent
  | 4 => some mouseMove
  | 5 => some mouseButton
  | 6 => some mouseScroll
  | 7 => some switchToClient
  | 8 => some switchToServer
  | 9 => some heartbeat
  | 10 => some clipboardData
  | _ => none

@[simp]
theorem fromU8_asU8 (t : MessageType) : fromU8 t.asU8 = some t := by
  cases t <;> rfl

end MessageType

/-- A type and what goes with it. -/
structure Message where
  msgType : MessageType
  payload : Value

namespace Message

/-! ## Constructors -/

/-- A client says who it is. -/
def handshake (name : String) (screenWidth screenHeight : Int32) : Message where
  msgType := .handshake
  payload := .json [("name", .string name), ("screen_width", .ofI32 screenWidth),
    ("screen_height", .ofI32 screenHeight)]

/-- The server says which edge the client is behind, and how large its own screen is. -/
def handshakeAck (position : String) (serverWidth serverHeight : Int32) : Message where
  msgType := .handshakeAck
  payload := .json [("position", .string position), ("server_width", .ofI32 serverWidth),
    ("server_height", .ofI32 serverHeight)]

/-- A key of the server's keyboard. -/
def keyEvent (code : UInt16) (value : Int32) : Message where
  msgType := .keyEvent
  payload := .json [("code", .ofU16 code), ("value", .ofI32 value)]

/-- The server's cursor and its displacement; a client looks at the displacement. -/
def mouseMove (x y dx dy : Int32) : Message where
  msgType := .mouseMove
  payload := .json [("x", .ofI32 x), ("y", .ofI32 y), ("dx", .ofI32 dx), ("dy", .ofI32 dy)]

/-- A button of the server's mouse. -/
def mouseButton (button : UInt16) (value : Int32) : Message where
  msgType := .mouseButton
  payload := .json [("button", .ofU16 button), ("value", .ofI32 value)]

/-- The wheel of the server's mouse. -/
def mouseScroll (dx dy : Int32) : Message where
  msgType := .mouseScroll
  payload := .json [("dx", .ofI32 dx), ("dy", .ofI32 dy)]

/-- Control is handed over, at this point of the client's screen. -/
def switchToClient (entryX entryY : Int32) : Message where
  msgType := .switchToClient
  payload := .json [("entry_x", .ofI32 entryX), ("entry_y", .ofI32 entryY)]

/-- Control is handed back. -/
def switchToServer : Message where
  msgType := .switchToServer
  payload := .json []

/-- A client lives. -/
def heartbeat : Message where
  msgType := .heartbeat
  payload := .json []

/-- A value of the clipboard. -/
def clipboardData (content : String) : Message where
  msgType := .clipboardData
  payload := .json [("content", .string content)]

/-- The displacement a message carries, read the way every reader reads it: `dx` and `dy` with
default zero, narrowed to `i32`. -/
def delta (msg : Message) : Int32 × Int32 :=
  ((msg.payload.i64Or "dx" 0).toInt32, (msg.payload.i64Or "dy" 0).toInt32)

theorem delta_mouseMove (x y dx dy : Int32) : (mouseMove x y dx dy).delta = (dx, dy) := by
  have hdy : (mouseMove x y dx dy).payload.get "dy" = some (.ofI32 dy) :=
    Value.get_json_concat [("x", .ofI32 x), ("y", .ofI32 y), ("dx", .ofI32 dx)] "dy" _ "dy"
  have hdx : (mouseMove x y dx dy).payload.get "dx" = some (.ofI32 dx) := by
    have h₁ := Value.get_json_concat
      [("x", .ofI32 x), ("y", .ofI32 y), ("dx", .ofI32 dx)] "dy" (.ofI32 dy) "dx"
    have h₂ := Value.get_json_concat [("x", .ofI32 x), ("y", .ofI32 y)] "dx" (.ofI32 dx) "dx"
    exact h₁.trans h₂
  simp only [delta, Value.i64Or, hdx, hdy, Option.bind_some, Value.asI64_ofI32, Option.getD_some,
    Int32.toInt32_toInt64]

/-- The message hands control over. -/
def isSwitch (msg : Message) : Bool := msg.msgType = .switchToClient

/-- The message hands control back. -/
def isHandBack (msg : Message) : Bool := msg.msgType = .switchToServer

/-! ## Framing -/

/-- `u32::to_be_bytes`. -/
def u32ToBeBytes (n : UInt32) : List UInt8 :=
  [UInt8.ofNat (n.toNat / 2 ^ 24), UInt8.ofNat (n.toNat / 2 ^ 16), UInt8.ofNat (n.toNat / 2 ^ 8),
    UInt8.ofNat n.toNat]

/-- `u32::from_be_bytes(..) as usize`. -/
def u32FromBeBytes (b₁ b₂ b₃ b₄ : UInt8) : Nat :=
  b₁.toNat * 2 ^ 24 + b₂.toNat * 2 ^ 16 + b₃.toNat * 2 ^ 8 + b₄.toNat

section

variable (serde : SerdeJson)

/-- The header, in which the length is a `u32`, and the payload. -/
def encode (msg : Message) : List UInt8 :=
  let payloadBytes := serde.toVec msg.payload
  msg.msgType.asU8 :: u32ToBeBytes (UInt32.ofNat payloadBytes.length) ++ payloadBytes

/-- A message and the number of bytes it took, or `none` when the buffer is incomplete. -/
def decode (data : List UInt8) : Except Error (Option (Message × Nat)) :=
  match data with
  | msgTypeByte :: b₁ :: b₂ :: b₃ :: b₄ :: rest =>
      let payloadLen := u32FromBeBytes b₁ b₂ b₃ b₄
      if payloadLen > MAX_PAYLOAD then
        .error s!"payload length {payloadLen} exceeds maximum {MAX_PAYLOAD}"
      else if data.length < HEADER_LEN + payloadLen then
        .ok none
      else
        match MessageType.fromU8 msgTypeByte with
        | none => .error s!"Invalid message type: {msgTypeByte}"
        | some msgType =>
            match serde.fromSlice (rest.take payloadLen) with
            | .error e => .error e
            | .ok payload => .ok (some (⟨msgType, payload⟩, HEADER_LEN + payloadLen))
  | _ => .ok none

end

variable {serde : SerdeJson}

theorem length_encode (msg : Message) :
    (msg.encode serde).length = HEADER_LEN + (serde.toVec msg.payload).length := by
  simp only [encode, u32ToBeBytes, HEADER_LEN, List.length_append, List.length_cons,
    List.length_nil]

/-- The cast to `u32` keeps every length up to `MAX_PAYLOAD`. -/
theorem u32_length_exact {n : Nat} (h : n ≤ MAX_PAYLOAD) : (UInt32.ofNat n).toNat = n := by
  have hmax : MAX_PAYLOAD < 2 ^ 32 := by decide
  rw [UInt32.toNat_ofNat']
  exact Nat.mod_eq_of_lt (by omega)

theorem u32FromBeBytes_toBeBytes (n : UInt32) :
    u32FromBeBytes (UInt8.ofNat (n.toNat / 2 ^ 24)) (UInt8.ofNat (n.toNat / 2 ^ 16))
      (UInt8.ofNat (n.toNat / 2 ^ 8)) (UInt8.ofNat n.toNat) = n.toNat := by
  have hlt := n.toNat_lt
  simp only [u32FromBeBytes, UInt8.toNat_ofNat']
  omega

/-- The decoding of a message that is complete at the front of the buffer. -/
theorem decode_encode {msg : Message} (hround : serde.RoundTrips msg.payload)
    (hlen : (serde.toVec msg.payload).length ≤ MAX_PAYLOAD) :
    decode serde (msg.encode serde) = .ok (some (msg, (msg.encode serde).length)) := by
  have hread : serde.fromSlice (serde.toVec msg.payload) = .ok msg.payload := hround
  have hbytes := u32FromBeBytes_toBeBytes (UInt32.ofNat (serde.toVec msg.payload).length)
  rw [u32_length_exact hlen] at hbytes
  rw [length_encode]
  simp only [encode, u32ToBeBytes, decode, List.cons_append, List.nil_append,
    u32_length_exact hlen, hbytes, MessageType.fromU8_asU8, List.take_length, hread]
  have hfits : ¬ (serde.toVec msg.payload).length > MAX_PAYLOAD := by omega
  have hthere : ¬ (msg.msgType.asU8 :: UInt8.ofNat ((serde.toVec msg.payload).length / 2 ^ 24) ::
      UInt8.ofNat ((serde.toVec msg.payload).length / 2 ^ 16) ::
      UInt8.ofNat ((serde.toVec msg.payload).length / 2 ^ 8) ::
      UInt8.ofNat (serde.toVec msg.payload).length :: serde.toVec msg.payload).length
        < HEADER_LEN + (serde.toVec msg.payload).length := by
    simp only [List.length_cons, HEADER_LEN]
    omega
  rw [if_neg hfits, if_neg hthere]

/-! ## Stability -/

/-- What `decode` says once the header is there, and what it says before. -/
theorem decode_cases (data : List UInt8) :
    decode serde data = .ok none ∨
      ∃ t b₁ b₂ b₃ b₄ rest, data = t :: b₁ :: b₂ :: b₃ :: b₄ :: rest := by
  match data with
  | [] | [_] | [_, _] | [_, _, _] | [_, _, _, _] => exact .inl rfl
  | t :: b₁ :: b₂ :: b₃ :: b₄ :: rest => exact .inr ⟨t, b₁, b₂, b₃, b₄, rest, rfl⟩

/-- An item takes its header and its payload, and both are in the buffer. -/
theorem decode_consumed {data : List UInt8} {msg : Message} {k : Nat}
    (h : decode serde data = .ok (some (msg, k))) : 0 < k ∧ k ≤ data.length := by
  obtain hnone | ⟨t, b₁, b₂, b₃, b₄, rest, rfl⟩ := @decode_cases serde data
  · rw [hnone] at h
    cases h
  · simp only [decode] at h
    split at h
    · cases h
    · split at h
      · cases h
      · rename_i hthere
        split at h
        · cases h
        · split at h
          · cases h
          · cases h
            simp only [HEADER_LEN] at hthere ⊢
            omega

/-- An answer other than "incomplete" reads only bytes that are already there. -/
theorem decode_append {data : List UInt8} (more : List UInt8)
    (h : decode serde data ≠ .ok none) : decode serde (data ++ more) = decode serde data := by
  obtain hnone | ⟨t, b₁, b₂, b₃, b₄, rest, rfl⟩ := @decode_cases serde data
  · exact absurd hnone h
  · simp only [decode, List.cons_append] at h ⊢
    by_cases hbig : u32FromBeBytes b₁ b₂ b₃ b₄ > MAX_PAYLOAD
    · simp only [hbig, if_true]
    · simp only [hbig, if_false] at h ⊢
      by_cases hthere : (t :: b₁ :: b₂ :: b₃ :: b₄ :: rest).length
          < HEADER_LEN + u32FromBeBytes b₁ b₂ b₃ b₄
      · simp only [hthere, if_true, ne_eq, not_true_eq_false] at h
      · have hmore : ¬ (t :: b₁ :: b₂ :: b₃ :: b₄ :: (rest ++ more)).length
            < HEADER_LEN + u32FromBeBytes b₁ b₂ b₃ b₄ := by
          simp only [List.length_cons, List.length_append] at hthere ⊢
          omega
        have htake : (rest ++ more).take (u32FromBeBytes b₁ b₂ b₃ b₄)
            = rest.take (u32FromBeBytes b₁ b₂ b₃ b₄) := by
          apply List.take_append_of_le_length
          simp only [List.length_cons, HEADER_LEN] at hthere
          omega
        simp only [hthere, hmore, if_false, htake]

end Message

/-- `Message::decode` as a decoder of the byte stream. -/
def Message.decoder (serde : SerdeJson) : Lib.StreamDecoder UInt8 Message Error where
  decode := Message.decode serde
  consumed := Message.decode_consumed
  extend_item more h := by
    rw [Message.decode_append more (by rw [h]; nofun), h]
  extend_error more h := by
    rw [Message.decode_append more (by rw [h]; nofun), h]

theorem Message.decoder_decode (serde : SerdeJson) :
    (Message.decoder serde).decode = Message.decode serde := rfl

/-! ## Motion and presses -/

/-- The motion of a message: the displacement of a `MouseMove`. -/
def Message.motion (msg : Message) : Int32 × Int32 :=
  if msg.msgType = .mouseMove then msg.delta else 0

/-- Keys and buttons, which motion must not fall behind. -/
def Message.isPress (msg : Message) : Prop :=
  msg.msgType = .keyEvent ∨ msg.msgType = .mouseButton

/-- The sum of the motion in a list of messages, in wrapping arithmetic. -/
def moved (msgs : List Message) : Int32 × Int32 := (msgs.map Message.motion).sum

theorem moved_cons (msg : Message) (msgs : List Message) :
    moved (msg :: msgs) = msg.motion + moved msgs := List.sum_cons

theorem moved_append (l₁ l₂ : List Message) : moved (l₁ ++ l₂) = moved l₁ + moved l₂ := by
  simp only [moved, List.map_append, List.sum_append]

end Bluecross
