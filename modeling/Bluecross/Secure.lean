/-
# Bluecross.Secure — Noise frames over the byte stream of a socket.

`SecureWriter.writeAll` cuts a plaintext into pieces of at most `MAX_CHUNK` bytes, encrypts each
with the session and puts a big-endian `u16` length before it. `SecureReader.readChunk` reads one
frame back and decrypts it. The session is `snow`'s and enters as `TransportState`: encryption and
decryption under a counter, which this module advances once for each frame that succeeds.

The socket is what it will still deliver: bytes, and then either the end of the stream or an I/O
error. A `read_exact` that cannot be filled consumes what is there.
-/
import Bluecross.Json
import Bluecross.Lib.Chunks

namespace Bluecross

open Lib (chunks)

/-- What encryption adds to a chunk. -/
def TAG_LEN : Nat := 16
/-- The longest message of the Noise protocol. -/
def MAX_NOISE_MSG : Nat := 65535
/-- The longest plaintext that fits into one. -/
def MAX_CHUNK : Nat := MAX_NOISE_MSG - TAG_LEN

/-- `snow::TransportState`: one message under a direction's counter. A plaintext is read into a
buffer of the ciphertext's size, so it is never longer. -/
structure TransportState where
  writeMessage : Nat → List UInt8 → Except Error (List UInt8)
  readMessage : Nat → List UInt8 → Except Error (List UInt8)
  read_length {n : Nat} {c p : List UInt8} : readMessage n c = .ok p → p.length ≤ c.length

/-! ## The socket -/

/-- What the peer's side of the stream still delivers: bytes, then its end (`none`) or an error. -/
structure Socket where
  bytes : List UInt8
  failure : Option Error

/-- The outcomes of `read_exact`. -/
inductive ReadExact where
  | filled (buf : List UInt8)
  | unexpectedEof
  | failed (e : Error)

/-- `read_exact`: all of the bytes, or none for the caller. -/
def Socket.readExact (s : Socket) (n : Nat) : ReadExact × Socket :=
  if n ≤ s.bytes.length then
    (.filled (s.bytes.take n), { s with bytes := s.bytes.drop n })
  else
    match s.failure with
    | none => (.unexpectedEof, { s with bytes := [] })
    | some e => (.failed e, { s with bytes := [] })

/-! ## Reading -/

/-- `u16::from_be_bytes`; the buffer always has two bytes. -/
def u16FromBeBytes : List UInt8 → Nat
  | [b₁, b₂] => b₁.toNat * 2 ^ 8 + b₂.toNat
  | _ => 0

/-- `u16::to_be_bytes`. -/
def u16ToBeBytes (n : UInt16) : List UInt8 :=
  [UInt8.ofNat (n.toNat / 2 ^ 8), UInt8.ofNat n.toNat]

/-- The decrypting half of a connection. -/
structure SecureReader where
  reader : Socket
  session : TransportState
  /-- The receiving counter of the session. -/
  nonce : Nat

namespace SecureReader

/-- Read and decrypt the next Noise frame; `none` at the end of the stream. -/
def readChunk (r : SecureReader) : Except Error (Option (List UInt8)) × SecureReader :=
  match r.reader.readExact 2 with
  | (.unexpectedEof, s) => (.ok none, { r with reader := s })
  | (.failed e, s) => (.error e, { r with reader := s })
  | (.filled len, s) =>
      let n := u16FromBeBytes len
      if n = 0 then
        (.error "empty encrypted frame", { r with reader := s })
      else
        match s.readExact n with
        | (.unexpectedEof, s) => (.error "early eof", { r with reader := s })
        | (.failed e, s) => (.error e, { r with reader := s })
        | (.filled ciphertext, s) =>
            match r.session.readMessage r.nonce ciphertext with
            | .error e => (.error e, { r with reader := s })
            | .ok plaintext =>
                (.ok (some plaintext), { r with reader := s, nonce := r.nonce + 1 })

end SecureReader

/-! ## Writing -/

/-- The encrypting half of a connection. -/
structure SecureWriter where
  /-- The bytes handed to the buffered socket so far. -/
  writer : List UInt8
  session : TransportState
  /-- The sending counter of the session. -/
  nonce : Nat

namespace SecureWriter

/-- One pass of the loop of `write_all`: encrypt a chunk and write its frame. -/
def writeFrame (w : SecureWriter) (chunk : List UInt8) : Except Error SecureWriter :=
  match w.session.writeMessage w.nonce chunk with
  | .error e => .error e
  | .ok ciphertext =>
      let n := ciphertext.length
      .ok { w with
        writer := w.writer ++ u16ToBeBytes (UInt16.ofNat n) ++ ciphertext
        nonce := w.nonce + 1 }

/-- Encrypt and buffer `plaintext` as one or more Noise frames. -/
def writeAll (w : SecureWriter) (plaintext : List UInt8) : Except Error SecureWriter :=
  (chunks MAX_CHUNK plaintext).foldlM writeFrame w

end SecureWriter

/-! ## Lengths -/

@[simp]
theorem length_u16ToBeBytes (n : UInt16) : (u16ToBeBytes n).length = 2 := rfl

theorem u16FromBeBytes_toBeBytes (n : UInt16) : u16FromBeBytes (u16ToBeBytes n) = n.toNat := by
  have hlt := n.toNat_lt
  simp only [u16FromBeBytes, u16ToBeBytes, UInt8.toNat_ofNat']
  omega

/-- The cast to `u16` keeps the length of a frame whose plaintext is at most `MAX_CHUNK` bytes. -/
theorem u16_length_exact {n : Nat} (h : n ≤ MAX_CHUNK) :
    (UInt16.ofNat (n + TAG_LEN)).toNat = n + TAG_LEN := by
  have hmax : MAX_CHUNK + TAG_LEN < 2 ^ 16 := by decide
  rw [UInt16.toNat_ofNat']
  exact Nat.mod_eq_of_lt (by omega)

end Bluecross
