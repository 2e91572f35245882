/-
# Bluecross.Transport — the message reader and the message writer of a connection.

`ProtocolReader` keeps a buffer of decrypted bytes in front of a source of plaintext chunks. Two of
its loops decode from the buffer: `receive`, which reads further chunks until a message is complete
and reports every error, and `receiveAllBuffered`, which reads nothing and stops silently at an
error. The source is a class: the program's is `SecureReader`; a plain list of chunks followed by the
end of the stream is another one. Each successful read uses up some of the source, which is why
`receive` ends on every input.

`session` runs any interleaving of the two calls up to the first `receive` that delivers no message.
-/
import Bluecross.Protocol
import Bluecross.Secure

namespace Bluecross

/-! ## Sources of plaintext -/

/-- A source of decrypted chunks that every successful read uses up further. -/
class ChunkReader (ρ : Type) where
  readChunk : ρ → Except Error (Option (List UInt8)) × ρ
  remaining : ρ → Nat
  remaining_lt {r r' : ρ} {c : List UInt8} :
    readChunk r = (.ok (some c), r') → remaining r' < remaining r

theorem Socket.readExact_filled {s s' : Socket} {n : Nat} {buf : List UInt8}
    (h : s.readExact n = (.filled buf, s')) :
    s.bytes = buf ++ s'.bytes ∧ buf.length = n ∧ s'.failure = s.failure := by
  unfold Socket.readExact at h
  split at h
  · rename_i hlen
    obtain ⟨hbuf, hs⟩ := Prod.mk.injEq .. ▸ h
    cases hbuf
    cases hs
    exact ⟨(List.take_append_drop n s.bytes).symm, List.length_take_of_le hlen, rfl⟩
  · split at h <;> cases h

/-- A frame that is read is a length and a ciphertext of that length, and both leave the socket. -/
theorem SecureReader.readChunk_some {r r' : SecureReader} {c : List UInt8}
    (h : r.readChunk = (.ok (some c), r')) :
    ∃ len ciphertext, r.reader.bytes = len ++ ciphertext ++ r'.reader.bytes ∧ len.length = 2 ∧
      ciphertext.length = u16FromBeBytes len ∧ ciphertext ≠ [] ∧
      r.session.readMessage r.nonce ciphertext = .ok c ∧
      r'.session = r.session ∧ r'.nonce = r.nonce + 1 ∧ r'.reader.failure = r.reader.failure := by
  unfold SecureReader.readChunk at h
  split at h
  · cases h
  · cases h
  · rename_i len s hlen
    obtain ⟨hb₁, hl₁, hf₁⟩ := Socket.readExact_filled hlen
    simp only at h
    split at h
    · cases h
    · rename_i hn
      split at h
      · cases h
      · cases h
      · rename_i ciphertext s₂ hct
        obtain ⟨hb₂, hl₂, hf₂⟩ := Socket.readExact_filled hct
        split at h
        · cases h
        · rename_i plaintext hread
          cases h
          refine ⟨len, ciphertext, ?_, hl₁, hl₂, ?_, hread, rfl, rfl, hf₂.trans hf₁⟩
          · rw [hb₁, hb₂, List.append_assoc]
          · intro hnil
            subst hnil
            exact hn hl₂.symm

instance : ChunkReader SecureReader where
  readChunk := SecureReader.readChunk
  remaining r := r.reader.bytes.length
  remaining_lt h := by
    obtain ⟨len, ciphertext, hbytes, hlen, _⟩ := SecureReader.readChunk_some h
    rw [hbytes]
    simp only [List.length_append]
    omega

/-- Plaintext chunks, followed by the end of the stream. -/
structure PlainChunks where
  chunks : List (List UInt8)

/-- The next chunk; behind the last one is the end of the stream. -/
def PlainChunks.readChunk : PlainChunks → Except Error (Option (List UInt8)) × PlainChunks
  | ⟨[]⟩ => (.ok none, ⟨[]⟩)
  | ⟨c :: cs⟩ => (.ok (some c), ⟨cs⟩)

instance : ChunkReader PlainChunks where
  readChunk := PlainChunks.readChunk
  remaining r := r.chunks.length
  remaining_lt {r r' c} h := by
    obtain ⟨cs⟩ := r
    cases cs with
    | nil => cases h
    | cons c' cs =>
        simp only [PlainChunks.readChunk, Prod.mk.injEq] at h
        rw [← h.2]
        exact Nat.lt_succ_self _

/-! ## The reader -/

/-- A source, and what was read of it and belongs to no message yet. -/
structure ProtocolReader (ρ : Type) where
  reader : ρ
  buffer : List UInt8

namespace ProtocolReader

variable {ρ : Type} (serde : SerdeJson)

/-- Nothing has been read. -/
def new (reader : ρ) : ProtocolReader ρ where
  reader := reader
  buffer := []

/-- The next message, with as many reads as it takes. -/
def receive [ChunkReader ρ] (r : ProtocolReader ρ) :
    Except Error (Option Message) × ProtocolReader ρ :=
  match Message.decode serde r.buffer with
  | .error e => (.error e, r)
  | .ok (some (msg, consumed)) => (.ok (some msg), { r with buffer := r.buffer.drop consumed })
  | .ok none =>
      match _h : ChunkReader.readChunk r.reader with
      | (.error e, reader) => (.error e, { r with reader := reader })
      | (.ok none, reader) => (.ok none, { r with reader := reader })
      | (.ok (some plaintext), reader) =>
          receive { reader := reader, buffer := r.buffer ++ plaintext }
termination_by ChunkReader.remaining r.reader
decreasing_by exact ChunkReader.remaining_lt _h

/-- Drain the complete messages that are already in the buffer, without a network read. -/
def receiveAllBuffered (r : ProtocolReader ρ) : List Message × ProtocolReader ρ :=
  match _h : Message.decode serde r.buffer with
  | .ok (some (msg, consumed)) =>
      let more := receiveAllBuffered { r with buffer := r.buffer.drop consumed }
      (msg :: more.1, more.2)
  | _ => ([], r)
termination_by r.buffer.length
decreasing_by
  have := Message.decode_consumed _h
  rw [List.length_drop]
  omega

end ProtocolReader

/-- The two calls a task makes on its reader. -/
inductive ReaderCall where
  | receive
  | receiveAllBuffered
  deriving DecidableEq, Repr

/-- The messages a sequence of calls delivers, up to the first `receive` that delivers none; the
outcome of that call, if there is one, is `Ok(None)` or an error. -/
def ProtocolReader.session {ρ : Type} [ChunkReader ρ] (serde : SerdeJson) :
    ProtocolReader ρ → List ReaderCall → List Message × Option (Except Error Unit)
  | _, [] => ([], none)
  | r, .receive :: calls =>
      match r.receive serde with
      | (.error e, _) => ([], some (.error e))
      | (.ok none, _) => ([], some (.ok ()))
      | (.ok (some msg), r') =>
          let later := session serde r' calls
          (msg :: later.1, later.2)
  | r, .receiveAllBuffered :: calls =>
      let drained := r.receiveAllBuffered serde
      let later := session serde drained.2 calls
      (drained.1 ++ later.1, later.2)

/-! ## The writer -/

/-- The encrypted connection that messages are written to. -/
structure ProtocolWriter where
  writer : SecureWriter

namespace ProtocolWriter

variable (serde : SerdeJson)

/-- A writer of a connection. -/
def new (writer : SecureWriter) : ProtocolWriter where
  writer := writer

/-- The message is encoded and written whole, and flushed. -/
def send (w : ProtocolWriter) (msg : Message) : Except Error ProtocolWriter :=
  (w.writer.writeAll (msg.encode serde)).map ProtocolWriter.mk

/-- Messages sent one after another on one connection. -/
def sendAll (w : ProtocolWriter) (msgs : List Message) : Except Error ProtocolWriter :=
  msgs.foldlM (send serde) w

end ProtocolWriter

end Bluecross
