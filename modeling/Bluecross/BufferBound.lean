/-
# Bluecross.BufferBound — how much a reader ever holds.

Nothing in `ProtocolReader` looks at the size of its buffer. That it stays bounded, whatever a peer
sends, comes from the order of things: a chunk is appended only to a buffer that `decode` has found
incomplete, `decode` refuses a length beyond `MAX_PAYLOAD` before it waits for the payload, and the
size of a frame is announced in 16 bits.

The bound is for every point of the execution and not only between calls. So `readerLoops` runs the two
loops pass by pass; a pass changes the buffer once at most. Its runs are the calls of the reader
(`passes_receive`, `passes_receiveAllBuffered`).
-/
import Bluecross.Wire
import Bluecross.Lib.Transition

namespace Bluecross

open Lib (LTS StreamDecoder)
open ChunkReader (readChunk)

/-- A frame of `n` bytes decrypts to `n - 16` bytes. -/
def TransportState.Exact (session : TransportState) : Prop :=
  ∀ n c p, session.readMessage n c = .ok p → p.length = c.length - TAG_LEN

/-- The bytes that a reader holds at most: a message short of its last byte, and a chunk. -/
def BUFFER_LIMIT : Nat := (HEADER_LEN - 1) + MAX_PAYLOAD + MAX_CHUNK

/-! ## The two loops, pass by pass -/

/-- A reader, and the call that is running on it. -/
structure ReaderRun where
  reader : ProtocolReader SecureReader
  running : Option ReaderCall

/-- The task that owns a reader calls it, or the call makes a pass. -/
inductive ReaderStep where
  | call (c : ReaderCall)
  /-- One pass of the loop of the call that is running. -/
  | pass
  deriving DecidableEq, Repr

/-- The two loops of a reader, one pass at a time; a call begins when none is running. -/
def readerLoops (serde : SerdeJson) : LTS ReaderRun ReaderStep where
  init s := s.reader.buffer = [] ∧ s.running = none
  next
    | ⟨r, none⟩, .call c => some ⟨r, some c⟩
    | ⟨r, some .receive⟩, .pass =>
        match Message.decode serde r.buffer with
        | .error _ => some ⟨r, none⟩
        | .ok (some (_, consumed)) => some ⟨{ r with buffer := r.buffer.drop consumed }, none⟩
        | .ok none =>
            match r.reader.readChunk with
            | (.ok (some plaintext), reader) =>
                some ⟨⟨reader, r.buffer ++ plaintext⟩, some .receive⟩
            | (_, reader) => some ⟨{ r with reader := reader }, none⟩
    | ⟨r, some .receiveAllBuffered⟩, .pass =>
        match Message.decode serde r.buffer with
        | .ok (some (_, consumed)) =>
            some ⟨{ r with buffer := r.buffer.drop consumed }, some .receiveAllBuffered⟩
        | _ => some ⟨r, none⟩
    | _, _ => none

section

variable {serde : SerdeJson}

/-- The loop of `receive` goes round. -/
theorem pass_chunk {r : ProtocolReader SecureReader} {plaintext : List UInt8} {reader : SecureReader}
    (hd : Message.decode serde r.buffer = .ok none)
    (hread : r.reader.readChunk = (.ok (some plaintext), reader)) :
    (readerLoops serde).next ⟨r, some .receive⟩ .pass =
      some ⟨⟨reader, r.buffer ++ plaintext⟩, some .receive⟩ := by
  simp only [readerLoops, hd, hread]

/-- The passes of a `receive` that is running come to an end, and leave what `receive` leaves. -/
theorem passes_receive (r : ProtocolReader SecureReader) :
    ∃ k, (readerLoops serde).Steps LTS.anyStep ⟨r, some .receive⟩ (List.replicate k .pass)
      ⟨(r.receive serde).2, none⟩ := by
  induction r using ProtocolReader.receive_induction (ρ := SecureReader) serde with
  | decided r hd =>
      refine ⟨1, .single trivial ?_⟩
      cases hdecode : Message.decode serde r.buffer with
      | error e => simp only [readerLoops, hdecode, ProtocolReader.receive_of_error hdecode]
      | ok answer =>
          cases answer with
          | none => exact absurd hdecode hd
          | some item =>
              obtain ⟨msg, consumed⟩ := item
              simp only [readerLoops, hdecode, ProtocolReader.receive_of_item hdecode]
  | error r e reader hd hread =>
      refine ⟨1, .single trivial ?_⟩
      have hchunk : r.reader.readChunk = (.error e, reader) := hread
      simp only [readerLoops, hd, hchunk, ProtocolReader.receive_of_readError hd hread]
  | eof r reader hd hread =>
      refine ⟨1, .single trivial ?_⟩
      have hchunk : r.reader.readChunk = (.ok none, reader) := hread
      simp only [readerLoops, hd, hchunk, ProtocolReader.receive_of_eof hd hread]
  | chunk r plaintext reader hd hread ih =>
      obtain ⟨k, hsteps⟩ := ih
      refine ⟨k + 1, ?_⟩
      rw [ProtocolReader.receive_of_chunk hd hread]
      exact .cons trivial (pass_chunk hd hread) hsteps

/-- So do the passes of a `receive_all_buffered`. -/
theorem passes_receiveAllBuffered (r : ProtocolReader SecureReader) :
    ∃ k, (readerLoops serde).Steps LTS.anyStep ⟨r, some .receiveAllBuffered⟩
      (List.replicate k .pass) ⟨(r.receiveAllBuffered serde).2, none⟩ := by
  rw [ProtocolReader.receiveAllBuffered_eq]
  obtain ⟨reader, buffer⟩ := r
  induction buffer using StreamDecoder.parse_induction (D := Message.decoder serde) with
  | failed data e h =>
      have hd : Message.decode serde data = .error e := h
      refine ⟨1, .single trivial ?_⟩
      simp only [readerLoops, hd, StreamDecoder.parse_of_error h]
  | stuck data h =>
      have hd : Message.decode serde data = .ok none := h
      refine ⟨1, .single trivial ?_⟩
      simp only [readerLoops, hd, StreamDecoder.parse_of_incomplete h]
  | item data a k h ih =>
      have hd : Message.decode serde data = .ok (some (a, k)) := h
      obtain ⟨n, hsteps⟩ := ih
      refine ⟨n + 1, ?_⟩
      rw [StreamDecoder.parse_of_item h]
      exact .cons trivial (by simp only [readerLoops, hd]) hsteps

end

/-! ## What is read and what is kept -/

/-- A buffer that is incomplete lacks a byte of its header or of a payload that fits. -/
theorem length_of_incomplete {serde : SerdeJson} {data : List UInt8}
    (h : Message.decode serde data = .ok none) : data.length ≤ (HEADER_LEN - 1) + MAX_PAYLOAD := by
  match data with
  | [] | [_] | [_, _] | [_, _, _] | [_, _, _, _] => simp [HEADER_LEN, MAX_PAYLOAD]
  | t :: b₁ :: b₂ :: b₃ :: b₄ :: rest =>
      simp only [Message.decode] at h
      split at h
      · cases h
      · rename_i hfits
        split at h
        · rename_i hshort
          simp only [HEADER_LEN] at hshort ⊢
          omega
        · split at h
          · cases h
          · split at h <;> cases h

/-- The size of a frame is announced in 16 bits. -/
theorem u16FromBeBytes_le (len : List UInt8) : u16FromBeBytes len ≤ MAX_NOISE_MSG := by
  unfold u16FromBeBytes MAX_NOISE_MSG
  split
  · rename_i b₁ b₂
    have h₁ := b₁.toNat_lt
    have h₂ := b₂.toNat_lt
    omega
  · omega

/-- A chunk that is read is no longer than one that may be written. -/
theorem length_of_chunk {r r' : SecureReader} {plaintext : List UInt8} (hexact : r.session.Exact)
    (h : r.readChunk = (.ok (some plaintext), r')) : plaintext.length ≤ MAX_CHUNK := by
  obtain ⟨len, ciphertext, _, _, hlength, _, hread, _⟩ := SecureReader.readChunk_some h
  rw [hexact _ _ _ hread, hlength]
  exact Nat.sub_le_sub_right (u16FromBeBytes_le len) TAG_LEN

/-- Reading leaves the session as it is, also when it fails. -/
theorem readChunk_session (r : SecureReader) : r.readChunk.2.session = r.session := by
  unfold SecureReader.readChunk
  split
  · rfl
  · rfl
  · simp only
    split
    · rfl
    · split
      · rfl
      · rfl
      · split <;> rfl

/-! ## The bound -/

/-- The session decrypts what it was sent, and the buffer is within its limit. -/
structure Bounded (r : ProtocolReader SecureReader) : Prop where
  exact : r.reader.session.Exact
  held : r.buffer.length ≤ BUFFER_LIMIT

namespace Bounded

variable {r : ProtocolReader SecureReader}

/-- Taking a message off the front. -/
theorem drop (h : Bounded r) (consumed : Nat) :
    Bounded { r with buffer := r.buffer.drop consumed } := by
  refine ⟨h.exact, ?_⟩
  have hheld := h.held
  simp only [List.length_drop]
  omega

/-- A read, whatever it finds. -/
theorem read (h : Bounded r) {answer : Except Error (Option (List UInt8))} {reader : SecureReader}
    (hread : r.reader.readChunk = (answer, reader)) : Bounded { r with reader := reader } := by
  have hsession := readChunk_session r.reader
  rw [hread] at hsession
  refine ⟨?_, h.held⟩
  rw [hsession]
  exact h.exact

/-- A chunk is appended only to a buffer that is incomplete. -/
theorem append {serde : SerdeJson} {plaintext : List UInt8} {reader : SecureReader} (h : Bounded r)
    (hd : Message.decode serde r.buffer = .ok none)
    (hread : r.reader.readChunk = (.ok (some plaintext), reader)) :
    Bounded ⟨reader, r.buffer ++ plaintext⟩ := by
  refine ⟨(h.read hread).exact, ?_⟩
  have hbuffer := length_of_incomplete hd
  have hchunk := length_of_chunk h.exact hread
  simp only [List.length_append, BUFFER_LIMIT]
  omega

end Bounded

theorem bounded_step (serde : SerdeJson) :
    (readerLoops serde).Preserves LTS.anyStep (fun s => Bounded s.reader) := by
  rintro ⟨r, running⟩ step s' h - hnext
  match running, step with
  | none, .call c =>
      cases hnext
      exact h
  | some .receive, .pass =>
      simp only [readerLoops] at hnext
      split at hnext
      · cases hnext
        exact h
      · cases hnext
        exact h.drop _
      · rename_i hd
        split at hnext
        · rename_i hread
          cases hnext
          exact h.append hd hread
        · rename_i hread
          cases hnext
          exact h.read hread
  | some .receiveAllBuffered, .pass =>
      simp only [readerLoops] at hnext
      split at hnext
      · cases hnext
        exact h.drop _
      · cases hnext
        exact h
  | none, .pass => cases hnext
  | some .receive, .call c => cases hnext
  | some .receiveAllBuffered, .call c => cases hnext

/-- Whatever the socket delivers and whatever calls are made, at every point the buffer holds at most
a message short of its last byte and a chunk. -/
theorem buffer_bounded (serde : SerdeJson) (socket : Socket) (session : TransportState) (n : Nat)
    (hexact : session.Exact) {steps : List ReaderStep} {s : ReaderRun}
    (h : (readerLoops serde).Steps LTS.anyStep
      ⟨ProtocolReader.new ⟨socket, session, n⟩, none⟩ steps s) :
    s.reader.buffer.length ≤ (HEADER_LEN - 1) + MAX_PAYLOAD + MAX_CHUNK := by
  have hstart : Bounded (ProtocolReader.new ⟨socket, session, n⟩) := ⟨hexact, Nat.zero_le _⟩
  exact (h.invariant (bounded_step serde) hstart).held

/-- A heartbeat has been read and is still in the buffer. -/
theorem buffer_bounded_heartbeat :
    ∃ s : ReaderRun, s.reader.buffer = Message.heartbeat.encode emptyObjectSerde ∧
      s.reader.buffer.length ≤ (HEADER_LEN - 1) + MAX_PAYLOAD + MAX_CHUNK := by
  have hexact : taggedSession.Exact := by
    intro n c p hread
    cases hread
    simp
  have hrun : (readerLoops emptyObjectSerde).exec
      ⟨ProtocolReader.new ⟨⟨heartbeatFrame, none⟩, taggedSession, 0⟩, none⟩ [.call .receive, .pass] =
        some ⟨⟨⟨⟨[], none⟩, taggedSession, 1⟩, Message.heartbeat.encode emptyObjectSerde⟩,
          some .receive⟩ := rfl
  exact ⟨_, rfl, buffer_bounded emptyObjectSerde ⟨heartbeatFrame, none⟩ taggedSession 0 hexact
    (LTS.steps_of_exec hrun (LTS.guarded_anyStep _ _))⟩

end Bluecross
