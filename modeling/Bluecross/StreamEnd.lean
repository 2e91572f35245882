/-
# Bluecross.StreamEnd — what the reader says when the stream breaks off.

The bytes of some messages are cut at any place, and the reader is asked until it delivers no further
message. What it says then is settled by where the cut falls among the frames, and not among the
messages: the length of a frame is read with a `read_exact` of its own, whose end of file counts as the
end of the stream, also when one of the two bytes was there; the ciphertext is read with another one,
whose end of file is an error. That a message is incomplete is not looked at.

So a stream ends cleanly at the ends of the frames and one byte after them (`ending_of_cut`). That is
the end of a message only when the cut is not one byte into a length, and not between two frames of
one message.
-/
import Bluecross.Wire

namespace Bluecross

open Lib (StreamDecoder chunks)
open ChunkReader (content readChunk)

/-! ## Frames and their ends -/

/-- The bytes of the frame of a plaintext: its length, and the ciphertext with its tag. -/
def frameSize (p : List UInt8) : Nat := 2 + (p.length + TAG_LEN)

/-- Where the first `k` frames end. -/
def frameEnd (ps : List (List UInt8)) (k : Nat) : Nat := ((ps.take k).map frameSize).sum

/-- The cut falls before the first byte or at the end of a frame that ends a message. -/
def AtMessageEnd (serde : SerdeJson) (msgs : List Message) (cut : Nat) : Prop :=
  ∃ j ≤ msgs.length, cut = ((plaintextWrites serde (msgs.take j)).map frameSize).sum

/-- The cut falls at the end of a frame or one byte after it. -/
def CleanCut (ps : List (List UInt8)) (cut : Nat) : Prop :=
  (∃ k ≤ ps.length, cut = frameEnd ps k) ∨ ∃ k < ps.length, cut = frameEnd ps k + 1

/-- The cut falls between the two bytes of the length of a frame. -/
def InLength (serde : SerdeJson) (msgs : List Message) (cut : Nat) : Prop :=
  ∃ k < (plaintextWrites serde msgs).length, cut = frameEnd (plaintextWrites serde msgs) k + 1

/-- The cut falls at the end of a frame that does not end a message. -/
def BetweenFrames (serde : SerdeJson) (msgs : List Message) (cut : Nat) : Prop :=
  (∃ k ≤ (plaintextWrites serde msgs).length, cut = frameEnd (plaintextWrites serde msgs) k) ∧
    ¬ AtMessageEnd serde msgs cut

section

variable {ps : List (List UInt8)} {p : List UInt8} {k k' : Nat}

@[simp]
theorem frameEnd_zero : frameEnd ps 0 = 0 := rfl

@[simp]
theorem frameEnd_succ : frameEnd (p :: ps) (k + 1) = frameSize p + frameEnd ps k := by
  simp [frameEnd]

/-- The clean cuts of some frames: short of a length, or past the first frame and clean there. -/
theorem cleanCut_cons {cut : Nat} :
    CleanCut (p :: ps) cut ↔ cut < 2 ∨ frameSize p ≤ cut ∧ CleanCut ps (cut - frameSize p) := by
  constructor
  · rintro (⟨k, hk, rfl⟩ | ⟨k, hk, rfl⟩)
    · cases k with
      | zero => exact Or.inl (by simp)
      | succ k =>
          refine Or.inr ⟨by simp, Or.inl ⟨k, by simpa using hk, ?_⟩⟩
          rw [frameEnd_succ]
          omega
    · cases k with
      | zero => exact Or.inl (by simp)
      | succ k =>
          rw [frameEnd_succ]
          refine Or.inr ⟨by omega, Or.inr ⟨k, by simpa using hk, ?_⟩⟩
          omega
  · rintro (hshort | ⟨hpast, ⟨k, hk, hcut⟩ | ⟨k, hk, hcut⟩⟩)
    · rcases Nat.lt_or_ge cut 1 with hzero | hone
      · refine Or.inl ⟨0, Nat.zero_le _, ?_⟩
        rw [frameEnd_zero]
        omega
      · refine Or.inr ⟨0, by simp, ?_⟩
        rw [frameEnd_zero]
        omega
    · refine Or.inl ⟨k + 1, by simpa using hk, ?_⟩
      rw [frameEnd_succ]
      omega
    · refine Or.inr ⟨k + 1, by simpa using hk, ?_⟩
      rw [frameEnd_succ]
      omega

/-- A later frame ends at least a tag and a length later. -/
theorem frameEnd_spaced (hk : k < k') (hk' : k' ≤ ps.length) :
    frameEnd ps k + 18 ≤ frameEnd ps k' := by
  induction ps generalizing k k' with
  | nil => simp at hk'; omega
  | cons p ps ih =>
      cases k' with
      | zero => omega
      | succ k' =>
          rw [frameEnd_succ]
          cases k with
          | zero =>
              simp only [frameEnd_zero, frameSize, TAG_LEN]
              omega
          | succ k =>
              have hrest : frameEnd ps k + 18 ≤ frameEnd ps k' := ih (by omega) (by simpa using hk')
              rw [frameEnd_succ]
              omega

end

/-! ## A receiver that looks at the length -/

/-- The session that also checks that a plaintext is a tag shorter than its ciphertext. -/
def TransportState.checked (session : TransportState) : TransportState where
  writeMessage := session.writeMessage
  readMessage n c :=
    match session.readMessage n c with
    | .ok p => if c.length = p.length + TAG_LEN then .ok p else .error "decrypt error"
    | .error e => .error e
  read_length {n c p} h := by
    cases hread : session.readMessage n c with
    | error e =>
        rw [hread] at h
        cases h
    | ok q =>
        simp only [hread] at h
        split at h
        · cases h
          omega
        · cases h

theorem readMessage_checked {session : TransportState} {n : Nat} {c p : List UInt8} :
    session.checked.readMessage n c = .ok p ↔
      session.readMessage n c = .ok p ∧ c.length = p.length + TAG_LEN := by
  unfold TransportState.checked
  cases hread : session.readMessage n c with
  | error e => simp [hread]
  | ok q =>
      simp only [hread]
      split
      · rename_i hlength
        constructor
        · intro h
          cases h
          exact ⟨rfl, hlength⟩
        · intro h
          exact h.1
      · rename_i hlength
        refine ⟨nofun, ?_⟩
        rintro ⟨h, hlength'⟩
        cases h
        exact absurd hlength' hlength

/-- What a sender writes passes the check. -/
theorem InOrder.checked {sender receiver : TransportState} (h : InOrder sender receiver) :
    InOrder sender receiver.checked := by
  intro n p hp
  obtain ⟨c, hwrite, hlength, hread⟩ := h n p hp
  exact ⟨c, hwrite, hlength, readMessage_checked.mpr ⟨hread, hlength⟩⟩

/-! ## A stream that is cut -/

section

variable {receiver : TransportState} {n cut : Nat} {c p more : List UInt8}

theorem length_frame (h : c.length = p.length + TAG_LEN) : (frame c).length = frameSize p := by
  simp [frame, frameSize, h]

/-- The frames are as long as their plaintexts say. -/
theorem length_of_carries {ps cs : List (List UInt8)} (h : Carries receiver.checked n ps cs) :
    (cs.flatMap frame).length = (ps.map frameSize).sum := by
  induction h with
  | nil n => rfl
  | cons hc hp _ ih =>
      rw [List.flatMap_cons, List.length_append, length_frame (readMessage_checked.mp hp).2, ih,
        List.map_cons, List.sum_cons]

/-- Not even a length: the end of the stream, whether a byte is there or not. -/
theorem readChunk_short {bytes : List UInt8} (h : bytes.length < 2) :
    readChunk (SecureReader.mk ⟨bytes, none⟩ receiver n) =
      (.ok none, SecureReader.mk ⟨[], none⟩ receiver n) := by
  have hshort : ¬ 2 ≤ bytes.length := by omega
  show SecureReader.readChunk _ = _
  simp only [SecureReader.readChunk, Socket.readExact, hshort, if_false]

/-- A length, and not all of the ciphertext. -/
theorem readChunk_cut (hc : FrameExact c) (hthere : 2 ≤ cut) (hcut : cut < (frame c).length) :
    readChunk (SecureReader.mk ⟨(frame c ++ more).take cut, none⟩ receiver n) =
      (.error "early eof", SecureReader.mk ⟨[], none⟩ receiver n) := by
  obtain ⟨hne, hexact⟩ := hc
  have hpos : c.length ≠ 0 := fun h => hne (List.length_eq_zero_iff.mp h)
  have hlength : (frame c).length = 2 + c.length := by simp [frame]
  have hbytes : (frame c ++ more).take cut =
      u16ToBeBytes (UInt16.ofNat c.length) ++ c.take (cut - 2) := by
    rw [List.take_append_of_le_length (by omega), frame, List.take_append, length_u16ToBeBytes,
      List.take_of_length_le (by simpa using hthere)]
  have hshort : ¬ c.length ≤ (c.take (cut - 2)).length := by
    rw [List.length_take]
    omega
  have hlen : Socket.readExact ⟨(frame c ++ more).take cut, none⟩ 2 =
      (.filled (u16ToBeBytes (UInt16.ofNat c.length)), ⟨c.take (cut - 2), none⟩) := by
    rw [hbytes]
    have hle : 2 ≤ (u16ToBeBytes (UInt16.ofNat c.length) ++ c.take (cut - 2)).length := by
      simp
    simp only [Socket.readExact, hle, if_true]
    rfl
  show SecureReader.readChunk _ = _
  simp only [SecureReader.readChunk, hlen, u16FromBeBytes_toBeBytes, hexact, hpos, if_false]
  simp only [Socket.readExact, hshort, if_false]

theorem content_short {bytes : List UInt8} (hcut : cut < 2) :
    content (SecureReader.mk ⟨bytes.take cut, none⟩ receiver n) = ([], none) := by
  have hshort : (bytes.take cut).length < 2 := by
    rw [List.length_take]
    omega
  exact content_of_eof (readChunk_short hshort)

/-- The first frame is there, and the rest is cut. -/
theorem content_past (hc : FrameExact c) (hp : receiver.readMessage n c = .ok p)
    (hcut : (frame c).length ≤ cut) :
    content (SecureReader.mk ⟨(frame c ++ more).take cut, none⟩ receiver n) =
      (p ++ (content (SecureReader.mk ⟨more.take (cut - (frame c).length), none⟩ receiver (n + 1))).1,
        (content (SecureReader.mk ⟨more.take (cut - (frame c).length), none⟩ receiver (n + 1))).2) := by
  rw [List.take_append, List.take_of_length_le hcut]
  exact content_of_chunk (readChunk_frame hc hp)

/-- What is decrypted of a stream that is cut is a prefix of what was written. -/
theorem content_of_cut {ps cs : List (List UInt8)} (h : Carries receiver.checked n ps cs)
    (cut : Nat) :
    (content (SecureReader.mk ⟨(cs.flatMap frame).take cut, none⟩ receiver n)).1 <+: ps.flatten := by
  induction h generalizing cut with
  | nil n =>
      have hnone : content (SecureReader.mk ⟨[], none⟩ receiver n) = ([], none) :=
        content_of_eof (readChunk_short (by decide))
      rw [List.flatMap_nil, List.take_nil, hnone]
      exact List.nil_prefix
  | @cons n p c ps cs hc hp _ ih =>
      obtain ⟨hread, _⟩ := readMessage_checked.mp hp
      rw [List.flatMap_cons, List.flatten_cons]
      rcases Nat.lt_or_ge cut 2 with hshort | hthere
      · rw [content_short hshort]
        exact List.nil_prefix
      · rcases Nat.lt_or_ge cut (frame c).length with hinside | hpast
        · rw [content_of_error (readChunk_cut hc hthere hinside)]
          exact List.nil_prefix
        · rw [content_past hc hread hpast]
          exact (List.prefix_append_right_inj p).mpr (ih _)

/-- The stream ends cleanly at the end of a frame and one byte after it. -/
theorem ending_of_cut {ps cs : List (List UInt8)} (h : Carries receiver.checked n ps cs)
    (hcut : cut ≤ (cs.flatMap frame).length) :
    (content (SecureReader.mk ⟨(cs.flatMap frame).take cut, none⟩ receiver n)).2 = none ↔
      CleanCut ps cut := by
  induction h generalizing cut with
  | nil n =>
      have hzero : cut = 0 := by simpa using hcut
      rw [hzero, content_short (by decide)]
      exact iff_of_true rfl (Or.inl ⟨0, Nat.le_refl _, rfl⟩)
  | @cons n p c ps cs hc hp _ ih =>
      obtain ⟨hread, hlength⟩ := readMessage_checked.mp hp
      have hframe := length_frame hlength
      rw [List.flatMap_cons, List.length_append] at hcut
      rw [List.flatMap_cons, cleanCut_cons, ← hframe]
      rcases Nat.lt_or_ge cut 2 with hshort | hthere
      · rw [content_short hshort]
        exact iff_of_true rfl (Or.inl hshort)
      · rcases Nat.lt_or_ge cut (frame c).length with hinside | hpast
        · rw [content_of_error (readChunk_cut hc hthere hinside)]
          refine iff_of_false nofun ?_
          omega
        · rw [content_past hc hread hpast]
          simp only
          rw [ih (by omega)]
          have hlate : ¬ cut < 2 := by omega
          simp only [hlate, hpast, false_or, true_and]

end

/-! ## Messages and frames -/

section

variable {serde : SerdeJson} {msgs : List Message} {cut : Nat}

/-- A message ends where a frame ends. -/
theorem AtMessageEnd.atFrameEnd (h : AtMessageEnd serde msgs cut) :
    ∃ k ≤ (plaintextWrites serde msgs).length,
      cut = frameEnd (plaintextWrites serde msgs) k := by
  obtain ⟨j, _, rfl⟩ := h
  have hsplit : plaintextWrites serde msgs =
      plaintextWrites serde (msgs.take j) ++ plaintextWrites serde (msgs.drop j) := by
    unfold plaintextWrites
    rw [← List.flatMap_append, List.take_append_drop]
  refine ⟨(plaintextWrites serde (msgs.take j)).length, ?_, ?_⟩
  · rw [hsplit, List.length_append]
    omega
  · rw [frameEnd, hsplit, List.take_left]

/-- No message ends one byte into a length. -/
theorem not_atMessageEnd_of_inLength (h : InLength serde msgs cut) : ¬ AtMessageEnd serde msgs cut := by
  intro hend
  obtain ⟨k, hk, rfl⟩ := h
  obtain ⟨k', hk', hsame⟩ := hend.atFrameEnd
  rcases Nat.lt_trichotomy k k' with hlt | rfl | hlt
  · have := frameEnd_spaced hlt hk'
    omega
  · omega
  · have := frameEnd_spaced hlt (Nat.le_of_lt hk)
    omega

/-- The clean cuts are the message ends exactly when the cut is none of the other clean ones. -/
theorem cleanCut_iff_atMessageEnd :
    (CleanCut (plaintextWrites serde msgs) cut ↔ AtMessageEnd serde msgs cut) ↔
      ¬ InLength serde msgs cut ∧ ¬ BetweenFrames serde msgs cut := by
  constructor
  · intro h
    refine ⟨?_, ?_⟩
    · intro hlength
      exact not_atMessageEnd_of_inLength hlength (h.mp (Or.inr hlength))
    · rintro ⟨hframe, hno⟩
      exact hno (h.mp (Or.inl hframe))
  · rintro ⟨hlength, hbetween⟩
    constructor
    · rintro (hframe | hin)
      · by_contra hno
        exact hbetween ⟨hframe, hno⟩
      · exact absurd hin hlength
    · intro hend
      exact Or.inl hend.atFrameEnd

end

/-! ## How the reader ends -/

namespace ProtocolReader

variable {ρ : Type} [ChunkReader ρ] {serde : SerdeJson} {r : ProtocolReader ρ}

/-- `receive`, called until it delivers no message, ends with this. -/
def Ends (serde : SerdeJson) (r : ProtocolReader ρ) (o : Except Error Unit) : Prop :=
  ∃ m, (r.session serde (List.replicate m .receive)).2 = some o

/-- It comes to an end, and ends with the outcome of what is pending. -/
theorem ends_iff {o : Except Error Unit} : r.Ends serde o ↔ o = r.outcome serde := by
  constructor
  · rintro ⟨m, hstop⟩
    exact ((session_spec _ r).2 o hstop).2
  · rintro rfl
    refine ⟨((Message.decoder serde).parse r.pending).items.length + 1, ?_⟩
    have hstops := @session_stops ρ _ serde
      (List.replicate (((Message.decoder serde).parse r.pending).items.length + 1) .receive) r
      (by simp)
    obtain ⟨o, ho⟩ := Option.ne_none_iff_exists'.mp hstops
    rw [ho, ((session_spec _ r).2 o ho).2]

end ProtocolReader

/-- Sent messages, cut anywhere: the reader ends cleanly at the clean cuts of their frames. -/
theorem outcome_of_cut (serde : SerdeJson) {sender receiver : TransportState} (n : Nat)
    {msgs : List Message} (hsession : InOrder sender receiver)
    (hmsgs : ∀ msg ∈ msgs, Sendable serde msg) :
    ∃ w, (ProtocolWriter.new ⟨[], sender, n⟩).sendAll serde msgs = .ok w ∧
      w.writer.writer.length = ((plaintextWrites serde msgs).map frameSize).sum ∧
      ∀ cut ≤ w.writer.writer.length,
        (ProtocolReader.new (SecureReader.mk ⟨w.writer.writer.take cut, none⟩ receiver n)).outcome
            serde = .ok () ↔ CleanCut (plaintextWrites serde msgs) cut := by
  obtain ⟨w, hsend, cs, hcarries, hbytes, _, _⟩ :=
    @sendAll_wrote serde receiver.checked (ProtocolWriter.new ⟨[], sender, n⟩) msgs hsession.checked
  have hframes : Carries receiver.checked n (plaintextWrites serde msgs) cs := hcarries
  have hwire : w.writer.writer = cs.flatMap frame := by
    rw [hbytes]
    rfl
  refine ⟨w, hsend, ?_, ?_⟩
  · rw [hwire]
    exact length_of_carries hframes
  intro cut hcut
  rw [hwire] at hcut ⊢
  rw [← ending_of_cut hframes hcut]
  obtain ⟨more, hmore⟩ := content_of_cut hframes cut
  rw [flatten_plaintextWrites] at hmore
  -- no prefix of these messages fails to parse, so the source decides
  have hparse : ((Message.decoder serde).parse
      (content (SecureReader.mk ⟨(cs.flatMap frame).take cut, none⟩ receiver n)).1).error = none := by
    apply StreamDecoder.error_of_prefix
    rw [hmore, parse_sent hmsgs]
  simp only [ProtocolReader.outcome, ProtocolReader.pending, ProtocolReader.ending,
    ProtocolReader.new, List.nil_append, hparse]
  cases (content (SecureReader.mk ⟨(cs.flatMap frame).take cut, none⟩ receiver n)).2 <;> simp

/-- The stream ends as it should, cleanly at the end of a message and in an error elsewhere, unless it
is cut in the length of a frame or between two frames of one message. -/
theorem ends_at_message_iff (serde : SerdeJson) (sender receiver : TransportState) (n : Nat)
    (msgs : List Message) (hsession : InOrder sender receiver)
    (hmsgs : ∀ msg ∈ msgs, Sendable serde msg) :
    ∃ w, (ProtocolWriter.new ⟨[], sender, n⟩).sendAll serde msgs = .ok w ∧
      w.writer.writer.length = ((plaintextWrites serde msgs).map frameSize).sum ∧
      ∀ cut ≤ w.writer.writer.length,
        let r := ProtocolReader.new (SecureReader.mk ⟨w.writer.writer.take cut, none⟩ receiver n)
        (∃ o, r.Ends serde o ∧ (o = .ok () ↔ AtMessageEnd serde msgs cut)) ↔
          ¬ InLength serde msgs cut ∧ ¬ BetweenFrames serde msgs cut := by
  obtain ⟨w, hsend, hlength, hcuts⟩ := outcome_of_cut serde n hsession hmsgs
  refine ⟨w, hsend, hlength, ?_⟩
  intro cut hcut r
  simp only [ProtocolReader.ends_iff, exists_eq_left]
  rw [hcuts cut hcut]
  exact cleanCut_iff_atMessageEnd

/-- A heartbeat is one frame. -/
theorem plaintextWrites_heartbeat :
    plaintextWrites emptyObjectSerde [Message.heartbeat] =
      [Message.heartbeat.encode emptyObjectSerde] := by
  have hone : chunks MAX_CHUNK (Message.heartbeat.encode emptyObjectSerde) =
      [Message.heartbeat.encode emptyObjectSerde] := by
    rw [Lib.chunks_of_ne_nil (by decide) (by decide), List.take_of_length_le (by decide),
      List.drop_of_length_le (by decide), Lib.chunks_nil]
  rw [plaintextWrites, List.flatMap_cons, hone]
  rfl

theorem sendable_heartbeat : ∀ msg ∈ [Message.heartbeat], Sendable emptyObjectSerde msg := by
  intro msg hmsg
  rw [List.mem_singleton.mp hmsg]
  exact ⟨rfl, by decide⟩

/-- A heartbeat over a tagged session, cut after its first byte: the stream ends as cleanly as if
nothing had been sent. -/
theorem cut_in_length_is_clean :
    ∃ w, (ProtocolWriter.new ⟨[], taggedSession, 0⟩).sendAll emptyObjectSerde [Message.heartbeat] =
        .ok w ∧
      1 ≤ w.writer.writer.length ∧
      (ProtocolReader.new (SecureReader.mk ⟨w.writer.writer.take 1, none⟩ taggedSession 0)).Ends
        emptyObjectSerde (.ok ()) ∧
      ¬ AtMessageEnd emptyObjectSerde [Message.heartbeat] 1 := by
  obtain ⟨w, hsend, hlength, hcuts⟩ :=
    outcome_of_cut emptyObjectSerde 0 inOrder_taggedSession sendable_heartbeat
  have hthere : 1 ≤ w.writer.writer.length := by
    rw [hlength, plaintextWrites_heartbeat]
    decide
  have hin : InLength emptyObjectSerde [Message.heartbeat] 1 := by
    rw [InLength, plaintextWrites_heartbeat]
    exact ⟨0, by decide, rfl⟩
  refine ⟨w, hsend, hthere, ?_, not_atMessageEnd_of_inLength hin⟩
  rw [ProtocolReader.ends_iff]
  exact ((hcuts 1 hthere).mpr (Or.inr hin)).symm

/-- The same heartbeat, cut in its ciphertext. -/
theorem ends_at_message_iff_heartbeat :
    ∃ w, (ProtocolWriter.new ⟨[], taggedSession, 0⟩).sendAll emptyObjectSerde [Message.heartbeat] =
        .ok w ∧
      ∃ o, (ProtocolReader.new (SecureReader.mk ⟨w.writer.writer.take 7, none⟩ taggedSession 0)).Ends
          emptyObjectSerde o ∧
        (o = .ok () ↔ AtMessageEnd emptyObjectSerde [Message.heartbeat] 7) := by
  obtain ⟨w, hsend, hlength, hcuts⟩ := ends_at_message_iff emptyObjectSerde taggedSession
    taggedSession 0 [Message.heartbeat] inOrder_taggedSession sendable_heartbeat
  refine ⟨w, hsend, (hcuts 7 ?_).mpr ⟨?_, ?_⟩⟩
  · rw [hlength, plaintextWrites_heartbeat]
    decide
  · rw [InLength, plaintextWrites_heartbeat]
    rintro ⟨k, hk, hcut⟩
    have hzero : k = 0 := by simpa using hk
    subst hzero
    cases hcut
  · rintro ⟨⟨k, hk, hcut⟩, -⟩
    rw [plaintextWrites_heartbeat] at hk hcut
    have hone : k = 0 ∨ k = 1 := by
      simp only [List.length_singleton] at hk
      omega
    rcases hone with rfl | rfl <;> cases hcut

end Bluecross
