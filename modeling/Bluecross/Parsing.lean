/-
# Bluecross.Parsing — what a reader delivers does not depend on how the bytes are cut.

`ChunkReader.content` is everything a source still delivers, put together, with the error it ends
in. A reader's *pending* input is its buffer followed by that content. Each call on the reader is
then a step of the reference parser on the pending input: `receive` takes its first message, or
reports the error at its front, or reaches the end (`receive_item`, `receive_failed`,
`receive_stuck`), and `receiveAllBuffered` takes some of its first messages (`drain_parse`). No call
changes the input that is still to be parsed except by the messages it delivers, so any interleaving
of calls over any chunks delivers the messages of the reference parser.
-/
import Bluecross.Transport

namespace Bluecross

open Lib (StreamDecoder Parsed)

/-! ## The content of a source -/

section Content

variable {ρ : Type} [ChunkReader ρ]

/-- Everything the source still delivers, and the error it ends in, if it is not the end of the
stream. -/
def ChunkReader.content (r : ρ) : List UInt8 × Option Error :=
  match _h : ChunkReader.readChunk r with
  | (.error e, _) => ([], some e)
  | (.ok none, _) => ([], none)
  | (.ok (some c), r') => (c ++ (content r').1, (content r').2)
termination_by ChunkReader.remaining r
decreasing_by all_goals exact ChunkReader.remaining_lt _h

open ChunkReader (content readChunk)

theorem content_of_error {r r' : ρ} {e : Error} (h : readChunk r = (.error e, r')) :
    content r = ([], some e) := by
  rw [content]
  split <;> simp_all

theorem content_of_eof {r r' : ρ} (h : readChunk r = (.ok none, r')) :
    content r = ([], none) := by
  rw [content]
  split <;> simp_all

theorem content_of_chunk {r r' : ρ} {c : List UInt8} (h : readChunk r = (.ok (some c), r')) :
    content r = (c ++ (content r').1, (content r').2) := by
  rw [content]
  split <;> simp_all

theorem content_plainChunks (cs : List (List UInt8)) :
    content (PlainChunks.mk cs) = (cs.flatten, none) := by
  induction cs with
  | nil =>
      have hread : readChunk (PlainChunks.mk []) = (.ok none, ⟨[]⟩) := rfl
      exact content_of_eof hread
  | cons c cs ih =>
      have hread : readChunk (PlainChunks.mk (c :: cs)) = (.ok (some c), ⟨cs⟩) := rfl
      rw [content_of_chunk hread, ih, List.flatten_cons]

end Content

/-! ## One call -/

namespace ProtocolReader

open ChunkReader (content readChunk)

variable {ρ : Type} [ChunkReader ρ] {serde : SerdeJson}

/-- The input that is still to be parsed: the buffer, and what the source still delivers. -/
def pending (r : ProtocolReader ρ) : List UInt8 := r.buffer ++ (content r.reader).1

/-- How the source ends. -/
def ending (r : ProtocolReader ρ) : Option Error := (content r.reader).2

theorem receive_of_error {r : ProtocolReader ρ} {e : Error}
    (h : Message.decode serde r.buffer = .error e) : r.receive serde = (.error e, r) := by
  rw [receive, h]

theorem receive_of_item {r : ProtocolReader ρ} {msg : Message} {k : Nat}
    (h : Message.decode serde r.buffer = .ok (some (msg, k))) :
    r.receive serde = (.ok (some msg), { r with buffer := r.buffer.drop k }) := by
  rw [receive, h]

theorem receive_of_readError {r : ProtocolReader ρ} {e : Error} {reader : ρ}
    (h : Message.decode serde r.buffer = .ok none) (hread : readChunk r.reader = (.error e, reader)) :
    r.receive serde = (.error e, { r with reader := reader }) := by
  rw [receive, h]
  simp only
  split <;> simp_all

theorem receive_of_eof {r : ProtocolReader ρ} {reader : ρ}
    (h : Message.decode serde r.buffer = .ok none) (hread : readChunk r.reader = (.ok none, reader)) :
    r.receive serde = (.ok none, { r with reader := reader }) := by
  rw [receive, h]
  simp only
  split <;> simp_all

theorem receive_of_chunk {r : ProtocolReader ρ} {c : List UInt8} {reader : ρ}
    (h : Message.decode serde r.buffer = .ok none)
    (hread : readChunk r.reader = (.ok (some c), reader)) :
    r.receive serde = receive serde { reader := reader, buffer := r.buffer ++ c } := by
  rw [receive, h]
  simp only
  split <;> simp_all

/-- Reading a chunk moves it from the source to the buffer: the pending input is the same. -/
theorem pending_of_chunk {r : ProtocolReader ρ} {c : List UInt8} {reader : ρ}
    (hread : readChunk r.reader = (.ok (some c), reader)) :
    pending { reader := reader, buffer := r.buffer ++ c } = r.pending ∧
      ending { reader := reader, buffer := r.buffer ++ c } = r.ending := by
  simp only [pending, ending, content_of_chunk hread, List.append_assoc, and_self]

/-- Induction along the reads of `receive`: the buffer decides, or the source is read and ends, or
a chunk is read and the loop goes round. -/
theorem receive_induction (serde : SerdeJson) {motive : ProtocolReader ρ → Prop}
    (decided : ∀ r, Message.decode serde r.buffer ≠ .ok none → motive r)
    (error : ∀ r e reader, Message.decode serde r.buffer = .ok none →
      readChunk r.reader = (.error e, reader) → motive r)
    (eof : ∀ r reader, Message.decode serde r.buffer = .ok none →
      readChunk r.reader = (.ok none, reader) → motive r)
    (chunk : ∀ r c reader, Message.decode serde r.buffer = .ok none →
      readChunk r.reader = (.ok (some c), reader) →
      motive { reader := reader, buffer := r.buffer ++ c } → motive r)
    (r : ProtocolReader ρ) : motive r := by
  induction hn : ChunkReader.remaining r.reader using Nat.strongRecOn generalizing r with
  | _ n ih =>
      subst hn
      by_cases hd : Message.decode serde r.buffer = .ok none
      · match hread : readChunk r.reader with
        | (.error e, reader) => exact error r e reader hd hread
        | (.ok none, reader) => exact eof r reader hd hread
        | (.ok (some c), reader) =>
            exact chunk r c reader hd hread (ih _ (ChunkReader.remaining_lt hread) _ rfl)
      · exact decided r hd

/-- An answer of `decode` on the buffer is its answer on the whole pending input. -/
theorem decode_pending {r : ProtocolReader ρ} (h : Message.decode serde r.buffer ≠ .ok none) :
    Message.decode serde r.pending = Message.decode serde r.buffer :=
  Message.decode_append _ h

/-- `receive` takes the message at the front of the pending input. -/
theorem receive_item {r : ProtocolReader ρ} {msg : Message} {k : Nat}
    (h : Message.decode serde r.pending = .ok (some (msg, k))) :
    ∃ r', r.receive serde = (.ok (some msg), r') ∧ r'.pending = r.pending.drop k ∧
      r'.ending = r.ending := by
  induction r using receive_induction (ρ := ρ) serde with
  | decided r hd =>
      rw [decode_pending hd] at h
      refine ⟨_, receive_of_item h, ?_, rfl⟩
      have hk := (Message.decode_consumed h).2
      exact (List.drop_append_of_le_length hk).symm
  | error r e reader hd hread =>
      rw [pending, content_of_error hread, List.append_nil, hd] at h
      cases h
  | eof r reader hd hread =>
      rw [pending, content_of_eof hread, List.append_nil, hd] at h
      cases h
  | chunk r c reader hd hread ih =>
      obtain ⟨hp, he⟩ := pending_of_chunk hread
      rw [receive_of_chunk hd hread, ← hp, ← he]
      exact ih (by rw [hp]; exact h)

/-- `receive` reports the error at the front of the pending input, and reports it again. -/
theorem receive_failed {r : ProtocolReader ρ} {e : Error}
    (h : Message.decode serde r.pending = .error e) :
    ∃ r', r.receive serde = (.error e, r') ∧ Message.decode serde r'.buffer = .error e := by
  induction r using receive_induction (ρ := ρ) serde with
  | decided r hd =>
      rw [decode_pending hd] at h
      exact ⟨r, receive_of_error h, h⟩
  | error r e' reader hd hread =>
      rw [pending, content_of_error hread, List.append_nil, hd] at h
      cases h
  | eof r reader hd hread =>
      rw [pending, content_of_eof hread, List.append_nil, hd] at h
      cases h
  | chunk r c reader hd hread ih =>
      rw [receive_of_chunk hd hread]
      exact ih (by rw [(pending_of_chunk hread).1]; exact h)

/-- Without a message or an error at the front, `receive` reads the source to its end. -/
theorem receive_stuck {r : ProtocolReader ρ} (h : Message.decode serde r.pending = .ok none) :
    (r.receive serde).1 = match r.ending with
      | none => .ok none
      | some e => .error e := by
  induction r using receive_induction (ρ := ρ) serde with
  | decided r hd => rw [decode_pending hd] at h; exact absurd h hd
  | error r e reader hd hread =>
      rw [receive_of_readError hd hread, ending, content_of_error hread]
  | eof r reader hd hread => rw [receive_of_eof hd hread, ending, content_of_eof hread]
  | chunk r c reader hd hread ih =>
      obtain ⟨hp, he⟩ := pending_of_chunk hread
      rw [receive_of_chunk hd hread, ← he]
      exact ih (by rw [hp]; exact h)

omit [ChunkReader ρ] in
/-- `receiveAllBuffered` delivers the messages of the buffer and leaves what they leave. -/
theorem receiveAllBuffered_eq (r : ProtocolReader ρ) :
    r.receiveAllBuffered serde = (((Message.decoder serde).parse r.buffer).items,
      { r with buffer := ((Message.decoder serde).parse r.buffer).rest }) := by
  obtain ⟨reader, buffer⟩ := r
  induction buffer using StreamDecoder.parse_induction (D := Message.decoder serde) with
  | failed data e h =>
      have hd : Message.decode serde data = .error e := h
      rw [StreamDecoder.parse_of_error h, receiveAllBuffered]
      split <;> simp_all
  | stuck data h =>
      have hd : Message.decode serde data = .ok none := h
      rw [StreamDecoder.parse_of_incomplete h, receiveAllBuffered]
      split <;> simp_all
  | item data a k h ih =>
      have hd : Message.decode serde data = .ok (some (a, k)) := h
      rw [StreamDecoder.parse_of_item h, receiveAllBuffered]
      split
      · rename_i msg consumed hd'
        rw [show Message.decode serde data = .ok (some (msg, consumed)) from hd'] at hd
        cases hd
        simp only [ih]
      · rename_i hno
        exact absurd hd (hno a k)

/-- An error that stops `receiveAllBuffered` is reported by the next `receive`, and no call moves
past it. -/
theorem drain_error {r : ProtocolReader ρ} {e : Error}
    (h : Message.decode serde (r.receiveAllBuffered serde).2.buffer = .error e) :
    (r.receiveAllBuffered serde).2.receive serde = (.error e, (r.receiveAllBuffered serde).2) ∧
      (r.receiveAllBuffered serde).2.receiveAllBuffered serde
        = ([], (r.receiveAllBuffered serde).2) := by
  refine ⟨receive_of_error h, ?_⟩
  rw [receiveAllBuffered_eq (r.receiveAllBuffered serde).2, receiveAllBuffered_eq r]
  have hrest := StreamDecoder.parse_rest (D := Message.decoder serde) r.buffer
  simp only [hrest]

/-- Draining the buffer delivers the first messages of the pending input and leaves the others. -/
theorem drain_parse (r : ProtocolReader ρ) :
    let d := r.receiveAllBuffered serde
    let P := (Message.decoder serde).parse r.pending
    let Q := (Message.decoder serde).parse d.2.pending
    P.items = d.1 ++ Q.items ∧ P.error = Q.error ∧ d.2.ending = r.ending := by
  rw [receiveAllBuffered_eq]
  simp only [pending, ending, and_true]
  cases he : ((Message.decoder serde).parse r.buffer).error with
  | none =>
      rw [StreamDecoder.parse_append_of_stuck _ _ he]
      exact ⟨rfl, rfl⟩
  -- the error is in the buffer already, and nothing behind it is looked at
  | some e =>
      have hrest := StreamDecoder.parse_rest (D := Message.decoder serde) r.buffer
      rw [StreamDecoder.parse_append_of_failed _ _ he]
      rw [StreamDecoder.parse_append_of_failed _ _ (e := e) (by rw [hrest, he])]
      rw [hrest, List.append_nil]
      exact ⟨rfl, rfl⟩

end ProtocolReader

/-! ## Any interleaving of calls -/

/-- The reference parser: `Message::decode` applied again and again to the whole input, which ends
in an error or, when no further message can be taken, in `Ok(None)`. -/
def referenceParse (serde : SerdeJson) (input : List UInt8) : List Message × Except Error Unit :=
  let P := (Message.decoder serde).parse input
  (P.items, match P.error with
    | none => .ok ()
    | some e => .error e)

namespace ProtocolReader

variable {ρ : Type} [ChunkReader ρ] {serde : SerdeJson}

/-- The outcome of the `receive` that delivers no message: the parse error of the input, or else
the way the source ends. -/
def outcome (serde : SerdeJson) (r : ProtocolReader ρ) : Except Error Unit :=
  match ((Message.decoder serde).parse r.pending).error with
  | some e => .error e
  | none => match r.ending with
    | none => .ok ()
    | some e => .error e

/-- The three answers of `receive`, in terms of the parse of the pending input. -/
theorem receive_parse (r : ProtocolReader ρ) :
    (∃ msg r', r.receive serde = (.ok (some msg), r') ∧
        ((Message.decoder serde).parse r.pending).items
          = msg :: ((Message.decoder serde).parse r'.pending).items ∧
        r'.outcome serde = r.outcome serde) ∨
      (((Message.decoder serde).parse r.pending).items = [] ∧
        (r.receive serde).1 = (r.outcome serde).map fun _ => none) := by
  cases hd : (Message.decoder serde).decode r.pending with
  | error e =>
      -- an error at the front of the pending input is what `receive` answers
      obtain ⟨r', hr, _⟩ := receive_failed (show Message.decode serde r.pending = .error e from hd)
      right
      simp only [outcome, StreamDecoder.parse_of_error hd, hr, true_and]
      rfl
  | ok answer =>
      cases answer with
      | none =>
          right
          -- nothing complete is pending, so the source is read to its end
          simp only [outcome, StreamDecoder.parse_of_incomplete hd, receive_stuck hd, true_and]
          cases r.ending <;> rfl
      | some item =>
          obtain ⟨msg, k⟩ := item
          obtain ⟨r', hr, hp, he⟩ := receive_item hd
          left
          refine ⟨msg, r', hr, ?_, ?_⟩
          · rw [StreamDecoder.parse_of_item hd, hp]
          · simp only [outcome, StreamDecoder.parse_of_item hd, hp, he]

/-- A run of calls delivers the first messages of the pending input; once it has stopped, all of
them, and the outcome is the reader's. -/
theorem session_spec (calls : List ReaderCall) (r : ProtocolReader ρ) :
    (session serde r calls).1 <+: ((Message.decoder serde).parse r.pending).items ∧
      ∀ o, (session serde r calls).2 = some o →
        (session serde r calls).1 = ((Message.decoder serde).parse r.pending).items ∧
          o = r.outcome serde := by
  induction calls generalizing r with
  | nil => exact ⟨List.nil_prefix, nofun⟩
  | cons call calls ih =>
      cases call with
      | receive =>
          rcases @receive_parse ρ _ serde r with ⟨msg, r', hr, hitems, hout⟩ | ⟨hnil, hr⟩
          · obtain ⟨hpre, hdone⟩ := ih r'
            simp only [session, hr, hitems]
            refine ⟨(List.prefix_cons_inj msg).mpr hpre, ?_⟩
            intro o ho
            obtain ⟨hall, houtcome⟩ := hdone o ho
            exact ⟨by rw [hall], by rw [houtcome, hout]⟩
          · rw [hnil]
            obtain ⟨a, r', hpair⟩ : ∃ a r', r.receive serde = (a, r') := ⟨_, _, rfl⟩
            rw [hpair] at hr
            have ha : a = (r.outcome serde).map fun _ => none := hr
            cases hout : r.outcome serde with
            | ok _ =>
                rw [hout] at ha
                subst ha
                simp [session, hpair, Except.map, eq_comm]
            | error e =>
                rw [hout] at ha
                subst ha
                simp [session, hpair, Except.map, eq_comm]
      | receiveAllBuffered =>
          obtain ⟨hitems, herr, hend⟩ := @drain_parse ρ _ serde r
          obtain ⟨hpre, hdone⟩ := ih (r.receiveAllBuffered serde).2
          simp only [session]
          rw [hitems]
          refine ⟨(List.prefix_append_right_inj _).mpr hpre, ?_⟩
          intro o ho
          obtain ⟨hall, houtcome⟩ := hdone o ho
          refine ⟨by rw [hall], ?_⟩
          rw [houtcome, outcome, outcome, ← herr, hend]

/-- A run with more `receive` calls than messages in the input stops. -/
theorem session_stops (calls : List ReaderCall) (r : ProtocolReader ρ)
    (h : ((Message.decoder serde).parse r.pending).items.length < calls.count .receive) :
    (session serde r calls).2 ≠ none := by
  induction calls generalizing r with
  | nil => simp at h
  | cons call calls ih =>
      cases call with
      | receive =>
          rcases @receive_parse ρ _ serde r with ⟨msg, r', hr, hitems, _⟩ | ⟨_, hr⟩
          · simp only [session, hr]
            apply ih r'
            rw [hitems, List.length_cons, List.count_cons_self] at h
            omega
          · obtain ⟨a, r', hpair⟩ : ∃ a r', r.receive serde = (a, r') := ⟨_, _, rfl⟩
            rw [hpair] at hr
            have ha : a = (r.outcome serde).map fun _ => none := hr
            cases hout : r.outcome serde <;>
              (rw [hout] at ha; subst ha; simp [session, hpair, Except.map])
      | receiveAllBuffered =>
          obtain ⟨hitems, _⟩ := @drain_parse ρ _ serde r
          simp only [session]
          apply ih
          rw [hitems, List.length_append, List.count_cons_of_ne (by decide)] at h
          omega

end ProtocolReader

/-- However the bytes of `input` are cut into chunks, and however `receive` and
`receiveAllBuffered` are interleaved, the reader delivers the messages of the reference parser and
ends as it does. An error met while draining stays at the front of the buffer: the next `receive`
reports it, and neither call moves past it. -/
theorem parsing_ignores_chunking (serde : SerdeJson) (input : List UInt8)
    (cs₁ cs₂ : List (List UInt8)) (h₁ : cs₁.flatten = input) (h₂ : cs₂.flatten = input)
    (calls₁ calls₂ : List ReaderCall) :
    let run₁ := (ProtocolReader.new (PlainChunks.mk cs₁)).session serde calls₁
    let run₂ := (ProtocolReader.new (PlainChunks.mk cs₂)).session serde calls₂
    let reference := referenceParse serde input
    (reference.1.length < calls₁.count .receive → run₁.2 ≠ none) ∧
      (run₁.2 ≠ none → run₁ = (reference.1, some reference.2)) ∧
      (run₁.2 ≠ none → run₂.2 ≠ none → run₁ = run₂) ∧
      ∀ (r : ProtocolReader PlainChunks) (e : Error),
        let drained := (r.receiveAllBuffered serde).2
        Message.decode serde drained.buffer = .error e →
          drained.buffer <:+ r.buffer ∧ drained.reader = r.reader ∧
            drained.receive serde = (.error e, drained) ∧
            drained.receiveAllBuffered serde = ([], drained) := by
  have hpending : ∀ cs : List (List UInt8), cs.flatten = input →
      (ProtocolReader.new (PlainChunks.mk cs)).pending = input ∧
        (ProtocolReader.new (PlainChunks.mk cs)).ending = none := by
    intro cs hcs
    simp only [ProtocolReader.new, ProtocolReader.pending, ProtocolReader.ending,
      content_plainChunks, List.nil_append, hcs, and_self]
  have hrun : ∀ (cs : List (List UInt8)) (calls : List ReaderCall), cs.flatten = input →
      ((ProtocolReader.new (PlainChunks.mk cs)).session serde calls).2 ≠ none →
      (ProtocolReader.new (PlainChunks.mk cs)).session serde calls
        = ((referenceParse serde input).1, some (referenceParse serde input).2) := by
    intro cs calls hcs hstop
    obtain ⟨hp, he⟩ := hpending cs hcs
    obtain ⟨o, ho⟩ := Option.ne_none_iff_exists'.mp hstop
    obtain ⟨hall, hout⟩ := (ProtocolReader.session_spec calls
      (ProtocolReader.new (PlainChunks.mk cs))).2 o ho
    refine Prod.ext ?_ ?_
    · rw [hall, hp]
      rfl
    · rw [ho, hout, ProtocolReader.outcome, hp, he]
      simp only [referenceParse]
      cases ((Message.decoder serde).parse input).error <;> rfl
  refine ⟨?_, hrun cs₁ calls₁ h₁, ?_, ?_⟩
  · intro hcount
    apply ProtocolReader.session_stops
    rw [(hpending cs₁ h₁).1]
    exact hcount
  · intro hs₁ hs₂
    rw [hrun cs₁ calls₁ h₁ hs₁, hrun cs₂ calls₂ h₂ hs₂]
  · intro r e drained he
    obtain ⟨hreceive, hdrain⟩ := ProtocolReader.drain_error he
    refine ⟨?_, ?_, hreceive, hdrain⟩
    · show (r.receiveAllBuffered serde).2.buffer <:+ r.buffer
      rw [ProtocolReader.receiveAllBuffered_eq]
      exact StreamDecoder.rest_suffix r.buffer
    · show (r.receiveAllBuffered serde).2.reader = r.reader
      rw [ProtocolReader.receiveAllBuffered_eq]

/-- A header that announces too long a payload, cut after its first byte and not cut at all. -/
theorem parsing_ignores_chunking_bad_header :
    (ProtocolReader.new (PlainChunks.mk [[3], [255, 255, 255, 255]])).session emptyObjectSerde
        [.receiveAllBuffered, .receive]
      = (ProtocolReader.new (PlainChunks.mk [[3, 255, 255, 255, 255]])).session emptyObjectSerde
        [.receive] := by
  have hlen : Message.u32FromBeBytes 255 255 255 255 > MAX_PAYLOAD := by decide
  obtain ⟨e, hbad⟩ :
      ∃ e, (Message.decoder emptyObjectSerde).decode [3, 255, 255, 255, 255] = .error e := by
    rw [Message.decoder_decode]
    simp only [Message.decode, hlen, if_true]
    exact ⟨_, rfl⟩
  have hreference : (referenceParse emptyObjectSerde [3, 255, 255, 255, 255]).1.length = 0 := by
    rw [referenceParse, StreamDecoder.parse_of_error hbad]
    rfl
  obtain ⟨hstop₁, _, heq, _⟩ := parsing_ignores_chunking emptyObjectSerde [3, 255, 255, 255, 255]
    [[3], [255, 255, 255, 255]] [[3, 255, 255, 255, 255]] rfl rfl
    [.receiveAllBuffered, .receive] [.receive]
  obtain ⟨hstop₂, _⟩ := parsing_ignores_chunking emptyObjectSerde [3, 255, 255, 255, 255]
    [[3, 255, 255, 255, 255]] [[3, 255, 255, 255, 255]] rfl rfl [.receive] [.receive]
  rw [hreference] at hstop₁ hstop₂
  exact heq (hstop₁ (by decide)) (hstop₂ (by decide))

end Bluecross
