/-
# Bluecross.ClipboardWire — which clipboard values survive the wire.

A `ClipboardData` payload is a JSON object with one string. The string is escaped: quotes, backslashes
and the control characters with a short escape take two bytes, the other control characters six, and
everything else is written as it is. `Message::encode` writes whatever comes out, with its length cast
to `u32`; `Message::decode` refuses a length above `MAX_PAYLOAD`. Nothing between the watcher of one
side and the decoder of the other limits a value.

`decode_long` is what the decoder makes of a payload that is too long, also when the cast makes its
length look acceptable. `intact_iff` is the exact condition.
-/
import Bluecross.Wire

namespace Bluecross

/-! ## The text of a payload -/

/-- The JSON object with the string `content` under the key `content`. -/
def contentText (content : String) : List UInt8 :=
  [123, 34, 99, 111, 110, 116, 101, 110, 116, 34, 58, 34] ++ content.toList.flatMap escapeChar
    ++ [34, 125]

theorem text_clipboardData (content : String) :
    (Message.clipboardData content).payload.text = contentText content := by
  have hkey : stringText "content" = [34, 99, 111, 110, 116, 101, 110, 116, 34] := by decide
  show [123] ++ (stringText "content" ++ [58] ++ stringText content) ++ [125] = _
  rw [hkey, stringText, contentText]
  simp only [List.append_assoc, List.cons_append, List.nil_append]

/-- How many bytes the object takes. -/
def contentSize (content : String) : Nat := 14 + (content.toList.map escapedSize).sum

theorem length_contentText (content : String) :
    (contentText content).length = contentSize content := by
  have hchars : (content.toList.flatMap escapeChar).length
      = (content.toList.map escapedSize).sum := by
    rw [List.length_flatMap]
    exact congrArg List.sum (List.map_congr_left fun c _ => length_escapeChar c)
  simp only [contentText, contentSize, List.length_append, List.length_cons, List.length_nil, hchars]
  omega

/-- A letter, a line break and a quote. -/
example : contentText "a\n\"" = "\x7b\"content\":\"a\\n\\\"\"\x7d".toUTF8.toList := by decide +kernel

/-- `serde_json` on the payload of a clipboard value: it writes the text, reads it back, and does not
take a part of it for the whole, as an object is not closed before its last byte. -/
structure SerdeJson.Writes (serde : SerdeJson) (content : String) : Prop where
  text : serde.toVec (Message.clipboardData content).payload = contentText content
  read : serde.RoundTrips (Message.clipboardData content).payload
  cut : ∀ n < (contentText content).length,
    ∃ e, serde.fromSlice ((contentText content).take n) = .error e

/-! ## On the wire -/

/-- The value arrives: its message is decoded from the front of any input it starts, to what was sent
and with the input behind it left, and between any other messages it is received in its place. -/
structure Intact (serde : SerdeJson) (content : String) : Prop where
  decoded : ∀ more, Message.decode serde ((Message.clipboardData content).encode serde ++ more)
    = .ok (some (Message.clipboardData content,
        ((Message.clipboardData content).encode serde).length))
  received : ∀ (sender receiver : TransportState) (n : Nat) (before after : List Message),
    InOrder sender receiver → (∀ msg ∈ before ++ after, Sendable serde msg) →
    ∃ w, (ProtocolWriter.new ⟨[], sender, n⟩).sendAll serde
        (before ++ Message.clipboardData content :: after) = .ok w ∧
      (ProtocolReader.new (SecureReader.mk ⟨w.writer.writer, none⟩ receiver n)).receiveN serde
          ((before ++ Message.clipboardData content :: after).length + 1)
        = (before ++ Message.clipboardData content :: after).map (fun msg => .ok (some msg))
          ++ [.ok none]

variable {serde : SerdeJson} {content : String}

theorem intact_of_size (hserde : serde.Writes content) (hsize : contentSize content ≤ MAX_PAYLOAD) :
    Intact serde content := by
  have hlen : (serde.toVec (Message.clipboardData content).payload).length ≤ MAX_PAYLOAD := by
    rw [hserde.text, length_contentText]
    exact hsize
  have hdecoded := Message.decode_encode hserde.read hlen
  refine ⟨?_, ?_⟩
  · intro more
    rw [Message.decode_append more (by rw [hdecoded]; nofun), hdecoded]
  · intro sender receiver n before after hsession hmsgs
    obtain ⟨w, _, hsend, _, _, hpending, hending⟩ := sendAll_pending serde n
      (before ++ Message.clipboardData content :: after) hsession
    refine ⟨w, hsend, receiveN_sent ?_ hpending hending⟩
    intro msg hmsg
    rcases List.mem_append.mp hmsg with hbefore | hrest
    · exact hmsgs msg (List.mem_append_left _ hbefore)
    · rcases List.mem_cons.mp hrest with rfl | hafter
      · exact ⟨hserde.read, hlen⟩
      · exact hmsgs msg (List.mem_append_right _ hafter)

/-- A payload that is too long is an error to its reader: its length is refused, or the cast has cut
the length, and what it then takes for the payload is not JSON. -/
theorem decode_long (hserde : serde.Writes content) (hsize : MAX_PAYLOAD < contentSize content)
    (more : List UInt8) :
    ∃ e, Message.decode serde ((Message.clipboardData content).encode serde ++ more) = .error e := by
  have hlen : (serde.toVec (Message.clipboardData content).payload).length = contentSize content := by
    rw [hserde.text, length_contentText]
  have hbytes := Message.u32FromBeBytes_toBeBytes (UInt32.ofNat (contentSize content))
  have hcut : (UInt32.ofNat (contentSize content)).toNat ≤ contentSize content := by
    rw [UInt32.toNat_ofNat']
    exact Nat.mod_le ..
  rw [Message.encode, hlen]
  simp only [Message.u32ToBeBytes, Message.decode, List.cons_append, List.nil_append, hbytes]
  split
  · exact ⟨_, rfl⟩
  · rename_i hfits
    have hless : (UInt32.ofNat (contentSize content)).toNat < (contentText content).length := by
      rw [length_contentText]
      omega
    obtain ⟨e, herror⟩ := hserde.cut _ hless
    rw [hserde.text, List.take_append_of_le_length (Nat.le_of_lt hless), herror]
    have hthere : ¬ (contentText content ++ more).length + 5
        < HEADER_LEN + (UInt32.ofNat (contentSize content)).toNat := by
      rw [List.length_append, HEADER_LEN]
      omega
    exact ⟨e, if_neg hthere⟩

theorem not_intact_of_size (hserde : serde.Writes content)
    (hsize : MAX_PAYLOAD < contentSize content) : ¬ Intact serde content := by
  intro hintact
  obtain ⟨e, herror⟩ := decode_long hserde hsize []
  rw [hintact.decoded []] at herror
  cases herror

/-- A clipboard value survives the wire exactly when its JSON text is not larger than a payload may
be. -/
theorem intact_iff (serde : SerdeJson) (content : String) (hserde : serde.Writes content) :
    Intact serde content ↔ contentSize content ≤ MAX_PAYLOAD := by
  constructor
  · intro hintact
    by_contra hlong
    exact not_intact_of_size hserde (Nat.lt_of_not_le hlong) hintact
  · exact intact_of_size hserde

/-- `serde_json` on one clipboard value. -/
def contentSerde (content : String) : SerdeJson :=
  .ofValues [(Message.clipboardData content).payload]

theorem contentSerde_writes (content : String) : (contentSerde content).Writes content := by
  refine ⟨text_clipboardData content, ?_, ?_⟩
  · exact SerdeJson.ofValues_roundTrips (by simp) (List.mem_singleton_self _)
  · intro n hn
    refine ⟨"expected value", ?_⟩
    apply SerdeJson.ofValues_refuses
    intro v hv heq
    rw [List.mem_singleton.mp hv, text_clipboardData] at heq
    have hlen := congrArg List.length heq
    rw [List.length_take] at hlen
    omega

theorem intact_iff_quoted : Intact (contentSerde "a\n\"") "a\n\"" :=
  (intact_iff (contentSerde "a\n\"") "a\n\"" (contentSerde_writes _)).mpr (by decide)

/-- A value of one letter again and again. -/
@[irreducible]
def letters (n : Nat) : String := String.ofList (List.replicate n (Char.ofNat 97))

theorem contentSize_letters (n : Nat) : contentSize (letters n) = 14 + n := by
  have hone : escapedSize (Char.ofNat 97) = 1 := by decide
  rw [contentSize, letters, String.toList_ofList, List.map_replicate, List.sum_replicate_nat, hone,
    Nat.mul_one]

/-- Sixteen MiB of letters are copied, sent, and refused by their reader. -/
theorem long_text_refused :
    ¬ ∀ (serde : SerdeJson) (content : String), serde.Writes content → Intact serde content := by
  intro hall
  have hlong : MAX_PAYLOAD < contentSize (letters MAX_PAYLOAD) := by
    rw [contentSize_letters]
    exact Nat.lt_add_of_pos_left (by decide)
  have hserde := contentSerde_writes (letters MAX_PAYLOAD)
  exact not_intact_of_size hserde hlong (hall _ _ hserde)

end Bluecross
