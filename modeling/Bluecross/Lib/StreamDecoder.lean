/-
# Bluecross.Lib.StreamDecoder — decoders of a byte stream that arrives in pieces.

A stream decoder looks at a buffer and answers in one of three ways: an item and the number of
elements it took, "incomplete", or an error. Two stability laws make it usable on a stream: an item
or an error found in a buffer is found again when the buffer is longer. "Incomplete" has no such
law, because more input may complete the item.

`parse` is the meaning of a whole input: the items it holds, in order, what is left when no further
item can be taken, and the error, if that is why it stopped. The laws of `parse` are the ones a
reader with a leftover buffer rests on:

* `parse_append_of_stuck`: input may be appended to the leftover instead of to the whole;
* `parse_append_of_failed`: after an error, more input changes nothing;
* `parse_items_prefix`: the items of a prefix are a prefix of the items;
* `parse_encodings`: on the concatenation of encodings, `parse` gives back the encoded list.
-/
import Mathlib.Data.List.Basic
import Mathlib.Data.List.Infix

namespace Bluecross.Lib

universe u v w

/-- A decoder of one item from the front of a buffer, stable under extension of the buffer. -/
structure StreamDecoder (β : Type u) (α : Type v) (ε : Type w) where
  decode : List β → Except ε (Option (α × Nat))
  consumed {data : List β} {a : α} {k : Nat} :
    decode data = .ok (some (a, k)) → 0 < k ∧ k ≤ data.length
  extend_item {data : List β} {x : α × Nat} (more : List β) :
    decode data = .ok (some x) → decode (data ++ more) = .ok (some x)
  extend_error {data : List β} {e : ε} (more : List β) :
    decode data = .error e → decode (data ++ more) = .error e

/-- What a whole input means: its items, the leftover, and the error that stopped the parse. -/
structure Parsed (β : Type u) (α : Type v) (ε : Type w) where
  items : List α
  rest : List β
  error : Option ε

namespace StreamDecoder

variable {β : Type u} {α : Type v} {ε : Type w} (D : StreamDecoder β α ε)

/-- Decode until no further item can be taken. -/
def parse (data : List β) : Parsed β α ε :=
  match _hd : D.decode data with
  | .error e => ⟨[], data, some e⟩
  | .ok none => ⟨[], data, none⟩
  | .ok (some (a, k)) =>
      let tail := parse (data.drop k)
      ⟨a :: tail.items, tail.rest, tail.error⟩
termination_by data.length
decreasing_by
  have := D.consumed _hd
  rw [List.length_drop]
  omega

variable {D}

theorem parse_of_error {data : List β} {e : ε} (h : D.decode data = .error e) :
    D.parse data = ⟨[], data, some e⟩ := by
  rw [parse]
  split <;> simp_all

theorem parse_of_incomplete {data : List β} (h : D.decode data = .ok none) :
    D.parse data = ⟨[], data, none⟩ := by
  rw [parse]
  split <;> simp_all

theorem parse_of_item {data : List β} {a : α} {k : Nat} (h : D.decode data = .ok (some (a, k))) :
    D.parse data = ⟨a :: (D.parse (data.drop k)).items, (D.parse (data.drop k)).rest,
      (D.parse (data.drop k)).error⟩ := by
  rw [parse]
  split <;> simp_all

/-- Induction along a parse: the input stops at once, or an item is taken from its front. -/
theorem parse_induction {motive : List β → Prop}
    (failed : ∀ data e, D.decode data = .error e → motive data)
    (stuck : ∀ data, D.decode data = .ok none → motive data)
    (item : ∀ data a k, D.decode data = .ok (some (a, k)) → motive (data.drop k) → motive data)
    (data : List β) : motive data := by
  induction hn : data.length using Nat.strongRecOn generalizing data with
  | _ n ih =>
      cases hd : D.decode data with
      | error e => exact failed data e hd
      | ok r =>
          cases r with
          | none => exact stuck data hd
          | some x =>
              obtain ⟨a, k⟩ := x
              have hk := D.consumed hd
              refine item data a k hd (ih (data.drop k).length ?_ _ rfl)
              rw [List.length_drop]
              omega

/-! ## The leftover -/

/-- The parse stops where the decoder is stuck or fails. -/
theorem decode_rest (data : List β) :
    D.decode (D.parse data).rest
      = match (D.parse data).error with
        | some e => .error e
        | none => .ok none := by
  induction data using parse_induction (D := D) with
  | failed data e h => rw [parse_of_error h, h]
  | stuck data h => rw [parse_of_incomplete h, h]
  | item data a k h ih => rw [parse_of_item h]; exact ih

/-- Parsing the leftover again takes nothing. -/
theorem parse_rest (data : List β) :
    D.parse (D.parse data).rest = ⟨[], (D.parse data).rest, (D.parse data).error⟩ := by
  have h := decode_rest (D := D) data
  cases he : (D.parse data).error with
  | none => rw [he] at h; exact parse_of_incomplete h
  | some e => rw [he] at h; exact parse_of_error h

/-- The leftover is the end of the input: an item takes from the front, and nothing is skipped. -/
theorem rest_suffix (data : List β) : (D.parse data).rest <:+ data := by
  induction data using parse_induction (D := D) with
  | failed data e h => rw [parse_of_error h]
  | stuck data h => rw [parse_of_incomplete h]
  | item data a k h ih =>
      rw [parse_of_item h]
      exact ih.trans (List.drop_suffix k data)

/-! ## More input -/

/-- An item at the front stays at the front, and the rest of the input grows at its end. -/
theorem parse_append_of_item {data : List β} {a : α} {k : Nat} (more : List β)
    (h : D.decode data = .ok (some (a, k))) :
    D.parse (data ++ more) = ⟨a :: (D.parse (data.drop k ++ more)).items,
      (D.parse (data.drop k ++ more)).rest, (D.parse (data.drop k ++ more)).error⟩ := by
  have hk := (D.consumed h).2
  rw [parse_of_item (D.extend_item more h), List.drop_append_of_le_length hk]

/-- After an incomplete parse, input appended to the whole may be appended to the leftover. -/
theorem parse_append_of_stuck (data more : List β) (h : (D.parse data).error = none) :
    D.parse (data ++ more) =
      ⟨(D.parse data).items ++ (D.parse ((D.parse data).rest ++ more)).items,
        (D.parse ((D.parse data).rest ++ more)).rest,
        (D.parse ((D.parse data).rest ++ more)).error⟩ := by
  induction data using parse_induction (D := D) with
  | failed data e hd => rw [parse_of_error hd] at h; cases h
  | stuck data hd => rw [parse_of_incomplete hd]; rfl
  | item data a k hd ih =>
      have hp := parse_of_item hd
      have herr : (D.parse (data.drop k)).error = none := by
        rw [hp] at h
        exact h
      rw [parse_append_of_item more hd, ih herr, hp]
      rfl

/-- After an error, more input changes neither the items nor the error. -/
theorem parse_append_of_failed (data more : List β) {e : ε} (h : (D.parse data).error = some e) :
    D.parse (data ++ more) = ⟨(D.parse data).items, (D.parse data).rest ++ more, some e⟩ := by
  induction data using parse_induction (D := D) with
  | failed data e' hd =>
      rw [parse_of_error hd] at h ⊢
      cases h
      exact parse_of_error (D.extend_error more hd)
  | stuck data hd => rw [parse_of_incomplete hd] at h; cases h
  | item data a k hd ih =>
      have hp := parse_of_item hd
      have herr : (D.parse (data.drop k)).error = some e := by
        rw [hp] at h
        exact h
      rw [parse_append_of_item more hd, ih herr, hp]

/-- The items of a prefix of the input are a prefix of its items. -/
theorem parse_items_prefix (data more : List β) :
    (D.parse data).items <+: (D.parse (data ++ more)).items := by
  cases he : (D.parse data).error with
  | none =>
      rw [parse_append_of_stuck data more he]
      exact List.prefix_append _ _
  | some e => rw [parse_append_of_failed data more he]

/-- A prefix of an input that parses without error does too. -/
theorem error_of_prefix {data more : List β} (h : (D.parse (data ++ more)).error = none) :
    (D.parse data).error = none := by
  cases he : (D.parse data).error with
  | none => rfl
  | some e =>
      rw [parse_append_of_failed data more he] at h
      cases h

/-! ## Encodings -/

/-- `enc a` decodes to `a`, whatever follows it. -/
def Encodes (D : StreamDecoder β α ε) (enc : α → List β) (a : α) : Prop :=
  D.decode (enc a) = .ok (some (a, (enc a).length))

theorem parse_encoding {enc : α → List β} {a : α} (h : D.Encodes enc a) (more : List β) :
    D.parse (enc a ++ more) =
      ⟨a :: (D.parse more).items, (D.parse more).rest, (D.parse more).error⟩ := by
  rw [parse_append_of_item more h, List.drop_length, List.nil_append]

/-- The parse of concatenated encodings gives back the list, and goes on with what follows. -/
theorem parse_encodings {enc : α → List β} {as : List α} (h : ∀ a ∈ as, D.Encodes enc a)
    (more : List β) :
    D.parse (as.flatMap enc ++ more) =
      ⟨as ++ (D.parse more).items, (D.parse more).rest, (D.parse more).error⟩ := by
  induction as with
  | nil => rfl
  | cons a as ih =>
      have ha : D.Encodes enc a := h a (List.mem_cons_self ..)
      have htail := ih fun b hb => h b (List.mem_cons_of_mem a hb)
      rw [List.flatMap_cons, List.append_assoc, parse_encoding ha, htail]
      rfl

/-- What is found in a prefix of encodings, each of which decodes or fails: nothing yet, an error, or
the first of them, which is there whole. -/
theorem decode_of_prefix {enc : α → List β} {as : List α} {data : List β}
    (hempty : D.decode [] = .ok none)
    (henc : ∀ a ∈ as, D.Encodes enc a ∨ ∃ e, D.decode (enc a) = .error e)
    (hdata : data <+: as.flatMap enc) :
    D.decode data = .ok none ∨
      (∃ e a as', D.decode data = .error e ∧ as = a :: as' ∧ ¬ D.Encodes enc a) ∨
      ∃ a as', D.decode data = .ok (some (a, (enc a).length)) ∧ as = a :: as' ∧ enc a <+: data := by
  rcases as with _ | ⟨a, as⟩
  · have hnil : data = [] := List.prefix_nil.mp hdata
    exact Or.inl (hnil ▸ hempty)
  · rw [List.flatMap_cons] at hdata
    rcases List.prefix_or_prefix_of_prefix hdata (List.prefix_append (enc a) _) with hshort | hlong
    · -- the first encoding is not there whole, or just so
      obtain ⟨more, hmore⟩ := hshort
      rcases hd : D.decode data with e | _ | ⟨b, k⟩
      · refine Or.inr (Or.inl ⟨e, a, as, rfl, rfl, ?_⟩)
        intro hfine
        have hfail := D.extend_error more hd
        rw [hmore, hfine] at hfail
        cases hfail
      · exact Or.inl rfl
      · have hitem := D.extend_item more hd
        rw [hmore] at hitem
        rcases henc a (List.mem_cons_self ..) with hfine | ⟨e, hfail⟩
        · rw [Encodes, hitem] at hfine
          cases hfine
          have hk := (D.consumed hd).2
          rw [← hmore, List.length_append] at hk
          have hnone : more = [] := List.length_eq_zero_iff.mp (by omega)
          rw [hnone, List.append_nil] at hmore
          exact Or.inr (Or.inr ⟨a, as, rfl, rfl, hmore ▸ List.prefix_refl _⟩)
        · rw [hfail] at hitem
          cases hitem
    · obtain ⟨more, rfl⟩ := id hlong
      rcases henc a (List.mem_cons_self ..) with hfine | ⟨e, hfail⟩
      · exact Or.inr (Or.inr ⟨a, as, D.extend_item more hfine, rfl, hlong⟩)
      · refine Or.inr (Or.inl ⟨e, a, as, D.extend_error more hfail, rfl, ?_⟩)
        intro hfine
        rw [Encodes, hfail] at hfine
        cases hfine

end StreamDecoder

end Bluecross.Lib
