/-
# Bluecross.Json — the `serde_json` values that messages carry.

Payloads are built by `json!` from strings and integers and read back by field name with
`Value::get`, `as_i64` and `as_str`. Numbers are kept the way `serde_json` keeps them: an unsigned
one for everything that is not negative, a signed one below zero, and a float, which no reader of
this program accepts as an integer (its bits stand for it here). An object is the `BTreeMap` of
`serde_json`: its entries are sorted by key, and inserting a key again replaces its value.

Serialisation itself is `serde_json`'s. It enters as the parameter `SerdeJson`. `Value.text` is what it
writes; a reader for a few values (`SerdeJson.ofValues`) is enough where a run sends no others.
-/
import Bluecross.Machine
import Mathlib.Data.List.Induction

namespace Bluecross

/-- The texts that `anyhow` errors carry. -/
abbrev Error := String

/-- What `?` lets through. -/
theorem bind_eq_ok {α β : Type} {x : Except Error α} {f : α → Except Error β} {b : β} :
    x >>= f = .ok b ↔ ∃ y, x = .ok y ∧ f y = .ok b := by
  cases x with
  | error e => exact ⟨nofun, fun ⟨_, h, _⟩ => nomatch h⟩
  | ok y =>
      constructor
      · intro h
        exact ⟨y, rfl, h⟩
      · rintro ⟨_, h, hf⟩
        cases h
        exact hf

/-! ## Values -/

/-- `serde_json::Number`: an integer of 64 bits, or a float. -/
inductive Number where
  | posInt (n : UInt64)
  | negInt (n : Int64)
  | float (bits : UInt64)
  deriving DecidableEq, Repr

/-- Integers enter a `Value` through `i64`; `u64` holds the ones that are not negative. -/
def Number.ofI64 (n : Int64) : Number :=
  if n < 0 then .negInt n else .posInt n.toUInt64

/-- `Number::as_i64`: a `u64` above `i64::MAX` and a float have no `i64`. -/
def Number.asI64 : Number → Option Int64
  | .posInt n => if n.toNat < 2 ^ 63 then some n.toInt64 else none
  | .negInt n => some n
  | .float _ => none

/-- `serde_json::Value`; the entries of an object are in the order of their map. -/
inductive Value where
  | null
  | bool (b : Bool)
  | number (n : Number)
  | string (s : String)
  | array (items : List Value)
  | object (entries : List (String × Value))

namespace Value

/-- `BTreeMap::insert` on entries sorted by key. -/
def insertEntry (key : String) (value : Value) :
    List (String × Value) → List (String × Value)
  | [] => [(key, value)]
  | (k, v) :: rest =>
      if key = k then (key, value) :: rest
      else if key < k then (key, value) :: (k, v) :: rest
      else (k, v) :: insertEntry key value rest

/-- The `json!({..})` of the source: its fields are inserted in the order they are written. -/
def json (fields : List (String × Value)) : Value :=
  .object (fields.foldl (fun entries f => insertEntry f.1 f.2 entries) [])

/-- A field of an object. -/
def get (key : String) : Value → Option Value
  | .object entries => entries.lookup key
  | _ => none

/-- A number that is an `i64`. -/
def asI64 : Value → Option Int64
  | .number n => n.asI64
  | _ => none

/-- The text of a string. -/
def asStr : Value → Option String
  | .string s => some s
  | _ => none

/-- What the macro `json!` makes of integers. -/
def ofI64 (n : Int64) : Value := .number (.ofI64 n)
def ofI32 (n : Int32) : Value := ofI64 n.toInt64
def ofU16 (n : UInt16) : Value := .number (.posInt n.toUInt64)

/-- The reading of an integer field, `payload.get(key).and_then(as_i64).unwrap_or(default)`. -/
def i64Or (payload : Value) (key : String) (default : Int64) : Int64 :=
  ((payload.get key).bind asI64).getD default

/-! ## Reading back what was written -/

theorem lookup_insertEntry (key : String) (value : Value) (k : String)
    (entries : List (String × Value)) :
    (insertEntry key value entries).lookup k
      = if k = key then some value else entries.lookup k := by
  induction entries with
  | nil =>
      by_cases h : k = key
      · simp [insertEntry, h]
      · have hb : (k == key) = false := by simpa using h
        simp [insertEntry, h, List.lookup_cons, hb]
  | cons e rest ih =>
      obtain ⟨k', v'⟩ := e
      unfold insertEntry
      by_cases hk : key = k'
      · subst hk
        by_cases h : k = key
        · simp [h]
        · have hb : (k == key) = false := by simpa using h
          simp [h, List.lookup_cons, hb]
      · by_cases hlt : key < k'
        · by_cases h : k = key
          · simp [hk, hlt, h]
          · have hb : (k == key) = false := by simpa using h
            simp [hk, hlt, h, List.lookup_cons, hb]
        · simp only [hk, hlt, if_false, List.lookup_cons, ih]
          by_cases h' : k = k'
          · simp [h', Ne.symm hk]
          · have hb : (k == k') = false := by simpa using h'
            simp [hb]

/-- A field that is written last is the one that is read. -/
theorem get_json_concat (fields : List (String × Value)) (key : String) (value : Value)
    (k : String) :
    (json (fields ++ [(key, value)])).get k
      = if k = key then some value else (json fields).get k := by
  simp only [json, get, List.foldl_append, List.foldl_cons, List.foldl_nil]
  exact lookup_insertEntry key value k _

/-- The entry that is read is the last one that was written under the key. -/
theorem get_json (fields : List (String × Value)) (k : String) :
    (json fields).get k = fields.reverse.lookup k := by
  induction fields using List.reverseRecOn with
  | nil => rfl
  | append_singleton fields f ih =>
      rw [get_json_concat, ih, List.reverse_concat, List.lookup_cons]
      by_cases h : k = f.1
      · simp [h]
      · have hb : (k == f.1) = false := by simpa using h
        simp [h, hb]

@[simp]
theorem asI64_ofI64 (n : Int64) : (ofI64 n).asI64 = some n := by
  unfold ofI64 asI64 Number.ofI64
  by_cases h : n < 0
  · simp [h, Number.asI64]
  · have hnn : 0 ≤ n.toInt := by
      have hz : (0 : Int64).toInt = 0 := rfl
      rw [Int64.lt_iff_toInt_lt, hz] at h
      omega
    have hlt := Int64.toInt_lt n
    have hnat : n.toUInt64.toNat < 2 ^ 63 := by
      have : (n.toUInt64.toNat : Int) = n.toInt := by
        rw [Int64.toInt, BitVec.toInt_eq_toNat_cond] at hnn hlt ⊢
        show (n.toBitVec.toNat : Int) = _
        have := n.toBitVec.isLt
        split at hnn <;> omega
      omega
    simp only [h, if_false, Number.asI64, hnat, if_true]
    rfl

@[simp]
theorem asI64_ofI32 (n : Int32) : (ofI32 n).asI64 = some n.toInt64 :=
  asI64_ofI64 n.toInt64

@[simp]
theorem asI64_ofU16 (n : UInt16) : (ofU16 n).asI64 = some n.toUInt64.toInt64 := by
  have hlt : n.toUInt64.toNat < 2 ^ 63 := by
    have := n.toNat_lt
    rw [UInt16.toNat_toUInt64]
    omega
  simp only [ofU16, asI64, Number.asI64, hlt, if_true]

end Value

/-- `serde_json::to_vec` and `serde_json::from_slice`. Serialising a `Value` never fails. -/
structure SerdeJson where
  toVec : Value → List UInt8
  fromSlice : List UInt8 → Except Error Value

/-- `from_slice` undoes `to_vec` on a payload. -/
def SerdeJson.RoundTrips (serde : SerdeJson) (v : Value) : Prop :=
  serde.fromSlice (serde.toVec v) = .ok v

/-! ## Texts -/

/-- A hexadecimal digit, as `serde_json` writes it. -/
def hexDigit (n : Nat) : UInt8 := UInt8.ofNat (if n < 10 then 48 + n else 87 + n)

/-- What `serde_json` writes for a character of a string. -/
def escapeChar (c : Char) : List UInt8 :=
  match c.toNat with
  | 8 => [92, 98]
  | 9 => [92, 116]
  | 10 => [92, 110]
  | 12 => [92, 102]
  | 13 => [92, 114]
  | 34 => [92, 34]
  | 92 => [92, 92]
  | n => if n < 32 then [92, 117, 48, 48, hexDigit (n / 16), hexDigit (n % 16)]
    else String.utf8EncodeChar c

/-- How many bytes a character of a string takes. -/
def escapedSize (c : Char) : Nat :=
  match c.toNat with
  | 8 | 9 | 10 | 12 | 13 | 34 | 92 => 2
  | n => if n < 32 then 6 else c.utf8Size

theorem length_escapeChar (c : Char) : (escapeChar c).length = escapedSize c := by
  unfold escapeChar escapedSize
  split
  all_goals first | rfl | skip
  split
  · rfl
  · exact String.length_utf8EncodeChar c

/-- A string, as `serde_json` writes it. -/
def stringText (s : String) : List UInt8 := [34] ++ s.toList.flatMap escapeChar ++ [34]

/-- The digits of an integer. Floats are left out, as the program writes none. -/
def Number.text : Number → List UInt8
  | .posInt n => (Nat.toDigits 10 n.toNat).map fun c => UInt8.ofNat c.toNat
  | .negInt n => 45 :: (Nat.toDigits 10 n.toInt.natAbs).map fun c => UInt8.ofNat c.toNat
  | .float _ => []

mutual

/-- What `serde_json::to_vec` writes for a value: no blanks, and the keys in their order. -/
def Value.text : Value → List UInt8
  | .null => [110, 117, 108, 108]
  | .bool true => [116, 114, 117, 101]
  | .bool false => [102, 97, 108, 115, 101]
  | .number n => n.text
  | .string s => stringText s
  | .array items => [91] ++ itemsText items ++ [93]
  | .object entries => [123] ++ entriesText entries ++ [125]

/-- The items of an array, with commas between them. -/
def itemsText : List Value → List UInt8
  | [] => []
  | [v] => v.text
  | v :: items => v.text ++ [44] ++ itemsText items

/-- The entries of an object, with commas between them. -/
def entriesText : List (String × Value) → List UInt8
  | [] => []
  | [(key, v)] => stringText key ++ [58] ++ v.text
  | (key, v) :: entries => stringText key ++ [58] ++ v.text ++ [44] ++ entriesText entries

end

/-- Keys are sorted, whatever the order they were written in. -/
example : (Value.json [("name", .string "laptop"), ("screen_width", .ofI32 800),
    ("screen_height", .ofI32 (-600))]).text =
      "\x7b\"name\":\"laptop\",\"screen_height\":-600,\"screen_width\":800\x7d".toUTF8.toList := by
  decide +kernel

/-- `serde_json` where nothing is read but the texts of these values. -/
def SerdeJson.ofValues (values : List Value) : SerdeJson where
  toVec := Value.text
  fromSlice bytes :=
    match values.find? fun v => v.text = bytes with
    | some v => .ok v
    | none => .error "expected value"

theorem SerdeJson.ofValues_roundTrips {values : List Value} (h : (values.map Value.text).Nodup)
    {v : Value} (hv : v ∈ values) : (SerdeJson.ofValues values).RoundTrips v := by
  have hfound : (values.find? fun w => w.text = v.text) = some v := by
    induction values with
    | nil => cases hv
    | cons w values ih =>
        obtain ⟨hnew, hrest⟩ := List.nodup_cons.mp h
        rcases List.mem_cons.mp hv with rfl | hmem
        · exact List.find?_cons_of_pos (decide_eq_true rfl)
        · have hne : w.text ≠ v.text := by
            intro heq
            apply hnew
            rw [heq]
            exact List.mem_map_of_mem hmem
          rw [List.find?_cons_of_neg (by simpa using hne)]
          exact ih hrest hmem
  unfold RoundTrips ofValues
  simp only [hfound]

/-- Any other text is refused. -/
theorem SerdeJson.ofValues_refuses {values : List Value} {bytes : List UInt8}
    (h : ∀ v ∈ values, v.text ≠ bytes) :
    (SerdeJson.ofValues values).fromSlice bytes = .error "expected value" := by
  have hnone : (values.find? fun v => v.text = bytes) = none := by
    rw [List.find?_eq_none]
    intro v hv
    simpa using h v hv
  simp only [ofValues, hnone]

/-- `serde_json` on the empty object, the payload of `heartbeat` and `switch_to_server`. -/
def emptyObjectSerde : SerdeJson where
  toVec _ := [123, 125]
  fromSlice bytes := if bytes = [123, 125] then .ok (.object []) else .error "expected value"

end Bluecross
