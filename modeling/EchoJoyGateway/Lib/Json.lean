import EchoJoyGateway.Lib.Segments
import EchoJoyGateway.Lib.Utf8
import Mathlib.Algebra.BigOperators.Group.List.Basic
import Mathlib.Data.List.Sort

/-!
# JSON values and their encoding

Decoded values, as they are read field by field, and the encoding of values as
compact text: object keys in order, and the characters that HTML gives a meaning
escaped. How a number prints is a parameter.
-/

namespace JSON

open Utf8 List

inductive Value (Number : Type) where
  | null
  | bool (b : Bool)
  | number (n : Number)
  | string (text : Text)
  | array (items : List (Value Number))
  | object (fields : List (Text × Value Number))

namespace Value

variable {Number : Type}

/-- The fields of an object; no fields where the value is something else. -/
def fields : Value Number → List (Text × Value Number)
  | .object fields => fields
  | _ => []

/-- The items of an array; no items where the value is something else. -/
def items : Value Number → List (Value Number)
  | .array items => items
  | _ => []

/-- The text of a string; no text where the value is something else. -/
def text : Value Number → Text
  | .string text => text
  | _ => []

def isNull : Value Number → Bool
  | .null => true
  | _ => false

end Value

/-- The value of a field, null where there is none. -/
def field {Number : Type} (fields : List (Text × Value Number)) (key : String) : Value Number :=
  (fields.lookup (ascii key)).getD .null

section Encoding

def comma : Text := ascii ","

def openBrace : Text := [123]

def closeBrace : Text := [125]

def hexDigit (n : Nat) : UInt8 := if n < 10 then UInt8.ofNat (48 + n) else UInt8.ofNat (87 + n)

def escapeByte (b : UInt8) : Text :=
  if b = 34 ∨ b = 92 then [92, b]
  else if b = 8 then ascii "\\b"
  else if b = 12 then ascii "\\f"
  else if b = 10 then ascii "\\n"
  else if b = 13 then ascii "\\r"
  else if b = 9 then ascii "\\t"
  else if b < 32 ∨ b = 60 ∨ b = 62 ∨ b = 38 then
    ascii "\\u00" ++ [hexDigit (b.toNat / 16), hexDigit (b.toNat % 16)]
  else [b]

/-- A byte that is no encoding becomes the replacement character; the line and the paragraph
separator are escaped. -/
def escape (r : Rune) : Text :=
  match r.bytes with
  | [b] => if b < 0x80 then escapeByte b else [0xEF, 0xBF, 0xBD]
  | bytes =>
    if bytes = [0xE2, 0x80, 0xA8] then ascii "\\u2028"
    else if bytes = [0xE2, 0x80, 0xA9] then ascii "\\u2029"
    else bytes

def quote : UInt8 := 34

def encodeString (text : Text) : Text := quote :: (runes text).flatMap escape ++ [quote]

def encodeBool (b : Bool) : Text := if b then ascii "true" else ascii "false"

def encodeArray (items : List Text) : Text := ascii "[" ++ comma.intercalate items ++ ascii "]"

def encodeObject (fields : List (Text × Text)) : Text :=
  openBrace ++ comma.intercalate (fields.map fun item => encodeString item.1 ++ ascii ":" ++ item.2)
    ++ closeBrace

def encodeMap (entries : List (Text × Text)) : Text :=
  encodeObject (entries.insertionSort fun a b => a.1 ≤ b.1)

variable {Number : Type} (formatNumber : Number → Text)

mutual

def encode : Value Number → Text
  | .null => ascii "null"
  | .bool b => encodeBool b
  | .number n => formatNumber n
  | .string text => encodeString text
  | .array items => encodeArray (encodeItems items)
  | .object fields => encodeMap (encodeFields fields)

def encodeItems : List (Value Number) → List Text
  | [] => []
  | item :: rest => encode item :: encodeItems rest

def encodeFields : List (Text × Value Number) → List (Text × Text)
  | [] => []
  | (key, value) :: rest => (key, encode value) :: encodeFields rest

end

end Encoding

/-! ## Reading a string back -/

def unhex (b : UInt8) : Nat := if b < 58 then b.toNat - 48 else b.toNat - 87

def unescapeLetter (c : UInt8) : UInt8 :=
  if c = 98 then 8 else if c = 102 then 12 else if c = 110 then 10 else if c = 114 then 13
  else if c = 116 then 9 else c

/-- The text of a string up to its closing quote, and what follows it. -/
def unquote : Text → Text × Text
  | 92 :: 117 :: 48 :: _ :: x :: y :: rest =>
    (UInt8.ofNat (16 * unhex x + unhex y) :: (unquote rest).1, (unquote rest).2)
  | 92 :: 117 :: _ :: _ :: _ :: y :: rest =>
    (0xE2 :: 0x80 :: UInt8.ofNat (0xA0 + unhex y) :: (unquote rest).1, (unquote rest).2)
  | 92 :: c :: rest => (unescapeLetter c :: (unquote rest).1, (unquote rest).2)
  | b :: rest => if b = quote then ([], rest) else (b :: (unquote rest).1, (unquote rest).2)
  | [] => ([], [])

theorem unquote_cons {b : UInt8} (h : b ≠ 92) (hq : b ≠ quote) (rest : Text) :
    unquote (b :: rest) = (b :: (unquote rest).1, (unquote rest).2) := by
  rw [unquote]
  · rw [if_neg hq]
  all_goals simp_all

theorem unhex_hexDigit : ∀ n < 16, unhex (hexDigit n) = n := by decide

theorem unquote_escapeByte (b : UInt8) (rest : Text) :
    unquote (escapeByte b ++ rest) = (b :: (unquote rest).1, (unquote rest).2) := by
  unfold escapeByte
  split_ifs with h h h h h h h
  · rcases h with rfl | rfl <;> rfl
  · subst h; rfl
  · subst h; rfl
  · subst h; rfl
  · subst h; rfl
  · subst h; rfl
  · have hbyte := b.toNat_lt
    change (UInt8.ofNat (16 * unhex (hexDigit (b.toNat / 16)) + unhex (hexDigit (b.toNat % 16))) ::
      (unquote rest).1, (unquote rest).2) = _
    rw [unhex_hexDigit _ (by omega), unhex_hexDigit _ (by omega), Nat.div_add_mod,
      UInt8.ofNat_toNat]
  · exact unquote_cons (by grind) (by grind [quote]) rest

theorem unquote_append {bytes : Text} (h : ∀ b ∈ bytes, 0x80 ≤ b) (rest : Text) :
    unquote (bytes ++ rest) = (bytes ++ (unquote rest).1, (unquote rest).2) := by
  induction bytes with
  | nil => rfl
  | cons b bytes ih =>
    obtain ⟨hb, hbytes⟩ := forall_mem_cons.mp h
    have hne : ∀ c : UInt8, c < 0x80 → b ≠ c := fun c hc heq => by
      subst heq
      exact UInt8.not_lt.mpr hb hc
    rw [cons_append, unquote_cons (hne 92 (by decide)) (hne quote (by decide)), ih hbytes]
    rfl

theorem unquote_escape {b : UInt8} {text : Text} (h : (decodeRune b text).valid = true)
    (rest : Text) : unquote (escape (decodeRune b text) ++ rest) =
      ((decodeRune b text).bytes ++ (unquote rest).1, (unquote rest).2) := by
  have hshape := ascii_or_not h
  unfold escape
  split
  · rename_i c hc
    rw [hc] at hshape
    rcases hshape with ⟨hb, hascii⟩ | ⟨hone, -⟩
    · cases hb
      rw [hc, if_pos hascii, unquote_escapeByte]
      rfl
    · exact absurd rfl hone
  · rename_i hother
    rcases hshape with ⟨hb, -⟩ | ⟨-, hbytes⟩
    · exact absurd hb (hother b)
    · split_ifs with hline hparagraph
      · rw [hline]
        rfl
      · rw [hparagraph]
        rfl
      · exact unquote_append hbytes rest

/-- A string is read back, whatever follows it. -/
theorem unquote_encodeString {text : Text} (h : validString text = true) (rest : Text) :
    unquote ((encodeString text ++ rest).tail) = (text, rest) := by
  have hrunes : ∀ rs : List Rune, (∀ r ∈ rs, r.valid = true ∧ ∃ b text, r = decodeRune b text) →
      unquote (rs.flatMap escape ++ quote :: rest) = (rs.flatMap Rune.bytes, rest) := by
    intro rs hrs
    induction rs with
    | nil => rfl
    | cons r rs ih =>
      obtain ⟨⟨hvalid, b, text, rfl⟩, hrest⟩ := forall_mem_cons.mp hrs
      rw [flatMap_cons, append_assoc, unquote_escape hvalid, ih hrest, flatMap_cons]
  have hall := hrunes (runes text) fun r hr => ⟨all_eq_true.mp h r hr, mem_runesFrom hr⟩
  rw [flatMap_runes] at hall
  rw [← hall, append_cons]
  rfl

/-! ## Lengths -/

theorem length_escapeByte_le (b : UInt8) : (escapeByte b).length ≤ 6 := by
  unfold escapeByte
  split_ifs
  · exact Nat.le_of_ble_eq_true rfl
  · decide
  · decide
  · decide
  · decide
  · decide
  · exact Nat.le_refl 6
  · exact Nat.le_of_ble_eq_true rfl

theorem length_escape_le (r : Rune) : (escape r).length ≤ 6 * r.bytes.length := by
  unfold escape
  split
  · rename_i b hb
    have hbyte := length_escapeByte_le b
    rw [hb]
    split
    · exact hbyte
    · exact Nat.le_of_ble_eq_true rfl
  · split_ifs with hline hparagraph
    · rw [hline]
      decide
    · rw [hparagraph]
      decide
    · omega

theorem length_encodeString_le (text : Text) :
    (encodeString text).length ≤ 6 * text.length + 2 := by
  have hbody := length_flatMap_runes_le length_escape_le text
  simp only [encodeString, length_append, length_cons, length_nil]
  omega

theorem two_le_length_encodeString (text : Text) : 2 ≤ (encodeString text).length := by
  simp only [encodeString, length_append, length_cons]
  omega

theorem length_encodeArray (items : List Text) :
    (encodeArray items).length = (items.map List.length).sum + (items.length - 1) + 2 := by
  have hopen : (ascii "[").length = 1 := rfl
  have hclose : (ascii "]").length = 1 := rfl
  have hcomma : comma.length = 1 := rfl
  rw [encodeArray, length_append, length_append, Segments.length_intercalate, hcomma]
  omega

def fieldLengths (fields : List (Text × Text)) : List Nat :=
  fields.map fun item => (encodeString item.1).length + 1 + item.2.length

@[simp] theorem sum_fieldLengths_nil : (fieldLengths []).sum = 0 := rfl

@[simp] theorem sum_fieldLengths_cons (key value : Text) (rest : List (Text × Text)) :
    (fieldLengths ((key, value) :: rest)).sum =
      (encodeString key).length + 1 + value.length + (fieldLengths rest).sum := by
  rfl

theorem length_encodeObject (fields : List (Text × Text)) :
    (encodeObject fields).length = (fieldLengths fields).sum + (fields.length - 1) + 2 := by
  have hopen : openBrace.length = 1 := rfl
  have hclose : closeBrace.length = 1 := rfl
  have hcomma : comma.length = 1 := rfl
  have hcolon : (ascii ":").length = 1 := rfl
  rw [encodeObject, length_append, length_append, Segments.length_intercalate,
    hcomma, length_map, map_map]
  simp only [fieldLengths, Function.comp_def, length_append, hcolon]
  omega

theorem length_encodeMap (entries : List (Text × Text)) :
    (encodeMap entries).length = (fieldLengths entries).sum + (entries.length - 1) + 2 := by
  have hperm := perm_insertionSort (fun a b : Text × Text => a.1 ≤ b.1) entries
  have hsum : (fieldLengths (entries.insertionSort fun a b => a.1 ≤ b.1)).sum =
      (fieldLengths entries).sum := (hperm.map _).sum_eq
  rw [encodeMap, length_encodeObject, hsum, hperm.length_eq]

end JSON
