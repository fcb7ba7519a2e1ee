import Mathlib.Data.List.Basic

/-!
# Texts as UTF-8

A text is a string of bytes, read from the left as the runes it encodes. A byte
at which no encoding starts is a rune of its own with the value of the
replacement character.
-/

namespace Utf8

open List

abbrev Text := List UInt8

def ascii (text : String) : Text := text.toList.map fun c => UInt8.ofNat c.toNat

structure Rune where
  value : Nat
  bytes : Text
  deriving DecidableEq

def replacement : Nat := 0xFFFD

variable (b : UInt8) (text : Text) (rest : Text)

/-- The length of an encoding and the range of its second byte, by its first. -/
def leading : Option (Nat × UInt8 × UInt8) :=
  if 0xC2 ≤ b ∧ b ≤ 0xDF then some (2, 0x80, 0xBF)
  else if b = 0xE0 then some (3, 0xA0, 0xBF)
  else if b = 0xED then some (3, 0x80, 0x9F)
  else if 0xE1 ≤ b ∧ b ≤ 0xEF then some (3, 0x80, 0xBF)
  else if b = 0xF0 then some (4, 0x90, 0xBF)
  else if 0xF1 ≤ b ∧ b ≤ 0xF3 then some (4, 0x80, 0xBF)
  else if b = 0xF4 then some (4, 0x80, 0x8F)
  else none

def continues : Bool := 0x80 ≤ b && b ≤ 0xBF

/-- The value of an encoding: the low bits of the first byte, then six of each other. -/
def assemble (first : Nat) (rest : Text) : Nat :=
  rest.foldl (fun value b => value * 64 + b.toNat % 64) first

def decodeRune : Rune :=
  if b < 0x80 then ⟨b.toNat, [b]⟩
  else
    match leading b, rest with
    | some (2, low, high), b₁ :: _ =>
      if low ≤ b₁ ∧ b₁ ≤ high then ⟨assemble (b.toNat % 32) [b₁], [b, b₁]⟩
      else ⟨replacement, [b]⟩
    | some (3, low, high), b₁ :: b₂ :: _ =>
      if (low ≤ b₁ ∧ b₁ ≤ high) ∧ continues b₂ then
        ⟨assemble (b.toNat % 16) [b₁, b₂], [b, b₁, b₂]⟩
      else ⟨replacement, [b]⟩
    | some (4, low, high), b₁ :: b₂ :: b₃ :: _ =>
      if (low ≤ b₁ ∧ b₁ ≤ high) ∧ continues b₂ ∧ continues b₃ then
        ⟨assemble (b.toNat % 8) [b₁, b₂, b₃], [b, b₁, b₂, b₃]⟩
      else ⟨replacement, [b]⟩
    | _, _ => ⟨replacement, [b]⟩

def runesFrom : Nat → Text → List Rune
  | _, [] => []
  | 0, b :: rest => decodeRune b rest :: runesFrom ((decodeRune b rest).bytes.length - 1) rest
  | skip + 1, _ :: rest => runesFrom skip rest

def runes : List Rune := runesFrom 0 text

def Rune.valid (r : Rune) : Bool := !(r.value == replacement && r.bytes.length == 1)

def validString : Bool := (runes text).all Rune.valid

def isSpace (value : Nat) : Bool :=
  (9 ≤ value && value ≤ 13) || value == 32 || value == 0x85 || value == 0xA0 ||
    value == 0x1680 || (0x2000 ≤ value && value ≤ 0x200a) || value == 0x2028 ||
    value == 0x2029 || value == 0x202f || value == 0x205f || value == 0x3000

def isControl (value : Nat) : Bool := value < 32 || (0x7f ≤ value && value ≤ 0x9f)

def trimSpace : Text :=
  let trimmed := (runes text).dropWhile fun r => isSpace r.value
  (trimmed.reverse.dropWhile fun r => isSpace r.value).reverse.flatMap Rune.bytes

theorem decodeRune_bytes : ∃ n ≤ rest.length, (decodeRune b rest).bytes = b :: rest.take n := by
  have hone : ∃ n ≤ rest.length, [b] = b :: rest.take n := ⟨0, Nat.zero_le _, by simp⟩
  unfold decodeRune
  split
  · exact hone
  · split
    · split
      · exact ⟨1, by simp, rfl⟩
      · exact hone
    · split
      · exact ⟨2, by simp, rfl⟩
      · exact hone
    · split
      · exact ⟨3, by simp, rfl⟩
      · exact hone
    · exact hone

theorem flatMap_runesFrom (skip : Nat) (text : Text) :
    (runesFrom skip text).flatMap Rune.bytes = text.drop skip := by
  induction text generalizing skip with
  | nil => cases skip <;> rfl
  | cons b rest ih =>
    cases skip with
    | zero =>
      obtain ⟨n, hn, hbytes⟩ := decodeRune_bytes b rest
      rw [runesFrom, flatMap_cons, ih, hbytes, length_cons, length_take,
        Nat.min_eq_left hn, Nat.add_sub_cancel, cons_append, take_append_drop]
      rfl
    | succ skip => exact ih skip

theorem flatMap_runes : (runes text).flatMap Rune.bytes = text := flatMap_runesFrom 0 text

theorem mem_runesFrom {skip : Nat} {text : Text} {r : Rune} (hr : r ∈ runesFrom skip text) :
    ∃ b rest, r = decodeRune b rest := by
  induction text generalizing skip with
  | nil => cases skip <;> cases hr
  | cons b rest ih =>
    cases skip with
    | zero =>
      rcases mem_cons.mp hr with rfl | hr
      · exact ⟨b, rest, rfl⟩
      · exact ih hr
    | succ skip => exact ih hr

theorem le_low_of_leading {b low high : UInt8} {n : Nat} (h : leading b = some (n, low, high)) :
    0x80 ≤ low := by
  unfold leading at h
  split_ifs at h <;> cases h <;> decide

theorem ascii_or_not {b : UInt8} {rest : Text} (h : (decodeRune b rest).valid = true) :
    (decodeRune b rest).bytes = [b] ∧ b < 0x80 ∨
      (decodeRune b rest).bytes.length ≠ 1 ∧ ∀ c ∈ (decodeRune b rest).bytes, 0x80 ≤ c := by
  generalize hr : decodeRune b rest = r at h ⊢
  unfold decodeRune at hr
  split_ifs at hr with hascii
  · rw [← hr]
    exact .inl ⟨rfl, hascii⟩
  · rw [UInt8.not_lt] at hascii
    have hsecond : ∀ {n : Nat} {low high b₁ : UInt8}, leading b = some (n, low, high) →
        low ≤ b₁ → 0x80 ≤ b₁ := fun hleading => UInt8.le_trans (le_low_of_leading hleading)
    split at hr <;> (try split_ifs at hr with hrange) <;> subst hr
    · exact .inr ⟨by simp, by simp [hascii, hsecond ‹_› hrange.1]⟩
    · cases h
    · simp only [continues, Bool.and_eq_true, decide_eq_true_eq] at hrange
      exact .inr ⟨by simp, by simp [hascii, hsecond ‹_› hrange.1.1, hrange.2.1]⟩
    · cases h
    · simp only [continues, Bool.and_eq_true, decide_eq_true_eq] at hrange
      exact .inr ⟨by simp, by simp [hascii, hsecond ‹_› hrange.1.1, hrange.2.1.1, hrange.2.2.1]⟩
    · cases h
    · cases h

theorem trimSpace_eq_self {text : Text} (h : ∀ r ∈ runes text, isSpace r.value = false) :
    trimSpace text = text := by
  have hkeep : ∀ rs : List Rune, (∀ r ∈ rs, isSpace r.value = false) →
      rs.dropWhile (fun r => isSpace r.value) = rs := by
    intro rs hrs
    cases rs with
    | nil => rfl
    | cons r rs =>
      apply dropWhile_cons_of_neg
      simp [hrs r (.head _)]
  simp only [trimSpace]
  rw [hkeep _ h, hkeep _ fun r hr => h r (mem_reverse.mp hr), reverse_reverse, flatMap_runes]

theorem runes_ascii {text : Text} (h : ∀ b ∈ text, b < 0x80) :
    runes text = text.map fun b => ⟨b.toNat, [b]⟩ := by
  unfold runes
  induction text with
  | nil => rfl
  | cons b text ih =>
    have hrune : decodeRune b text = ⟨b.toNat, [b]⟩ := if_pos (h b (.head _))
    rw [runesFrom, hrune]
    exact congrArg (_ :: ·) (ih fun b' hb' => h b' (mem_cons_of_mem b hb'))

theorem length_flatMap_runes_le {f : Rune → Text} {k : Nat}
    (hf : ∀ r, (f r).length ≤ k * r.bytes.length) (text : Text) :
    ((runes text).flatMap f).length ≤ k * text.length := by
  have hsum : ∀ rs : List Rune, (rs.flatMap f).length ≤ k * (rs.flatMap Rune.bytes).length := by
    intro rs
    induction rs with
    | nil => exact Nat.zero_le _
    | cons r rs ih =>
      rw [flatMap_cons, flatMap_cons, length_append, length_append, Nat.mul_add]
      exact Nat.add_le_add (hf r) ih
  have hbound := hsum (runes text)
  rwa [flatMap_runes] at hbound

end Utf8
