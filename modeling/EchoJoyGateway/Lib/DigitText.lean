import EchoJoyGateway.Lib.Decimal
import EchoJoyGateway.Lib.Utf8

/-!
# Numbers as strings of digits

A string of decimal digits, of any length and with any leading zeros, stands for
a number. Strings are bytes; glueing two strings shifts the number of the first.
-/

namespace DigitText

open Utf8 List

def zero : UInt8 := 48

def isDigit (b : UInt8) : Bool := 48 ≤ b && b ≤ 57

variable (n : Nat) (text : Text)

def allDigits : Bool := text.all isDigit

def digit (b : UInt8) : Nat := b.toNat - 48

def value : Nat := text.foldl (fun n b => 10 * n + digit b) 0

def numeral : Text := (EchoJoyGateway.Decimal.digits n).map fun c => UInt8.ofNat c.toNat

def zeros : Text := List.replicate n zero

def trimLeft : Text := text.dropWhile (· == zero)

def trimRight : Text := (text.reverse.dropWhile (· == zero)).reverse

/-! ## Values -/

theorem foldl_eq :
    text.foldl (fun n b => 10 * n + digit b) n = n * 10 ^ text.length + value text := by
  induction text generalizing n with
  | nil => simp [value]
  | cons b text ih =>
    have hone := ih (10 * 0 + digit b)
    rw [value, foldl_cons, foldl_cons, ih, hone, length_cons]
    ring

theorem value_append (a b : Text) : value (a ++ b) = value a * 10 ^ b.length + value b := by
  rw [value, foldl_append, foldl_eq]
  rfl

theorem value_cons (b : UInt8) (text : Text) :
    value (b :: text) = digit b * 10 ^ text.length + value text := by
  rw [value, foldl_cons, foldl_eq]
  simp

@[simp] theorem value_nil : value [] = 0 := rfl

@[simp] theorem length_zeros : (zeros n).length = n := length_replicate

@[simp] theorem value_zeros : value (zeros n) = 0 := by
  induction n with
  | zero => rfl
  | succ n ih =>
    rw [zeros, replicate_succ, value_cons]
    simpa [zeros, digit, zero] using ih

theorem allDigits_zeros : allDigits (zeros n) = true := by
  simp [allDigits, zeros, isDigit, zero]

theorem allDigits_append {a b : Text} :
    allDigits (a ++ b) = true ↔ allDigits a = true ∧ allDigits b = true := by
  simp [allDigits]

theorem digit_le {b : UInt8} (h : isDigit b = true) : digit b ≤ 9 := by
  simp only [isDigit, Bool.and_eq_true, decide_eq_true_eq] at h
  have hhigh : b.toNat ≤ 57 := h.2
  unfold digit
  omega

theorem value_lt {text : Text} (h : allDigits text = true) : value text < 10 ^ text.length := by
  induction text with
  | nil => decide
  | cons b text ih =>
    simp only [allDigits, all_cons, Bool.and_eq_true] at h
    have hdigit := digit_le h.1
    have hrest := ih h.2
    rw [value_cons, length_cons, Nat.pow_succ]
    nlinarith

/-! ## Numerals -/

theorem isDigit_ofNat {c : Char} (h : c.isDigit = true) :
    isDigit (UInt8.ofNat c.toNat) = true ∧ digit (UInt8.ofNat c.toNat) = c.toNat - 48 := by
  simp only [Char.isDigit, Bool.and_eq_true, decide_eq_true_eq] at h
  have hlow : 48 ≤ c.toNat := h.1
  have hhigh : c.toNat ≤ 57 := h.2
  have hnat : (UInt8.ofNat c.toNat).toNat = c.toNat := by
    exact Nat.mod_eq_of_lt (by omega)
  constructor
  · simp only [isDigit, Bool.and_eq_true, decide_eq_true_eq, UInt8.le_iff_toNat_le, hnat]
    exact ⟨hlow, hhigh⟩
  · rw [digit, hnat]

theorem allDigits_numeral : allDigits (numeral n) = true := by
  simp only [allDigits, numeral, all_map, all_eq_true]
  intro c hc
  exact (isDigit_ofNat (all_eq_true.mp (EchoJoyGateway.Decimal.digits_all n) c hc)).1

theorem value_numeral : value (numeral n) = n := by
  have hmap : ∀ (cs : List Char) (m : Nat), cs.all Char.isDigit = true →
      (cs.map fun c => UInt8.ofNat c.toNat).foldl (fun n b => 10 * n + digit b) m =
        Nat.ofDigitChars 10 cs m := by
    intro cs
    induction cs with
    | nil => intro m _; rfl
    | cons c cs ih =>
      intro m hcs
      simp only [all_cons, Bool.and_eq_true] at hcs
      rw [map_cons, foldl_cons, (isDigit_ofNat hcs.1).2, ih _ hcs.2]
      rfl
  rw [value, numeral, hmap _ 0 (EchoJoyGateway.Decimal.digits_all n)]
  exact EchoJoyGateway.Decimal.ofDigits_digits n

theorem numeral_ne_nil : numeral n ≠ [] := by
  intro h
  exact EchoJoyGateway.Decimal.digits_ne_nil n (map_eq_nil_iff.mp h)

theorem length_numeral_le {n k : Nat} (hk : 0 < k) (h : n < 10 ^ k) : (numeral n).length ≤ k := by
  rw [numeral, length_map]
  exact (Nat.length_toDigits_le_iff (by decide) hk).mpr h

/-! ## Trimming zeros -/

theorem exists_zeros_trimLeft : ∃ n, text = zeros n ++ trimLeft text := by
  induction text with
  | nil => exact ⟨0, rfl⟩
  | cons b text ih =>
    unfold trimLeft
    cases hb : b == zero with
    | false => exact ⟨0, by simp [zeros, hb]⟩
    | true =>
      obtain ⟨n, hn⟩ := ih
      obtain rfl := beq_iff_eq.mp hb
      exact ⟨n + 1, congrArg (zero :: ·) hn⟩

theorem exists_trimRight_zeros : ∃ n, text = trimRight text ++ zeros n := by
  obtain ⟨n, hn⟩ := exists_zeros_trimLeft text.reverse
  refine ⟨n, ?_⟩
  have hreverse := congrArg List.reverse hn
  simpa [zeros, trimRight, trimLeft] using hreverse

theorem head_trimLeft : (trimLeft text).head? ≠ some zero := by
  intro h
  have hhead := head?_dropWhile_not (· == zero) text
  rw [show (text.dropWhile (· == zero)).head? = some zero from h] at hhead
  cases hhead

theorem getLast_trimRight : (trimRight text).getLast? ≠ some zero := by
  rw [trimRight, getLast?_reverse]
  exact head_trimLeft text.reverse

theorem drop_leadingZeros : text.drop (text.length - (trimLeft text).length) = trimLeft text := by
  obtain ⟨n, hn⟩ := exists_zeros_trimLeft text
  generalize trimLeft text = rest at hn
  subst hn
  rw [length_append, Nat.add_sub_cancel, drop_left]

theorem digit_pos {b : UInt8} (h : isDigit b = true) (hne : b ≠ zero) : 0 < digit b := by
  simp only [isDigit, Bool.and_eq_true, decide_eq_true_eq] at h
  have hlow : 48 ≤ b.toNat := h.1
  have hneat : b.toNat ≠ 48 := fun heq => hne (UInt8.toNat_inj.mp heq)
  unfold digit
  omega

theorem le_value {text : Text} (hdigits : allDigits text = true) (hhead : text.head? ≠ some zero)
    (hne : text ≠ []) : 10 ^ (text.length - 1) ≤ value text := by
  cases text with
  | nil => exact absurd rfl hne
  | cons b text =>
    have hb := digit_pos (all_eq_true.mp hdigits b (.head _)) fun heq => hhead (congrArg some heq)
    rw [value_cons]
    exact Nat.le_add_right_of_le (Nat.le_mul_of_pos_left _ hb)

theorem not_ten_dvd_value {text : Text} (hdigits : allDigits text = true)
    (hlast : text.getLast? ≠ some zero) (hne : text ≠ []) : ¬ 10 ∣ value text := by
  obtain ⟨rest, b, rfl⟩ : ∃ rest b, text = rest ++ [b] := ⟨_, _, (dropLast_concat_getLast hne).symm⟩
  have hb := all_eq_true.mp hdigits b (by simp)
  have hpos := digit_pos hb fun heq => hlast (by rw [getLast?_concat, heq])
  have hle := digit_le hb
  rw [value_append, value_cons, value_nil, length_singleton]
  simp only [length_nil]
  omega

end DigitText
