import Mathlib.Data.Nat.Log
import Mathlib.Tactic.Ring
import Mathlib.Tactic.Linarith

/-!
# Decimal texts of integers

Integers travel between processes as canonical decimal texts. A comparison by
length and then by characters is the comparison of the numbers, and the
checked parsers invert the formatter inside their range.
-/

namespace EchoJoyGateway.Decimal

open List

abbrev Text := List Char

variable (n : Nat) (t : Text)

def digits : Text := Nat.toDigits 10 n

def isDigits : Bool := !t.isEmpty && t.all Char.isDigit

def ofDigits : Nat := Nat.ofDigitChars 10 t 0

def formatInt : Int → Text
  | .ofNat n => digits n
  | .negSucc n => '-' :: digits (n + 1)

/-- An integer text with an optional sign; the sign is read as Go does. -/
def parseSigned : Option Int :=
  match t with
  | '-' :: rest => if isDigits rest then some (-(ofDigits rest : Int)) else none
  | '+' :: rest => if isDigits rest then some (ofDigits rest : Int) else none
  | rest => if isDigits rest then some (ofDigits rest : Int) else none

def parseUint (bits : Nat) (t : Text) : Option Nat :=
  if isDigits t ∧ ofDigits t < 2 ^ bits then some (ofDigits t) else none

def inInt64 (z : Int) : Bool := decide (-2 ^ 63 ≤ z) && decide (z < 2 ^ 63)

def parseInt64 : Option Int :=
  match parseSigned t with
  | none => none
  | some z => if inInt64 z then some z else none

/-- Length first, then the characters. -/
def cmp (a b : Text) : Ordering :=
  if a.length ≠ b.length then (if a.length < b.length then .lt else .gt)
  else if a = b then .eq
  else if a < b then .lt
  else .gt

theorem isDigits_digits : isDigits (digits n) = true := by
  simp only [isDigits, Bool.and_eq_true, Bool.not_eq_true', isEmpty_eq_false_iff, all_eq_true]
  exact ⟨Nat.toDigits_ne_nil, fun c hc => Nat.isDigit_of_mem_toDigits (by decide) (by decide) hc⟩

@[simp] theorem ofDigits_digits : ofDigits (digits n) = n := Nat.ofDigitChars_ten_toDigits

theorem digits_injective {m n : Nat} (h : digits m = digits n) : m = n := by
  rw [← ofDigits_digits m, h, ofDigits_digits]

@[simp] theorem digits_inj {m n : Nat} : digits m = digits n ↔ m = n :=
  ⟨digits_injective, congrArg digits⟩

theorem digits_ne_nil : digits n ≠ [] := Nat.toDigits_ne_nil

theorem head_digits_isDigit {n : Nat} {c : Char} {rest : Text} (h : digits n = c :: rest) :
    c.isDigit = true := by
  apply Nat.isDigit_of_mem_toDigits (b := 10) (n := n) (by decide) (by decide)
  rw [show Nat.toDigits 10 n = c :: rest from h]
  exact .head _

theorem parseUint_digits {bits n : Nat} (h : n < 2 ^ bits) :
    parseUint bits (digits n) = some n := by
  simp [parseUint, isDigits_digits, h]

theorem parseSigned_digits : parseSigned (digits n) = some (n : Int) := by
  have hd := isDigits_digits n
  unfold parseSigned
  split
  · rename_i rest heq
    exact absurd (head_digits_isDigit heq) (by decide)
  · rename_i rest heq
    exact absurd (head_digits_isDigit heq) (by decide)
  · rw [if_pos hd, ofDigits_digits]

@[simp] theorem parseSigned_formatInt (z : Int) : parseSigned (formatInt z) = some z := by
  cases z with
  | ofNat n => exact parseSigned_digits n
  | negSucc n =>
    simp only [formatInt, parseSigned, isDigits_digits, ofDigits_digits]
    rfl

theorem formatInt_injective {y z : Int} (h : formatInt y = formatInt z) : y = z := by
  have hy := parseSigned_formatInt y
  rw [h, parseSigned_formatInt] at hy
  exact (Option.some.inj hy).symm

@[simp] theorem formatInt_natCast : formatInt (n : Int) = digits n := rfl

theorem parseInt64_formatInt {z : Int} (h : inInt64 z = true) :
    parseInt64 (formatInt z) = some z := by
  simp [parseInt64, h]

theorem ofDigits_cons (c : Char) (t : Text) :
    ofDigits (c :: t) = 10 ^ t.length * (c.toNat - 48) + ofDigits t := by
  unfold ofDigits
  rw [Nat.ofDigitChars_cons, Nat.ofDigitChars_eq_ofDigitChars_zero]
  simp

theorem ofDigits_lt (h : t.all Char.isDigit = true) : ofDigits t < 10 ^ t.length := by
  induction t with
  | nil => simp [ofDigits]
  | cons c t ih =>
    rw [all_cons, Bool.and_eq_true] at h
    have hc : c.toNat - 48 ≤ 9 := by
      have := h.1
      simp only [Char.isDigit, Bool.and_eq_true, decide_eq_true_eq] at this
      have h9 := this.2
      change c.toNat ≤ 57 at h9
      omega
    have ht := ih h.2
    rw [ofDigits_cons, length_cons, Nat.pow_succ]
    nlinarith

theorem toNat_lt_of_isDigit {c d : Char} (hc : c.isDigit = true) (h : c < d) :
    c.toNat - 48 < d.toNat - 48 := by
  simp only [Char.isDigit, Bool.and_eq_true, decide_eq_true_eq] at hc
  have h0 := hc.1
  change 48 ≤ c.toNat at h0
  have hlt : c.toNat < d.toNat := h
  omega

theorem ofDigits_lt_of_lt {a b : Text} (ha : a.all Char.isDigit = true)
    (hb : b.all Char.isDigit = true) (hl : a.length = b.length) (h : a < b) :
    ofDigits a < ofDigits b := by
  induction a generalizing b with
  | nil =>
    cases b with
    | nil => exact absurd h (List.lt_irrefl _)
    | cons d b => simp at hl
  | cons c a ih =>
    cases b with
    | nil => simp at hl
    | cons d b =>
      simp only [all_cons, Bool.and_eq_true] at ha hb
      have hl' : a.length = b.length := by simpa using hl
      rw [ofDigits_cons, ofDigits_cons, hl']
      rcases cons_lt_cons_iff.mp h with hcd | ⟨rfl, hab⟩
      · have hdig := toNat_lt_of_isDigit ha.1 hcd
        have hlt := ofDigits_lt a ha.2
        rw [hl'] at hlt
        have hmul := Nat.mul_le_mul_left (10 ^ b.length) hdig
        rw [Nat.mul_succ] at hmul
        omega
      · have := ih ha.2 hb.2 hl' hab
        omega

theorem length_digits_lt {m n : Nat} (h : (digits m).length < (digits n).length) : m < n := by
  by_contra hge
  have hpos : 0 < (digits m).length := length_pos_iff.mpr (digits_ne_nil m)
  have hm := (Nat.length_toDigits_le_iff (b := 10) (n := m) (by decide) hpos).mp le_rfl
  have hn := (Nat.length_toDigits_le_iff (b := 10) (n := n) (by decide) hpos).mpr
    (lt_of_le_of_lt (not_lt.mp hge) hm)
  exact absurd h (not_lt.mpr hn)

theorem digits_all : (digits n).all Char.isDigit = true := by
  have h := isDigits_digits n
  simp only [isDigits, Bool.and_eq_true] at h
  exact h.2

theorem cmp_digits (m n : Nat) : cmp (digits m) (digits n) = compare m n := by
  unfold cmp
  split
  · split
    · rename_i hlt
      exact (Nat.compare_eq_lt.mpr (length_digits_lt hlt)).symm
    · have hgt : (digits n).length < (digits m).length := by omega
      exact (Nat.compare_eq_gt.mpr (length_digits_lt hgt)).symm
  · rename_i hlen
    have hlen := not_not.mp hlen
    split
    · rename_i heq
      rw [digits_injective heq]
      exact (Nat.compare_eq_eq.mpr rfl).symm
    · rename_i hne
      split
      · rename_i hlt
        have := ofDigits_lt_of_lt (digits_all m) (digits_all n) hlen hlt
        rw [ofDigits_digits, ofDigits_digits] at this
        exact (Nat.compare_eq_lt.mpr this).symm
      · rename_i hnlt
        have hgt : digits n < digits m := by
          by_contra hnot
          exact hne (List.le_antisymm (List.not_lt.mp hnot) (List.not_lt.mp hnlt))
        have := ofDigits_lt_of_lt (digits_all n) (digits_all m) hlen.symm hgt
        rw [ofDigits_digits, ofDigits_digits] at this
        exact (Nat.compare_eq_gt.mpr this).symm

end EchoJoyGateway.Decimal
