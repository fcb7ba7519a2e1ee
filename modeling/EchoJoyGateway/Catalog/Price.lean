import EchoJoyGateway.Lib.HalfUp
import EchoJoyGateway.Pricing.Decimal

/-!
# Catalog prices

`parseJSONUSD` and `parseModelsDevFloatArtifact` of `internal/catalog/parse.go`, which read
the number literals of a downloaded catalog.
-/

namespace EchoJoyGateway.Catalog

open Utf8 DigitText Pricing List Option

def plus : UInt8 := 43

def smallE : UInt8 := 101

def capitalE : UInt8 := 69

def modelsDevArtifactMinFractionDigits : Nat := 15

/-- `big.Rat.SetString` of a decimal without an exponent. -/
def ratSetString (value : Text) : Option ℚ :=
  let integer := (cut value).1
  let fraction := (cut value).2.getD []
  if allDigits (integer ++ fraction) then
    some (mkRat (DigitText.value (integer ++ fraction)) (10 ^ fraction.length))
  else none

def parseModelsDevFloatArtifact (value : Text) : Option Int :=
  let hasFraction := (cut value).2.isSome
  let fraction := (cut value).2.getD []
  if hasFraction = false ∨ smallE ∈ fraction ∨ capitalE ∈ fraction ∨
      fraction.length < modelsDevArtifactMinFractionDigits then none
  else
    (ratSetString value).bind fun exact =>
      if exact < 0 then none
      else
        let scaled := exact * 1000000000
        let quotient := scaled.num.tdiv scaled.den
        let remainder := scaled.num.tmod scaled.den
        let rounded := if 2 * remainder ≥ scaled.den then quotient + 1 else quotient
        if (rounded = 0 ∧ exact ≠ 0) ∨ isInt64 rounded = false then none else some rounded

/-- `strings.Cut` at `e`, or else at `E`. -/
def cutExponent (value : Text) : Text × Option Text :=
  if (Segments.cut smallE value).2.isSome then Segments.cut smallE value
  else Segments.cut capitalE value

/-- `strconv.ParseInt(text, 10, 32)`. -/
def parseInt32 (text : Text) : Option Int :=
  let negative := text.head? = some minus
  let digits := if negative ∨ text.head? = some plus then text.tail else text
  if digits = [] ∨ allDigits digits = false then none
  else if negative then
    if DigitText.value digits ≤ 2 ^ 31 then some (-(DigitText.value digits : Int)) else none
  else if DigitText.value digits < 2 ^ 31 then some (DigitText.value digits) else none

/-- The plain decimal of `0.digits × 10 ^ decimalPosition`. -/
def placePoint (digits : Text) (decimalPosition : Int) : Except String Int :=
  if decimalPosition ≤ 0 then
    if -decimalPosition + digits.length > 9 then
      .error "USD price has more than nine decimal places"
    else parseUSD ([zero] ++ [point] ++ zeros (-decimalPosition).toNat ++ digits)
  else if decimalPosition ≥ digits.length then
    if decimalPosition > 32 then .error "USD price exceeds int64 nano USD"
    else parseUSD (digits ++ zeros (decimalPosition.toNat - digits.length))
  else if digits.length - decimalPosition > 9 then
    .error "USD price has more than nine decimal places"
  else
    parseUSD (digits.take decimalPosition.toNat ++ [point] ++ digits.drop decimalPosition.toNat)

/-- The part of `parseJSONUSD` for a mantissa and an exponent. -/
def expandExponent (mantissa : Text) (exponent : Int) : Except String Int :=
  let integer := (cut mantissa).1
  let hasFraction := (cut mantissa).2.isSome
  let fraction := (cut mantissa).2.getD []
  if integer = [] ∨ (hasFraction ∧ fraction = []) then .error "invalid USD decimal"
  else
    let digits := integer ++ fraction
    let leadingZeros := digits.length - (trimLeft digits).length
    if leadingZeros = digits.length then parseUSD [zero]
    else
      let decimalPosition := (integer.length - leadingZeros : Int) + exponent
      let digits := trimRight (digits.drop leadingZeros)
      if digits = [] then parseUSD [zero] else placePoint digits decimalPosition

def parseJSONUSD (value : Text) : Except String Int :=
  if value.head? = some minus then .error "USD price must be non-negative"
  else
    match parseModelsDevFloatArtifact value with
    | some normalized => .ok normalized
    | none =>
      match cutExponent value with
      | (_, none) => parseUSD value
      | (mantissa, some exponentText) =>
        match parseInt32 exponentText with
        | none => .error "invalid USD exponent"
        | some exponent => expandExponent mantissa exponent

/-! ## Number literals -/

inductive Sign where
  | none
  | plus
  | minus
  deriving DecidableEq

def Sign.text : Sign → Text
  | .none => []
  | .plus => [Catalog.plus]
  | .minus => [Pricing.minus]

structure Exponent where
  capital : Bool
  sign : Sign
  digits : Text
  wf : digits ≠ [] ∧ allDigits digits = true

def Exponent.text (exponent : Exponent) : Text :=
  (if exponent.capital then capitalE else smallE) :: (exponent.sign.text ++ exponent.digits)

def Exponent.value (exponent : Exponent) : Int :=
  match exponent.sign with
  | .minus => -(DigitText.value exponent.digits : Int)
  | _ => DigitText.value exponent.digits

structure Literal where
  integer : Text
  fraction : Option Text
  exponent : Option Exponent
  whole : integer ≠ [] ∧ allDigits integer = true ∧ (integer.head? = some zero → integer = [zero])
  decimals : ∀ text, fraction = some text → text ≠ [] ∧ allDigits text = true

namespace Literal

def mantissa (literal : Literal) : Text :=
  literal.integer ++ (literal.fraction.map (point :: ·)).getD []

def text (literal : Literal) : Text :=
  literal.mantissa ++ (literal.exponent.map Exponent.text).getD []

def fractionDigits (literal : Literal) : Nat := (literal.fraction.getD []).length

/-- The number a literal denotes. -/
def value (literal : Literal) : ℚ :=
  DigitText.value (literal.integer ++ literal.fraction.getD []) *
    10 ^ ((literal.exponent.map Exponent.value).getD 0 - literal.fractionDigits)

end Literal

/-! ## The exponent form -/

theorem parseUSD_iff {text integer fraction : Text} (h : Scaled 9 text integer fraction) {n : Int} :
    parseUSD text = .ok n ↔ n = scaledValue 9 integer fraction ∧ isInt64 n = true := by
  rw [← h.parse_iff]
  unfold parseUSD parseAmount amountDecimalPlaces
  cases parseScaledDecimal text 9 with
  | error message => exact ⟨nofun, nofun⟩
  | ok amount => exact Iff.rfl

theorem eq_scaled_iff {n : Int} {m j : Nat} {k : Int} (hk : k = j) :
    (n : ℚ) = m * 10 ^ k ↔ n = (m * 10 ^ j : Nat) := by
  subst hk
  exact_mod_cast Iff.rfl

theorem ne_scaled {m : Nat} (h : ¬ 10 ∣ m) {k : Int} (hk : k < 0) (n : Int) :
    (n : ℚ) ≠ m * 10 ^ k := by
  intro heq
  obtain ⟨j, rfl⟩ : ∃ j : Nat, k = -((j + 1 : Nat) : Int) := ⟨(-k - 1).toNat, by omega⟩
  have hmul : (n : ℚ) * 10 ^ (j + 1) = m := by
    rw [heq, zpow_neg, zpow_natCast, mul_assoc, inv_mul_cancel₀ (by positivity), mul_one]
  have hmul' : n * 10 ^ (j + 1) = m := by exact_mod_cast hmul
  have hdvd : (10 : Int) ∣ m := ⟨n * 10 ^ j, by rw [← hmul']; ring⟩
  exact h (by exact_mod_cast hdvd)

section Places

variable {digits : Text} (hdigits : allDigits digits = true) (hne : digits ≠ [])
include hdigits hne

theorem scaled_below {k : Nat} (h : k + digits.length ≤ 9) :
    Scaled 9 ([zero] ++ [point] ++ zeros k ++ digits) [zero] (zeros k ++ digits) ∧
      scaledValue 9 [zero] (zeros k ++ digits) = value digits * 10 ^ (9 - (k + digits.length)) := by
  constructor
  · refine ⟨⟨nofun, rfl⟩, ⟨allDigits_append.mpr ⟨allDigits_zeros _, hdigits⟩, ?_⟩,
      .inr ⟨?_, append_ne_nil_of_right_ne_nil _ hne⟩⟩
    · rwa [length_append, length_zeros]
    · rfl
  · rw [scaledValue, value_append, value_zeros]
    simp [value, digit, zero]

theorem scaled_above (k : Nat) :
    Scaled 9 (digits ++ zeros k) (digits ++ zeros k) [] ∧
      scaledValue 9 (digits ++ zeros k) [] = value digits * 10 ^ (k + 9) := by
  constructor
  · exact ⟨⟨append_ne_nil_of_left_ne_nil hne _,
      allDigits_append.mpr ⟨hdigits, allDigits_zeros k⟩⟩, ⟨rfl, Nat.zero_le 9⟩, .inl ⟨rfl, rfl⟩⟩
  · rw [scaledValue, value_append, value_zeros, length_zeros, value_nil]
    ring

omit hne in
theorem scaled_within {k : Nat} (hk : 0 < k) (hlt : k < digits.length)
    (h : digits.length - k ≤ 9) :
    Scaled 9 (digits.take k ++ [point] ++ digits.drop k) (digits.take k) (digits.drop k) ∧
      scaledValue 9 (digits.take k) (digits.drop k) =
        value digits * 10 ^ (9 - (digits.length - k)) := by
  have hsplit := take_append_drop k digits
  have hparts := allDigits_append.mp (by rwa [hsplit])
  constructor
  · refine ⟨⟨?_, hparts.1⟩, ⟨hparts.2, by rwa [length_drop]⟩, .inr ⟨?_, ?_⟩⟩
    · rw [← length_pos_iff, length_take]
      omega
    · rw [append_assoc]
      rfl
    · rw [← length_pos_iff, length_drop]
      omega
  · have hvalue : value digits = value (digits.take k) * 10 ^ (digits.length - k) +
        value (digits.drop k) := by
      rw [← length_drop, ← value_append, hsplit]
    have hpower : 10 ^ (digits.length - k) * 10 ^ (9 - (digits.length - k)) = 10 ^ 9 := by
      rw [← pow_add, Nat.add_sub_cancel' h]
    rw [scaledValue, hvalue, length_drop, ← hpower]
    ring

theorem placePoint_iff (hhead : digits.head? ≠ some zero) (hlast : digits.getLast? ≠ some zero)
    (decimalPosition : Int) {n : Int} :
    placePoint digits decimalPosition = .ok n ↔
      (n : ℚ) = value digits * 10 ^ (decimalPosition - digits.length + 9) ∧ isInt64 n = true := by
  have hten := not_ten_dvd_value hdigits hlast hne
  unfold placePoint
  split
  · obtain ⟨k, rfl⟩ : ∃ k : Nat, decimalPosition = -(k : Int) :=
      ⟨(-decimalPosition).toNat, by omega⟩
    split
    · exact ⟨nofun, fun h => absurd h.1 (ne_scaled hten (by omega) n)⟩
    · obtain ⟨hscaled, hvalue⟩ := scaled_below hdigits hne (k := k) (by omega)
      rw [show (- -(k : Int)).toNat = k by omega, parseUSD_iff hscaled, hvalue,
        eq_scaled_iff (j := 9 - (k + digits.length)) (by omega)]
  · obtain ⟨k, rfl⟩ : ∃ k : Nat, decimalPosition = k := ⟨decimalPosition.toNat, by omega⟩
    rw [Int.toNat_natCast]
    split
    · split
      · refine ⟨nofun, fun ⟨hn, hfits⟩ => ?_⟩
        -- More than 32 digits before the point are more than an `int64` of nano USD.
        rw [eq_scaled_iff (j := k - digits.length + 9) (by omega)] at hn
        have hvalue := le_value hdigits hhead hne
        have hlarge :=
          calc 10 ^ 32 ≤ 10 ^ (digits.length - 1 + (k - digits.length + 9)) :=
                Nat.pow_le_pow_right (by decide) (by omega)
            _ = 10 ^ (digits.length - 1) * 10 ^ (k - digits.length + 9) := pow_add _ _ _
            _ ≤ value digits * 10 ^ (k - digits.length + 9) := Nat.mul_le_mul_right _ hvalue
        rw [hn, isInt64_natCast] at hfits
        exact absurd (Nat.lt_of_le_of_lt hlarge hfits) (by decide)
      · obtain ⟨hscaled, hvalue⟩ := scaled_above hdigits hne (k - digits.length)
        rw [parseUSD_iff hscaled, hvalue, eq_scaled_iff (j := k - digits.length + 9) (by omega)]
    · split
      · exact ⟨nofun, fun h => absurd h.1 (ne_scaled hten (by omega) n)⟩
      · obtain ⟨hscaled, hvalue⟩ := scaled_within hdigits (k := k) (by omega) (by omega) (by omega)
        rw [parseUSD_iff hscaled, hvalue, eq_scaled_iff (j := 9 - (digits.length - k)) (by omega)]

end Places

theorem trimmed {digits : Text} (hdigits : allDigits digits = true) (hne : trimLeft digits ≠ []) :
    ∃ a b : Nat, digits.length - (trimLeft digits).length = a ∧
      digits.length = a + (trimRight (trimLeft digits)).length + b ∧
      value digits = value (trimRight (trimLeft digits)) * 10 ^ b ∧
      allDigits (trimRight (trimLeft digits)) = true ∧ trimRight (trimLeft digits) ≠ [] ∧
      (trimRight (trimLeft digits)).head? ≠ some zero := by
  obtain ⟨a, ha⟩ := exists_zeros_trimLeft digits
  obtain ⟨b, hb⟩ := exists_trimRight_zeros (trimLeft digits)
  have hhead := head_trimLeft digits
  generalize trimRight (trimLeft digits) = inner at hb ⊢
  rw [hb] at ha hhead hne ⊢
  rw [ha, allDigits_append, allDigits_append] at hdigits
  have hinner : inner ≠ [] := by
    rintro rfl
    cases b with
    | zero => exact hne rfl
    | succ b => exact hhead rfl
  refine ⟨a, b, ?_, ?_, ?_, hdigits.2.1, hinner, ?_⟩
  · rw [ha, length_append, length_zeros, Nat.add_sub_cancel]
  · rw [ha, length_append, length_append, length_zeros, length_zeros, Nat.add_assoc]
  · rw [ha, value_append, value_append, value_zeros, value_zeros, length_zeros]
    omega
  · rwa [head?_append_of_ne_nil _ hinner] at hhead

variable {integer : Text} {fraction : Option Text}

theorem cut_mantissa (hinteger : allDigits integer = true) :
    cut (integer ++ (fraction.map (point :: ·)).getD []) = (integer, fraction) := by
  cases fraction with
  | none =>
    rw [map_none, getD_none, append_nil]
    exact Segments.cut_of_not_mem (point_not_mem hinteger)
  | some text => exact Segments.cut_append text (point_not_mem hinteger)

theorem parseUSD_zero {n : Int} : parseUSD [zero] = .ok n ↔ n = 0 := by
  have hscaled : Scaled 9 [zero] [zero] [] := ⟨⟨nofun, rfl⟩, ⟨rfl, Nat.zero_le 9⟩, .inl ⟨rfl, rfl⟩⟩
  rw [parseUSD_iff hscaled, show scaledValue 9 [zero] [] = 0 from rfl, isInt64_iff]
  omega

theorem expandExponent_iff (hinteger : integer ≠ [] ∧ allDigits integer = true)
    (hfraction : ∀ text, fraction = some text → text ≠ [] ∧ allDigits text = true) (exponent : Int)
    {n : Int} :
    expandExponent (integer ++ (fraction.map (point :: ·)).getD []) exponent = .ok n ↔
      (n : ℚ) = value (integer ++ fraction.getD []) *
          10 ^ (exponent - (fraction.getD []).length + 9) ∧ isInt64 n = true := by
  have hdigits : allDigits (integer ++ fraction.getD []) = true := by
    rw [allDigits_append]
    refine ⟨hinteger.2, ?_⟩
    cases fraction with
    | none => rfl
    | some text => exact (hfraction text rfl).2
  have hparts : ¬ (integer = [] ∨ (fraction.isSome = true ∧ fraction.getD [] = [])) := by
    rintro (hnil | ⟨hsome, hnil⟩)
    · exact hinteger.1 hnil
    · obtain ⟨text, rfl⟩ := isSome_iff_exists.mp hsome
      exact (hfraction text rfl).1 hnil
  have hlength : (integer ++ fraction.getD []).length =
      integer.length + (fraction.getD []).length := length_append
  simp only [expandExponent, cut_mantissa hinteger.2, if_neg hparts]
  generalize hall : integer ++ fraction.getD [] = digits at hdigits hlength ⊢
  by_cases hnil : trimLeft digits = []
  · obtain ⟨a, ha⟩ := exists_zeros_trimLeft digits
    have hvalue : value digits = 0 := by
      rw [ha, hnil, append_nil, value_zeros]
    rw [if_pos (by simp [hnil]), parseUSD_zero, hvalue]
    constructor
    · rintro rfl
      exact ⟨by simp, by decide⟩
    · rintro ⟨h, -⟩
      simpa using h
  · obtain ⟨a, b, hleading, hcount, hvalue, hinner, hne, hhead⟩ := trimmed hdigits hnil
    have hpos : 0 < (trimRight (trimLeft digits)).length := length_pos_of_ne_nil hne
    rw [drop_leadingZeros, hleading, if_neg (by omega), if_neg hne,
      placePoint_iff hinner hne hhead (getLast_trimRight _), hvalue]
    push_cast
    rw [mul_assoc, ← zpow_natCast, ← zpow_add₀ (by norm_num)]
    rw [show (integer.length - a : Int) + exponent - (trimRight (trimLeft digits)).length + 9 =
      b + (exponent - (fraction.getD []).length + 9) by omega]

/-! ## Reading a literal -/

variable {c : UInt8}

theorem isDigit_ne {b : UInt8} (h : isDigit b = true) (hc : isDigit c = false) : b ≠ c := by
  rintro rfl
  rw [h] at hc
  cases hc

variable {text : Text}

theorem not_mem_digits (h : allDigits text = true) (hc : isDigit c = false) :
    c ∉ text := fun hmem =>
  isDigit_ne (all_eq_true.mp h c hmem) hc rfl

theorem head_ne_of_digits (h : allDigits text = true) (hc : isDigit c = false) :
    text.head? ≠ some c := fun hhead =>
  not_mem_digits h hc (mem_of_mem_head? hhead)

theorem parseInt32_exponent {exponent : Exponent}
    (hfits : -2 ^ 31 ≤ exponent.value ∧ exponent.value < 2 ^ 31) :
    parseInt32 (exponent.sign.text ++ exponent.digits) = some exponent.value := by
  obtain ⟨capital, sign, digits, hne, hdigits⟩ := exponent
  simp only [Exponent.value] at hfits ⊢
  cases sign with
  | none =>
    have hminus : digits.head? ≠ some minus := head_ne_of_digits hdigits rfl
    have hplus : digits.head? ≠ some plus := head_ne_of_digits hdigits rfl
    have hvalue : (value digits : Int) < 2 ^ 31 := hfits.2
    have hlt : value digits < 2147483648 := by omega
    simp [parseInt32, Sign.text, hminus, hplus, hne, hdigits, hlt]
  | plus =>
    have hvalue : (value digits : Int) < 2 ^ 31 := hfits.2
    have hlt : value digits < 2147483648 := by omega
    simp [parseInt32, Sign.text, plus, minus, hne, hdigits, hlt]
  | minus =>
    have hvalue : -2 ^ 31 ≤ -(value digits : Int) := hfits.1
    have hle : value digits ≤ 2147483648 := by omega
    simp [parseInt32, Sign.text, hne, hdigits, hle]

theorem quoRem_eq_floor {q : ℚ} (hq : 0 ≤ q) :
    (if 2 * q.num.tmod q.den ≥ q.den then q.num.tdiv q.den + 1 else q.num.tdiv q.den) =
      ⌊q + 1 / 2⌋ := by
  obtain ⟨p, hp⟩ := Int.eq_ofNat_of_zero_le (Rat.num_nonneg.mpr hq)
  have hdiv : q = (p / q.den : ℚ) := by
    conv_lhs => rw [← Rat.num_div_den q, hp]
    rfl
  rw [hp, HalfUp.quoRem_eq_halfUp, HalfUp.halfUp_eq_floor p q.den_pos, ← hdiv]

namespace Literal

variable (literal : Literal)

theorem allDigits_fraction : allDigits (literal.fraction.getD []) = true := by
  cases hfraction : literal.fraction with
  | none => rfl
  | some text => exact (literal.decimals text hfraction).2

theorem not_mem_mantissa {c : UInt8} (hc : isDigit c = false) (hpoint : c ≠ point) :
    c ∉ literal.mantissa := by
  have hinteger := not_mem_digits literal.whole.2.1 hc
  unfold mantissa
  cases hfraction : literal.fraction with
  | none => simpa using hinteger
  | some text =>
    have htext := not_mem_digits (literal.decimals text hfraction).2 hc
    simp [hinteger, htext, hpoint]

theorem head_text : literal.text.head? ≠ some minus := by
  rw [text, mantissa, append_assoc, head?_append_of_ne_nil _ literal.whole.1]
  exact head_ne_of_digits literal.whole.2.1 rfl

theorem cutExponent_none (h : literal.exponent = none) :
    cutExponent literal.text = (literal.text, none) := by
  have htext : literal.text = literal.mantissa := by simp [text, h]
  have hsmall := Segments.cut_of_not_mem (literal.not_mem_mantissa (c := smallE) rfl (by decide))
  have hcapital := Segments.cut_of_not_mem
    (literal.not_mem_mantissa (c := capitalE) rfl (by decide))
  simp [cutExponent, htext, hsmall, hcapital]

variable {exponent : Exponent}

theorem cutExponent_some (h : literal.exponent = some exponent) :
    cutExponent literal.text =
      (literal.mantissa, some (exponent.sign.text ++ exponent.digits)) := by
  have htext : literal.text = literal.mantissa ++ exponent.text := by simp [text, h]
  have hsmall := literal.not_mem_mantissa (c := smallE) rfl (by decide)
  have hcapital := literal.not_mem_mantissa (c := capitalE) rfl (by decide)
  obtain ⟨capital, sign, digits, hne, hdigits⟩ := exponent
  have hdigits' := not_mem_digits hdigits (c := smallE) rfl
  have hsign : smallE ∉ sign.text := by cases sign <;> decide
  rw [htext]
  cases capital with
  | false =>
    have hcut := Segments.cut_append (sign.text ++ digits) hsmall
    simp [cutExponent, Exponent.text, hcut]
  | true =>
    have hcut := Segments.cut_append (sign.text ++ digits) hcapital
    have hnone : Segments.cut smallE (literal.mantissa ++ capitalE :: (sign.text ++ digits)) =
        (literal.mantissa ++ capitalE :: (sign.text ++ digits), none) :=
      Segments.cut_of_not_mem (by
        simp [hsmall, hsign, hdigits', show smallE ≠ capitalE by decide])
    simp [cutExponent, Exponent.text, hcut, hnone]

theorem artifact_exponent (h : literal.exponent = some exponent) :
    parseModelsDevFloatArtifact literal.text = none := by
  have hinteger := point_not_mem literal.whole.2.1
  have htext : literal.text = literal.mantissa ++ exponent.text := by simp [text, h]
  obtain ⟨capital, sign, digits, hne, hdigits⟩ := exponent
  rw [htext, mantissa]
  cases hfraction : literal.fraction with
  | none =>
    have hexponent :
        point ∉ literal.integer ++ Exponent.text ⟨capital, sign, digits, hne, hdigits⟩ := by
      have hsign : point ∉ sign.text := by cases sign <;> decide
      have hmark : point ≠ if capital then capitalE else smallE := by cases capital <;> decide
      simp [Exponent.text, hinteger, hsign, hmark, point_not_mem hdigits]
    simp [parseModelsDevFloatArtifact, cut, Segments.cut_of_not_mem hexponent]
  | some fraction =>
    have hcut := Segments.cut_append
      (fraction ++ Exponent.text ⟨capital, sign, digits, hne, hdigits⟩) hinteger
    have hmark : smallE ∈ Exponent.text ⟨capital, sign, digits, hne, hdigits⟩ ∨
        capitalE ∈ Exponent.text ⟨capital, sign, digits, hne, hdigits⟩ := by
      cases capital <;> simp [Exponent.text]
    simp only [map_some, getD_some, append_assoc, cons_append]
    simp only [parseModelsDevFloatArtifact, cut, hcut]
    rw [if_pos]
    rcases hmark with hmark | hmark
    · exact .inr (.inl (mem_append_right _ hmark))
    · exact .inr (.inr (.inl (mem_append_right _ hmark)))

theorem value_of_exponent_none (h : literal.exponent = none) :
    literal.value = DigitText.value (literal.integer ++ literal.fraction.getD []) /
      (10 ^ literal.fractionDigits : Nat) := by
  rw [value, h, map_none, getD_none, zero_sub, zpow_neg]
  push_cast
  rfl

theorem value_nonneg : 0 ≤ literal.value :=
  mul_nonneg (Nat.cast_nonneg _) (zpow_nonneg (by norm_num) _)

theorem artifact_eq (h : literal.exponent = none) :
    parseModelsDevFloatArtifact literal.text =
      if literal.fractionDigits < 15 then none
      else if (⌊literal.value * 10 ^ 9 + 1 / 2⌋ = 0 ∧ literal.value ≠ 0) ∨
          isInt64 ⌊literal.value * 10 ^ 9 + 1 / 2⌋ = false then none
      else some ⌊literal.value * 10 ^ 9 + 1 / 2⌋ := by
  have htext : literal.text = literal.mantissa := by simp [text, h]
  have hcut : cut literal.text = (literal.integer, literal.fraction) := by
    rw [htext]
    exact cut_mantissa literal.whole.2.1
  have hdigits := allDigits_append.mpr ⟨literal.whole.2.1, literal.allDigits_fraction⟩
  have hexact : ratSetString literal.text = some literal.value := by
    simp only [ratSetString, hcut, hdigits]
    rw [Rat.mkRat_eq_div, literal.value_of_exponent_none h]
    rfl
  have hnonneg := literal.value_nonneg
  have hsmall := not_mem_digits literal.allDigits_fraction (c := smallE) rfl
  have hcapital := not_mem_digits literal.allDigits_fraction (c := capitalE) rfl
  have hrounded := quoRem_eq_floor (mul_nonneg hnonneg (show (0 : ℚ) ≤ 1000000000 by norm_num))
  simp only [parseModelsDevFloatArtifact, hcut, hexact, bind_some, not_lt.mpr hnonneg,
    if_false, hrounded, hsmall, hcapital, false_or]
  rw [show (1000000000 : ℚ) = 10 ^ 9 by norm_num]
  by_cases hlong : literal.fractionDigits < 15
  · rw [if_pos hlong, if_pos (.inr hlong)]
  · have hsome : literal.fraction.isSome = true := by
      by_contra hnone
      rw [Bool.not_eq_true, isSome_eq_false_iff, isNone_iff_eq_none] at hnone
      exact hlong (by simp [fractionDigits, hnone])
    rw [if_neg hlong, if_neg]
    rintro (hnone | hshort)
    · rw [hsome] at hnone
      cases hnone
    · exact hlong hshort

theorem parseJSONUSD_exponent (h : literal.exponent = some exponent)
    (hfits : -2 ^ 31 ≤ exponent.value ∧ exponent.value < 2 ^ 31) {n : Int} :
    parseJSONUSD literal.text = .ok n ↔ (n : ℚ) = literal.value * 10 ^ 9 ∧ isInt64 n = true := by
  have hvalue : literal.value * 10 ^ 9 =
      DigitText.value (literal.integer ++ literal.fraction.getD []) *
        10 ^ (exponent.value - (literal.fraction.getD []).length + 9) := by
    rw [value, h, zpow_add₀ (by norm_num), ← mul_assoc]
    rfl
  rw [parseJSONUSD, if_neg literal.head_text, literal.artifact_exponent h,
    literal.cutExponent_some h]
  simp only [parseInt32_exponent hfits]
  rw [hvalue]
  exact expandExponent_iff ⟨literal.whole.1, literal.whole.2.1⟩ literal.decimals exponent.value

theorem parseJSONUSD_plain (h : literal.exponent = none) :
    parseJSONUSD literal.text =
      match parseModelsDevFloatArtifact literal.text with
      | some normalized => .ok normalized
      | none => parseUSD literal.text := by
  rw [parseJSONUSD, if_neg literal.head_text, literal.cutExponent_none h]

theorem parseUSD_text (h : literal.exponent = none) {n : Int} (hn : parseUSD literal.text = .ok n) :
    literal.fractionDigits ≤ 9 ∧ (n : ℚ) = literal.value * 10 ^ 9 := by
  have hcut : cut literal.text = (literal.integer, literal.fraction) := by
    rw [show literal.text = literal.mantissa by simp [text, h]]
    exact cut_mantissa literal.whole.2.1
  have hparse : parseScaledDecimal literal.text 9 = .ok n := by
    unfold parseUSD parseAmount amountDecimalPlaces at hn
    cases hparse : parseScaledDecimal literal.text 9 with
    | error message =>
      rw [hparse] at hn
      cases hn
    | ok amount =>
      rw [hparse] at hn
      exact hn
  obtain ⟨integer, fraction, hscaled, rfl, -⟩ := parseScaledDecimal_iff.mp hparse
  obtain ⟨rfl, rfl, -⟩ := hscaled.cut
  rw [hcut] at hscaled ⊢
  have hlength : literal.fractionDigits ≤ 9 := hscaled.decimals.2
  refine ⟨hlength, ?_⟩
  have hpower : 10 ^ 9 = 10 ^ literal.fractionDigits * 10 ^ (9 - literal.fractionDigits) := by
    rw [← pow_add, Nat.add_sub_cancel' hlength]
  have hscale : scaledValue 9 literal.integer (literal.fraction.getD []) *
      10 ^ literal.fractionDigits =
        DigitText.value (literal.integer ++ literal.fraction.getD []) * 10 ^ 9 := by
    rw [scaledValue, value_append, hpower]
    simp only [fractionDigits]
    ring
  have hne : ((10 ^ literal.fractionDigits : Nat) : ℚ) ≠ 0 := by positivity
  rw [literal.value_of_exponent_none h, div_mul_eq_mul_div, eq_div_iff hne]
  exact_mod_cast hscale

/-- `1.5e-3`. -/
def sample : Literal where
  integer := [49]
  fraction := some [53]
  exponent := some ⟨false, .minus, [51], by decide⟩
  whole := by decide
  decimals := by
    rintro text ⟨⟩
    decide

/-- The price of every literal is exact: rounded half up to nano USD when it is a fixed-point
number with a long fraction, and otherwise its nano USD. -/
theorem parseJSONUSD_exact
    (hfits : ∀ exponent, literal.exponent = some exponent →
      -2 ^ 31 ≤ exponent.value ∧ exponent.value < 2 ^ 31) :
    (∀ n, parseJSONUSD literal.text = .ok n →
      (literal.exponent = none ∧ 15 ≤ literal.fractionDigits →
        n = ⌊literal.value * 10 ^ 9 + 1 / 2⌋ ∧ (literal.value ≠ 0 → 0 < n)) ∧
      (¬ (literal.exponent = none ∧ 15 ≤ literal.fractionDigits) →
        (n : ℚ) = literal.value * 10 ^ 9)) ∧
    (literal.exponent.isSome = true →
      ((∃ message, parseJSONUSD literal.text = .error message) ↔
        ¬ ∃ k : Int, isInt64 k = true ∧ (k : ℚ) = literal.value * 10 ^ 9)) := by
  constructor
  · intro n hn
    cases hexponent : literal.exponent with
    | some exponent =>
      obtain ⟨hexact, -⟩ :=
        (literal.parseJSONUSD_exponent hexponent (hfits exponent hexponent)).mp hn
      exact ⟨nofun, fun _ => hexact⟩
    | none =>
      rw [literal.parseJSONUSD_plain hexponent, literal.artifact_eq hexponent] at hn
      by_cases hlong : literal.fractionDigits < 15
      · rw [if_pos hlong] at hn
        exact ⟨fun h => absurd h.2 (Nat.not_le.mpr hlong),
          fun _ => (literal.parseUSD_text hexponent hn).2⟩
      · rw [if_neg hlong] at hn
        refine ⟨fun _ => ?_, fun h => absurd ⟨rfl, Nat.le_of_not_lt hlong⟩ h⟩
        split at hn
        · rename_i hreject
          split at hreject
          · cases hreject
          · rename_i hkept
            cases hn
            cases hreject
            refine ⟨rfl, fun hne => ?_⟩
            have hnonneg : 0 ≤ ⌊literal.value * 10 ^ 9 + 1 / 2⌋ := by
              have := literal.value_nonneg
              exact Int.floor_nonneg.mpr (by positivity)
            rcases hnonneg.lt_or_eq with hpos | hzero
            · exact hpos
            · exact absurd (.inl ⟨hzero.symm, hne⟩) hkept
        · have := (literal.parseUSD_text hexponent hn).1
          omega
  · intro hsome
    obtain ⟨exponent, hexponent⟩ := isSome_iff_exists.mp hsome
    have hiff := fun n =>
      @literal.parseJSONUSD_exponent exponent hexponent (hfits exponent hexponent) n
    constructor
    · rintro ⟨message, hmessage⟩ ⟨k, hk, hvalue⟩
      rw [(hiff k).mpr ⟨hvalue, hk⟩] at hmessage
      cases hmessage
    · intro hnone
      cases hparse : parseJSONUSD literal.text with
      | error message => exact ⟨message, rfl⟩
      | ok n =>
        obtain ⟨hvalue, hn⟩ := (hiff n).mp hparse
        exact absurd ⟨n, hn, hvalue⟩ hnone

theorem parseJSONUSD_exact_sample :
    parseJSONUSD sample.text = .ok 1500000 ∧ ((1500000 : Int) : ℚ) = sample.value * 10 ^ 9 := by
  have hparse : parseJSONUSD sample.text = .ok 1500000 := by
    rfl
  have hfits : ∀ exponent, sample.exponent = some exponent →
      -2 ^ 31 ≤ exponent.value ∧ exponent.value < 2 ^ 31 := by
    rintro exponent ⟨⟩
    decide
  exact ⟨hparse, ((parseJSONUSD_exact sample hfits).1 1500000 hparse).2 nofun⟩

end Literal

end EchoJoyGateway.Catalog
