import EchoJoyGateway.Lib.DigitText
import EchoJoyGateway.Lib.Segments

/-!
# Scaled decimals as text

`parseScaledDecimal` and `formatScaledDecimal` of `internal/pricing/nanousd.go`
and the price multipliers of `price_multiplier.go`. Integers of `math/big` are
unbounded; what leaves them is checked against the range of `int64`.
-/

namespace EchoJoyGateway.Pricing

open Utf8 DigitText List

variable {places : Nat} {text integer fraction : Text}

def point : UInt8 := 46

def minus : UInt8 := 45

/-- `strings.Cut(value, ".")`. -/
def cut (value : Text) : Text × Option Text := Segments.cut point value

def isInt64 (n : Int) : Bool := -2 ^ 63 ≤ n && n < 2 ^ 63

/-- A rune between `0` and `9` is one byte. -/
def decimalDigits (value : Text) : Bool := allDigits value

def parseScaledDecimal (value : Text) (places : Nat) : Except String Int :=
  if value = [] ∨ trimSpace value ≠ value then .error "must be a non-empty decimal"
  else
    let integer := (cut value).1
    let hasFraction := (cut value).2.isSome
    let fraction := (cut value).2.getD []
    if integer = [] ∨ (hasFraction ∧ fraction = []) ∨ point ∈ fraction ∨
        fraction.length > places then
      .error s!"must have at most {places} decimal places"
    else if decimalDigits integer = false ∨ (hasFraction ∧ decimalDigits fraction = false) then
      .error "must be a non-negative decimal"
    else
      let amount : Int := DigitText.value (integer ++ fraction ++ zeros (places - fraction.length))
      if isInt64 amount then .ok amount else .error "exceeds the int64 range"

def formatScaledDecimal (value : Int) (places : Nat) : Text :=
  let amount := value.natAbs
  let whole := amount / 10 ^ places
  let fraction := amount % 10 ^ places
  let sign := if value < 0 then [minus] else []
  if fraction = 0 then sign ++ numeral whole
  else
    let fractionText := zeros (places - (numeral fraction).length) ++ numeral fraction
    sign ++ numeral whole ++ [point] ++ trimRight fractionText

def amountDecimalPlaces : Nat := 9

/-- `ParseUSD` and `ParseAmount`; they differ in the prefix of their errors. -/
def parseAmount (kind : String) (value : Text) : Except String Int :=
  match parseScaledDecimal value amountDecimalPlaces with
  | .error message => .error s!"{kind} {message}"
  | .ok amount => .ok amount

def parseUSD (value : Text) : Except String Int := parseAmount "USD price" value

/-! ## Price multipliers -/

/-- In millionths. -/
abbrev PriceMultiplier := Int

def defaultPriceMultiplier : PriceMultiplier := 1000000

def PriceMultiplier.valid (value : PriceMultiplier) : Bool := 0 ≤ value && value ≤ 1000000000

/-- `strconv.ParseInt(text, 10, 64)` of digits. -/
def parseInt64 (text : Text) : Option Int :=
  if DigitText.value text < 2 ^ 63 then some (DigitText.value text) else none

def wholeText (integer : Text) : Text :=
  if trimLeft integer = [] then [zero] else trimLeft integer

/-- The numbers of the two parts of a multiplier. -/
def scaleMultiplier (integer fraction : Text) : Except String PriceMultiplier :=
  match parseInt64 (wholeText integer) with
  | none => .error "price multiplier must be between 0 and 1000"
  | some whole =>
    if whole > 1000 then .error "price multiplier must be between 0 and 1000"
    else
      match parseInt64 (fraction ++ zeros (6 - fraction.length)) with
      | none => .error "price multiplier has invalid decimal places"
      | some decimals =>
        if PriceMultiplier.valid (whole * defaultPriceMultiplier + decimals) then
          .ok (whole * defaultPriceMultiplier + decimals)
        else .error "price multiplier must be between 0 and 1000"

def parsePriceMultiplier (value : Text) : Except String PriceMultiplier :=
  let integer := (cut value).1
  let hasFraction := (cut value).2.isSome
  let fraction := (cut value).2.getD []
  if integer = [] ∨ decimalDigits integer = false ∨ fraction.length > 6 ∨
      (hasFraction ∧ (fraction = [] ∨ decimalDigits fraction = false)) then
    .error "price multiplier must be a non-negative decimal with at most six decimal places"
  else scaleMultiplier integer fraction

def formatInt (n : Int) : Text :=
  if n < 0 then minus :: numeral n.natAbs else numeral n.natAbs

def formatPriceMultiplier (value : PriceMultiplier) : Text :=
  let whole := formatInt (value.tdiv defaultPriceMultiplier)
  let fraction := value.tmod defaultPriceMultiplier
  if fraction = 0 then whole
  else
    let signed := if fraction < 0 ∧ whole = [zero] then minus :: whole else whole
    let fractionText := numeral fraction.natAbs
    signed ++ [point] ++ trimRight (zeros (6 - fractionText.length) ++ fractionText)

/-! ## What is accepted -/

theorem isInt64_iff {n : Int} : isInt64 n = true ↔ -2 ^ 63 ≤ n ∧ n < 2 ^ 63 := by
  simp [isInt64]

theorem valid_iff {m : PriceMultiplier} :
    PriceMultiplier.valid m = true ↔ 0 ≤ m ∧ m ≤ 1000000000 := by
  simp [PriceMultiplier.valid]

structure Scaled (places : Nat) (text integer fraction : Text) : Prop where
  whole : integer ≠ [] ∧ allDigits integer = true
  decimals : allDigits fraction = true ∧ fraction.length ≤ places
  shape : text = integer ∧ fraction = [] ∨ text = integer ++ point :: fraction ∧ fraction ≠ []

/-- The number of a text, in units of its last place. -/
def scaledValue (places : Nat) (integer fraction : Text) : Nat :=
  value integer * 10 ^ places + value fraction * 10 ^ (places - fraction.length)

theorem value_padded (integer : Text) {fraction : Text} (h : fraction.length ≤ places) :
    value (integer ++ fraction ++ zeros (places - fraction.length)) =
      scaledValue places integer fraction := by
  have hpower : 10 ^ fraction.length * 10 ^ (places - fraction.length) = 10 ^ places := by
    rw [← Nat.pow_add, Nat.add_sub_cancel' h]
  rw [value_append, value_append, length_zeros, value_zeros, scaledValue, ← hpower]
  ring

theorem isDigit_ne_point {b : UInt8} (h : isDigit b = true) : b ≠ point := by
  rintro rfl
  cases h

theorem point_not_mem {text : Text} (h : allDigits text = true) : point ∉ text := fun hmem =>
  isDigit_ne_point (all_eq_true.mp h point hmem) rfl

theorem Scaled.cut (h : Scaled places text integer fraction) :
    (Pricing.cut text).1 = integer ∧ (Pricing.cut text).2.getD [] = fraction ∧
      ((Pricing.cut text).2.isSome ↔ fraction ≠ []) := by
  have hinteger := point_not_mem h.whole.2
  rcases h.shape with ⟨rfl, rfl⟩ | ⟨rfl, hfraction⟩
  · rw [Pricing.cut, Segments.cut_of_not_mem hinteger]
    simp
  · rw [Pricing.cut, Segments.cut_append fraction hinteger]
    simp [hfraction]

theorem scaled_of_cut {text : Text} (hwhole : (cut text).1 ≠ [])
    (hdigits : allDigits (cut text).1 = true)
    (hfraction : (cut text).2.isSome → (cut text).2.getD [] ≠ [])
    (hdecimals : (cut text).2.isSome → allDigits ((cut text).2.getD []) = true)
    (hlength : ((cut text).2.getD []).length ≤ places) :
    Scaled places text (cut text).1 ((cut text).2.getD []) := by
  have heq : text = (cut text).1 ++ ((cut text).2.map (point :: ·)).getD [] :=
    Segments.cut_eq point text
  cases hcut : (cut text).2 with
  | none =>
    rw [hcut] at heq
    exact ⟨⟨hwhole, hdigits⟩, ⟨rfl, Nat.zero_le _⟩, .inl ⟨by simpa using heq, rfl⟩⟩
  | some fraction =>
    rw [hcut] at heq hfraction hdecimals hlength
    exact ⟨⟨hwhole, hdigits⟩, ⟨hdecimals rfl, hlength⟩, .inr ⟨heq, hfraction rfl⟩⟩

theorem Scaled.character (h : Scaled places text integer fraction) {b : UInt8} (hb : b ∈ text) :
    isDigit b = true ∨ b = point := by
  have hinteger := all_eq_true.mp h.whole.2
  have hfraction := all_eq_true.mp h.decimals.1
  rcases h.shape with ⟨rfl, rfl⟩ | ⟨rfl, -⟩
  · exact .inl (hinteger b hb)
  · rcases mem_append.mp hb with hb | hb
    · exact .inl (hinteger b hb)
    · rcases mem_cons.mp hb with rfl | hb
      · exact .inr rfl
      · exact .inl (hfraction b hb)

theorem not_space {b : UInt8} (h : isDigit b = true ∨ b = point) :
    b < 0x80 ∧ isSpace b.toNat = false := by
  rcases h with h | rfl
  · simp only [isDigit, Bool.and_eq_true, decide_eq_true_eq] at h
    have hlow : 48 ≤ b.toNat := h.1
    have hhigh : b.toNat ≤ 57 := h.2
    refine ⟨UInt8.lt_iff_toNat_lt.mpr (Nat.lt_of_le_of_lt hhigh (by decide)), ?_⟩
    simp only [isSpace, Bool.or_eq_false_iff, Bool.and_eq_false_iff, decide_eq_false_iff_not,
      beq_eq_false_iff_ne]
    omega
  · decide

theorem Scaled.trimSpace_eq (h : Scaled places text integer fraction) : trimSpace text = text := by
  apply trimSpace_eq_self
  rw [runes_ascii fun b hb => (not_space (h.character hb)).1]
  intro r hr
  obtain ⟨b, hb, rfl⟩ := mem_map.mp hr
  exact (not_space (h.character hb)).2

theorem Scaled.ne_nil (h : Scaled places text integer fraction) : text ≠ [] := by
  rcases h.shape with ⟨rfl, -⟩ | ⟨rfl, -⟩
  · exact h.whole.1
  · exact append_ne_nil_of_left_ne_nil h.whole.1 _

theorem parseScaledDecimal_iff {text : Text} {n : Int} :
    parseScaledDecimal text places = .ok n ↔
      ∃ integer fraction, Scaled places text integer fraction ∧
        n = scaledValue places integer fraction ∧ isInt64 n = true := by
  constructor
  · intro h
    simp only [parseScaledDecimal] at h
    split at h
    · cases h
    · split at h
      · cases h
      · rename_i hparts
        split at h
        · cases h
        · rename_i hdigits
          split at h
          · rename_i hfits
            cases h
            simp only [not_or, not_and] at hparts hdigits
            obtain ⟨hinteger, hfraction, -, hlength⟩ := hparts
            have hscaled :=
              scaled_of_cut hinteger (by simpa [decimalDigits] using hdigits.1) hfraction
                (by simpa [decimalDigits] using hdigits.2) (Nat.le_of_not_lt hlength)
            exact ⟨_, _, hscaled, by rw [value_padded _ (Nat.le_of_not_lt hlength)], hfits⟩
          · cases h
  · rintro ⟨integer, fraction, hscaled, rfl, hfits⟩
    obtain ⟨hinteger, hfraction, hsome⟩ := hscaled.cut
    have hpoint := point_not_mem hscaled.decimals.1
    simp only [parseScaledDecimal, hinteger, hfraction, hsome, decimalDigits]
    rw [if_neg, if_neg, value_padded integer hscaled.decimals.2, if_pos hfits]
    · simp [hscaled.whole.2, hscaled.decimals.1]
    · simp [hscaled.whole.1, hpoint, hscaled.decimals.2]
    · simp [hscaled.ne_nil, hscaled.trimSpace_eq]

theorem Scaled.parse_iff (h : Scaled places text integer fraction) {n : Int} :
    parseScaledDecimal text places = .ok n ↔
      n = scaledValue places integer fraction ∧ isInt64 n = true := by
  rw [parseScaledDecimal_iff]
  constructor
  · rintro ⟨integer', fraction', h', hn, hfits⟩
    rw [← h'.cut.1, ← h'.cut.2.1, h.cut.1, h.cut.2.1] at hn
    exact ⟨hn, hfits⟩
  · rintro ⟨hn, hfits⟩
    exact ⟨integer, fraction, h, hn, hfits⟩

/-! ## What is written -/

theorem trimRight_padded {places fraction : Nat} (hpos : 0 < fraction)
    (hlt : fraction < 10 ^ places) :
    let decimals := trimRight (zeros (places - (numeral fraction).length) ++ numeral fraction)
    decimals ≠ [] ∧ allDigits decimals = true ∧ decimals.length ≤ places ∧
      value decimals * 10 ^ (places - decimals.length) = fraction := by
  intro decimals
  have hplaces : 0 < places := by
    rcases Nat.eq_zero_or_pos places with rfl | h
    · omega
    · exact h
  have hlength := length_numeral_le hplaces hlt
  obtain ⟨k, hk⟩ := exists_trimRight_zeros
    (zeros (places - (numeral fraction).length) ++ numeral fraction)
  have hdigits : allDigits (decimals ++ zeros k) = true := by
    rw [← hk, allDigits_append]
    exact ⟨allDigits_zeros _, allDigits_numeral _⟩
  have hsum : decimals.length + k = places := by
    have : _ = (decimals ++ zeros k).length := congrArg List.length hk
    rw [length_append, length_append, length_zeros, length_zeros] at this
    omega
  have hvalue : value decimals * 10 ^ k = fraction := by
    have : _ = value (decimals ++ zeros k) := congrArg value hk
    rw [value_append, value_append, value_zeros, value_numeral, value_zeros, length_zeros] at this
    omega
  refine ⟨fun hnil => ?_, (allDigits_append.mp hdigits).1, by omega, ?_⟩
  · rw [hnil, value_nil] at hvalue
    omega
  · rw [← hvalue, show places - decimals.length = k by omega]

theorem scaled_formatScaledDecimal (n places : Nat) :
    ∃ integer fraction, Scaled places (formatScaledDecimal n places) integer fraction ∧
      scaledValue places integer fraction = n := by
  have hdiv := Nat.div_add_mod n (10 ^ places)
  have hsign : ¬ (n : Int) < 0 := by omega
  simp only [formatScaledDecimal, Int.natAbs_natCast]
  by_cases hzero : n % 10 ^ places = 0
  · refine ⟨numeral (n / 10 ^ places), [], ⟨⟨numeral_ne_nil _, allDigits_numeral _⟩,
      ⟨rfl, Nat.zero_le _⟩, .inl ⟨if_pos hzero, rfl⟩⟩, ?_⟩
    rw [scaledValue, value_numeral, value_nil, Nat.mul_comm]
    omega
  · obtain ⟨hne, hdigits, hlength, hvalue⟩ := trimRight_padded (Nat.pos_of_ne_zero hzero)
      (Nat.mod_lt n (Nat.pow_pos (Nat.zero_lt_succ 9)))
    refine ⟨numeral (n / 10 ^ places), _, ⟨⟨numeral_ne_nil _, allDigits_numeral _⟩,
      ⟨hdigits, hlength⟩, .inr ⟨?_, hne⟩⟩, ?_⟩
    · rw [if_neg hzero, append_assoc]
      rfl
    · rw [scaledValue, value_numeral, hvalue, Nat.mul_comm]
      exact hdiv

/-! ## The multiplier's own parser and formatter -/

theorem value_wholeText (text : Text) : value (wholeText text) = value text := by
  obtain ⟨n, hn⟩ := exists_zeros_trimLeft text
  have hvalue : value text = value (trimLeft text) := by
    have := congrArg value hn
    rwa [value_append, value_zeros, Nat.zero_mul, Nat.zero_add] at this
  unfold wholeText
  split
  · rename_i hnil
    rw [hvalue, hnil]
    rfl
  · exact hvalue.symm

theorem parseInt64_eq_some {text : Text} (h : value text < 2 ^ 63) :
    parseInt64 text = some (value text : Int) :=
  if_pos h

theorem scaleMultiplier_eq {integer fraction : Text} {whole decimals : Int}
    (hinteger : parseInt64 (wholeText integer) = some whole)
    (hfraction : parseInt64 (fraction ++ zeros (6 - fraction.length)) = some decimals)
    (hle : whole ≤ 1000)
    (hvalid : PriceMultiplier.valid (whole * defaultPriceMultiplier + decimals) = true) :
    scaleMultiplier integer fraction = .ok (whole * defaultPriceMultiplier + decimals) := by
  simp only [scaleMultiplier, hinteger, hfraction, if_neg (Int.not_lt.mpr hle), hvalid, if_true]

theorem parsePriceMultiplier_of_scaled (hscaled : Scaled 6 text integer fraction)
    (hvalid : PriceMultiplier.valid (scaledValue 6 integer fraction) = true) :
    parsePriceMultiplier text = .ok (scaledValue 6 integer fraction : Int) := by
  obtain ⟨hinteger, hfraction, hsome⟩ := hscaled.cut
  have hdecimals : value (fraction ++ zeros (6 - fraction.length)) =
      value fraction * 10 ^ (6 - fraction.length) := by
    rw [value_append, length_zeros, value_zeros, Nat.add_zero]
  have hsmall : value fraction * 10 ^ (6 - fraction.length) < 10 ^ 6 := by
    rw [← hdecimals]
    have := value_lt (allDigits_append.mpr
      ⟨hscaled.decimals.1, allDigits_zeros (6 - fraction.length)⟩)
    rwa [length_append, length_zeros, Nat.add_sub_cancel' hscaled.decimals.2] at this
  have hwhole : (value integer : Int) ≤ 1000 := by
    have hle : (scaledValue 6 integer fraction : Int) ≤ 1000000000 := (valid_iff.mp hvalid).2
    rw [scaledValue] at hle
    omega
  have hparsed : (value integer : Int) * defaultPriceMultiplier +
      (value fraction * 10 ^ (6 - fraction.length) : Nat) = scaledValue 6 integer fraction := by
    simp only [scaledValue, defaultPriceMultiplier]
    push_cast
    ring
  have hinteger64 : parseInt64 (wholeText integer) = some (value integer : Int) := by
    rw [parseInt64_eq_some (by rw [value_wholeText]; omega), value_wholeText]
  have hdecimals64 : parseInt64 (fraction ++ zeros (6 - fraction.length)) =
      some ((value fraction * 10 ^ (6 - fraction.length) : Nat) : Int) := by
    rw [parseInt64_eq_some (by rw [hdecimals]; omega), hdecimals]
  simp only [parsePriceMultiplier, hinteger, hfraction, hsome, decimalDigits]
  rw [if_neg (by simp [hscaled.whole, hscaled.decimals]),
    scaleMultiplier_eq hinteger64 hdecimals64 hwhole (hparsed ▸ hvalid), hparsed]

theorem formatPriceMultiplier_eq (n : Nat) :
    formatPriceMultiplier (n : Int) = formatScaledDecimal n 6 := by
  have hwhole : (n : Int).tdiv defaultPriceMultiplier = (n / 10 ^ 6 : Nat) := rfl
  have hfraction : (n : Int).tmod defaultPriceMultiplier = (n % 10 ^ 6 : Nat) := rfl
  simp only [formatPriceMultiplier, formatScaledDecimal, hwhole, hfraction, formatInt,
    Int.natAbs_natCast, Int.natCast_eq_zero, Int.not_ofNat_neg, if_false, false_and,
    nil_append]

theorem isInt64_natCast {n : Nat} : isInt64 n = true ↔ n < 2 ^ 63 := by
  rw [isInt64_iff]
  omega

/-- What is written is read back, and what is read are the decimals with at most the given
number of places that fit. -/
theorem decimal_round_trip (places : Nat) :
    (∀ value : Int, 0 ≤ value → value < 2 ^ 63 →
      parseScaledDecimal (formatScaledDecimal value places) places = .ok value) ∧
    (∀ (text : Text) (n : Int), parseScaledDecimal text places = .ok n ↔
      ∃ integer fraction, Scaled places text integer fraction ∧
        scaledValue places integer fraction < 2 ^ 63 ∧
        n = scaledValue places integer fraction) ∧
    ∀ multiplier : PriceMultiplier, PriceMultiplier.valid multiplier = true →
      parsePriceMultiplier (formatPriceMultiplier multiplier) = .ok multiplier := by
  refine ⟨fun value hlow hhigh => ?_, fun text n => ?_, fun multiplier hvalid => ?_⟩
  · obtain ⟨n, rfl⟩ := Int.eq_ofNat_of_zero_le hlow
    obtain ⟨integer, fraction, hscaled, hvalue⟩ := scaled_formatScaledDecimal n places
    exact parseScaledDecimal_iff.mpr
      ⟨integer, fraction, hscaled, by rw [hvalue], isInt64_natCast.mpr (by omega)⟩
  · rw [parseScaledDecimal_iff]
    constructor
    · rintro ⟨integer, fraction, hscaled, rfl, hfits⟩
      exact ⟨integer, fraction, hscaled, isInt64_natCast.mp hfits, rfl⟩
    · rintro ⟨integer, fraction, hscaled, hfits, rfl⟩
      exact ⟨integer, fraction, hscaled, rfl, isInt64_natCast.mpr hfits⟩
  · obtain ⟨n, rfl⟩ := Int.eq_ofNat_of_zero_le (valid_iff.mp hvalid).1
    obtain ⟨integer, fraction, hscaled, hvalue⟩ := scaled_formatScaledDecimal n 6
    rw [← formatPriceMultiplier_eq] at hscaled
    have hparsed := parsePriceMultiplier_of_scaled hscaled (by rw [hvalue]; exact hvalid)
    rw [hvalue] at hparsed
    exact hparsed

/-- Two and a half cents, as an amount and as a multiplier. -/
theorem decimal_round_trip_cents :
    parseScaledDecimal (formatScaledDecimal 25000000 9) 9 = .ok 25000000 ∧
      parsePriceMultiplier (formatPriceMultiplier 25000) = .ok 25000 :=
  ⟨(decimal_round_trip 9).1 25000000 (by decide) (by decide),
    (decimal_round_trip 9).2.2 25000 (by decide)⟩

end EchoJoyGateway.Pricing
