import EchoJoyGateway.Lib.HalfUp
import EchoJoyGateway.Pricing.Decimal
import EchoJoyGateway.Pricing.Table
import EchoJoyGateway.Usage.Tokens

/-!
# Pricing receipts

A receipt freezes the terms of one quote. `validateReceipt` of
`internal/pricing/receipt.go` recomputes it from its own fields, for every schema
version ever written; the amounts are those of `nanousd.go` and `price_multiplier.go`.
-/

namespace EchoJoyGateway.Pricing

open Utf8 DigitText HalfUp Traverse Option

def tokensPerMillion : Int := 1000000

structure Multiplier where
  numerator : Int
  denominator : Int
  deriving DecidableEq

structure PriceMultipliers where
  group : PriceMultiplier
  accessKey : PriceMultiplier
  deriving DecidableEq

def PriceMultipliers.valid (multipliers : PriceMultipliers) : Bool :=
  PriceMultiplier.valid multipliers.group && PriceMultiplier.valid multipliers.accessKey

/-! ## Amounts -/

/-- `QuoRem`, and one more when twice the remainder reaches the denominator. -/
def quoRemHalfUp (numerator denominator : Int) : Int :=
  if 2 * numerator.tmod denominator ≥ denominator then numerator.tdiv denominator + 1
  else numerator.tdiv denominator

def quoteComponent (tokens price : Int) (multiplier : Multiplier) : Option Int :=
  if tokens < 0 ∨ price < 0 ∨ multiplier.numerator ≤ 0 ∨ multiplier.denominator ≤ 0 then none
  else
    let quotient := quoRemHalfUp (tokens * price * multiplier.numerator)
      (tokensPerMillion * multiplier.denominator)
    if quotient < 0 ∨ isInt64 quotient = false then none else some quotient

/-- Only receipts of version 5 apply the price multipliers to each line. -/
def quoteComponentWithPriceMultipliers (tokens price : Int) (multiplier : Multiplier)
    (priceMultipliers : PriceMultipliers) : Option Int :=
  if tokens < 0 ∨ price < 0 ∨ multiplier.numerator ≤ 0 ∨ multiplier.denominator ≤ 0 then none
  else if priceMultipliers.valid = false then none
  else
    let quotient := quoRemHalfUp
      (tokens * price * multiplier.numerator * priceMultipliers.group * priceMultipliers.accessKey)
      (tokensPerMillion * multiplier.denominator * defaultPriceMultiplier * defaultPriceMultiplier)
    if quotient < 0 ∨ isInt64 quotient = false then none else some quotient

def applyPriceMultipliers (amount : Int) (multipliers : PriceMultipliers) : Option Int :=
  if amount < 0 ∨ multipliers.valid = false then none
  else
    let quotient := quoRemHalfUp (amount * multipliers.group * multipliers.accessKey)
      (defaultPriceMultiplier * defaultPriceMultiplier)
    if isInt64 quotient then some quotient else none

def checkedAddNanoUSD (left right : Int) : Option Int := Usage.checkedAdd left right

/-! ## Receipts -/

def upstreamReceiptSchemaVersion : Int := 6

def clientModelReceiptSchemaVersion : Int := 7

def receiptMethodUnitRateSum : String := "unit_rate_sum"

inductive ReceiptLineState where
  | priced
  | unpriced
  | other (text : String)
  deriving DecidableEq

structure ReceiptRule where
  scopeKey : Text := []
  channelID : Text := []
  modelID : Text := []
  clientModel : Text := []
  deriving DecidableEq

structure ReceiptLine where
  code : Text
  quantity : Int
  rateNanoUSDPerMillion : Option Int
  multiplier : Multiplier
  state : ReceiptLineState
  amountNanoUSD : Option Int
  deriving DecidableEq

structure Receipt where
  schemaVersion : Int
  method : String
  methodVersion : Int
  currency : String
  pricingMode : Mode
  priceMultipliers : Option PriceMultipliers
  baseTotalNanoUSD : Option Int
  rule : ReceiptRule
  contextThresholdTokens : Option Int
  lineItems : List ReceiptLine
  totalNanoUSD : Int
  deriving DecidableEq

/-! ## Validation -/

/-- `strconv.ParseUint(text, 10, 64)`. -/
def parseUint64 (text : Text) : Option Nat :=
  if text ≠ [] ∧ allDigits text = true ∧ value text < 2 ^ 64 then some (value text) else none

/-- `strings.CutPrefix`. -/
def cutLeading (start text : Text) : Option Text :=
  if start.isPrefixOf text then some (text.drop start.length) else none

def validateScopeKey (scopeKey : Text) : Except Message Unit :=
  match cutLeading (ascii "provider:") scopeKey with
  | some providerID =>
    refuse ((providerScopeKey providerID).toOption ≠ some scopeKey)
      [.text "invalid provider scope key ", .quoted scopeKey]
  | none =>
    match cutLeading (ascii "group:") scopeKey with
    | some groupText =>
      let canonical := (parseUint64 groupText).bind fun parsed => (groupScopeKey parsed).toOption
      refuse (canonical ≠ some scopeKey) [.text "invalid group scope key ", .quoted scopeKey]
    | none => .error [.text "invalid pricing scope key ", .quoted scopeKey]

def validateUpstreamRule (rule : ReceiptRule) (schemaVersion : Int) : Except Message Unit :=
  if schemaVersion = 1 then do
    validateModelID rule.modelID
    refuse (rule.channelID ≠ []) (plain "legacy v1 receipt must not contain a channel ID")
    refuse (rule.scopeKey = []) (plain "legacy receipt scope key is required")
    validateScopeKey rule.scopeKey
  else if schemaVersion = 2 then do
    validateModelID rule.modelID
    refuse (rule.scopeKey ≠ []) (plain "global receipt must not contain a scope key")
    refuse (rule.channelID ≠ []) (plain "global receipt must not contain a channel ID")
  else if 3 ≤ schemaVersion ∧ schemaVersion ≤ 6 then do
    refuse (rule.scopeKey ≠ []) (plain "channel receipt must not contain a scope key")
    validateIdentity ⟨rule.channelID, rule.modelID⟩
  else .error (plain "unsupported receipt rule schema version")

def validateReceiptRule (rule : ReceiptRule) (schemaVersion : Int) : Except Message Unit :=
  if schemaVersion = clientModelReceiptSchemaVersion then do
    refuse (rule.scopeKey ≠ [] ∨ rule.channelID ≠ [] ∨ rule.modelID ≠ [])
      (plain "client model receipt must contain only a client model")
    validateModelID rule.clientModel
  else do
    refuse (rule.clientModel ≠ []) (plain "upstream receipt must not contain a client model")
    validateUpstreamRule rule schemaVersion

def allowed : List Text :=
  ["input", "cache_read", "cache_write_5m", "cache_write_1h", "cache_write", "output"].map ascii

namespace Receipt

variable (receipt : Receipt)

def multipliers : PriceMultipliers :=
  if receipt.schemaVersion < 5 then ⟨defaultPriceMultiplier, defaultPriceMultiplier⟩
  else receipt.priceMultipliers.getD ⟨defaultPriceMultiplier, defaultPriceMultiplier⟩

def validatePriceMultipliers : Except Message Unit :=
  if receipt.schemaVersion < 5 then
    refuse (receipt.priceMultipliers ≠ none)
      (plain "historical pricing receipt must not contain price multipliers")
  else
    refuse ((receipt.priceMultipliers.any fun multipliers => multipliers.valid) = false)
      (plain "invalid pricing receipt price multipliers")

def validateBaseTotal : Except Message Unit :=
  if receipt.schemaVersion < 6 then
    refuse (receipt.baseTotalNanoUSD ≠ none)
      (plain "historical pricing receipt must not contain a base total")
  else
    refuse ((receipt.baseTotalNanoUSD.any fun total => 0 ≤ total) = false)
      (plain "invalid pricing receipt base total")

def validateMode : Except Message Unit :=
  if receipt.schemaVersion < 4 then
    refuse (receipt.pricingMode ≠ [])
      (plain "historical pricing receipt must not contain a pricing mode")
  else refuse (receipt.pricingMode.valid = false) (plain "invalid pricing receipt mode")

def validateHeader : Except Message Unit := do
  refuse (receipt.schemaVersion ∉ [1, 2, 3, 4, 5, upstreamReceiptSchemaVersion,
      clientModelReceiptSchemaVersion] ∨ receipt.method ≠ receiptMethodUnitRateSum ∨
      receipt.methodVersion ≠ 1 ∨ receipt.currency ≠ "USD")
    (plain "unsupported pricing receipt contract")
  receipt.validatePriceMultipliers
  receipt.validateBaseTotal
  receipt.validateMode
  within (plain "invalid pricing receipt rule")
    (validateReceiptRule receipt.rule receipt.schemaVersion)
  refuse (receipt.contextThresholdTokens.any fun threshold => threshold < 0)
    (plain "invalid pricing receipt context threshold")
  refuse (receipt.totalNanoUSD < 0) (plain "invalid pricing receipt total")

end Receipt

variable (schemaVersion : Int) (priceMultipliers : PriceMultipliers)

def ReceiptLine.recompute (line : ReceiptLine) (rate : Int) : Option Int :=
  if schemaVersion = 5 then
    quoteComponentWithPriceMultipliers line.quantity rate line.multiplier priceMultipliers
  else quoteComponent line.quantity rate line.multiplier

def validateAmount (total : Int) (line : ReceiptLine) : Except Message Int :=
  match line.state, line.rateNanoUSDPerMillion, line.amountNanoUSD with
  | .priced, some rate, some amount =>
    if rate < 0 ∨ amount < 0 then .error (plain "invalid priced receipt line")
    else if line.recompute schemaVersion priceMultipliers rate = some amount then
      match checkedAddNanoUSD total amount with
      | some total => .ok total
      | none => .error (plain "pricing receipt total overflows")
    else .error (plain "pricing receipt line amount mismatch")
  | .priced, _, _ => .error (plain "invalid priced receipt line")
  | .unpriced, none, none => .ok total
  | .unpriced, _, _ => .error (plain "invalid unpriced receipt line")
  | .other _, _, _ => .error (plain "invalid pricing receipt line state")

structure Progress where
  seen : List Text
  total : Int
  deriving DecidableEq

def validateLine (progress : Progress) (line : ReceiptLine) : Except Message Progress := do
  refuse (line.code ∉ allowed) [.text "invalid pricing receipt line code ", .quoted line.code]
  refuse (line.code ∈ progress.seen)
    [.text "duplicate pricing receipt line code ", .quoted line.code]
  refuse (line.quantity ≤ 0 ∨ line.multiplier.numerator ≤ 0 ∨ line.multiplier.denominator ≤ 0)
    (plain "invalid pricing receipt line quantity or multiplier")
  let total ← validateAmount schemaVersion priceMultipliers progress.total line
  pure ⟨line.code :: progress.seen, total⟩

def Receipt.validateTotal (receipt : Receipt) (total : Int) : Except Message Unit :=
  if receipt.schemaVersion ≥ 6 then do
    refuse (some total ≠ receipt.baseTotalNanoUSD) (plain "pricing receipt base total mismatch")
    refuse (applyPriceMultipliers total receipt.multipliers ≠ some receipt.totalNanoUSD)
      (plain "pricing receipt adjusted total mismatch")
  else refuse (total ≠ receipt.totalNanoUSD) (plain "pricing receipt total mismatch")

def validateReceipt (receipt : Receipt) : Except Message Unit := do
  receipt.validateHeader
  let progress ← receipt.lineItems.foldlM
    (validateLine receipt.schemaVersion receipt.multipliers) ⟨[], 0⟩
  receipt.validateTotal progress.total

/-! ## Rounded amounts -/

theorem quoRemHalfUp_natCast (p d : Nat) : quoRemHalfUp p d = halfUp p d := quoRem_eq_halfUp p d

theorem quoRemHalfUp_near {numerator denominator : Int} (hnumerator : 0 ≤ numerator)
    (hdenominator : 0 < denominator) :
    0 ≤ quoRemHalfUp numerator denominator ∧
      |(quoRemHalfUp numerator denominator : ℚ) - numerator / denominator| ≤ 1 / 2 := by
  obtain ⟨p, rfl⟩ := Int.eq_ofNat_of_zero_le hnumerator
  obtain ⟨d, rfl⟩ := Int.eq_ofNat_of_zero_le (Int.le_of_lt hdenominator)
  rw [quoRemHalfUp_natCast]
  refine ⟨Int.natCast_nonneg _, ?_⟩
  exact abs_halfUp_sub_le p (Int.natCast_pos.mp hdenominator)

def exactComponent (tokens price : Int) (multiplier : Multiplier) : ℚ :=
  tokens * price * (multiplier.numerator / multiplier.denominator) / 10 ^ 6

theorem quoteComponent_some {tokens price amount : Int} {multiplier : Multiplier}
    (h : quoteComponent tokens price multiplier = some amount) :
    0 ≤ price ∧ 0 ≤ amount ∧ 0 < multiplier.numerator ∧ 0 < multiplier.denominator ∧
      |(amount : ℚ) - exactComponent tokens price multiplier| ≤ 1 / 2 := by
  simp only [quoteComponent, ite_none_left_eq_some, Option.some.injEq, not_or, Int.not_lt,
    Int.not_le] at h
  obtain ⟨⟨htokens, hprice, hnumerator, hdenominator⟩, ⟨hamount, -⟩, rfl⟩ := h
  refine ⟨hprice, hamount, hnumerator, hdenominator, ?_⟩
  have hproduct := Int.mul_nonneg (Int.mul_nonneg htokens hprice) (Int.le_of_lt hnumerator)
  have hscale : 0 < tokensPerMillion * multiplier.denominator :=
    Int.mul_pos (by decide) hdenominator
  have hnear := (quoRemHalfUp_near hproduct hscale).2
  have hexact : exactComponent tokens price multiplier =
      ((tokens * price * multiplier.numerator : Int) : ℚ) /
        ((tokensPerMillion * multiplier.denominator : Int) : ℚ) := by
    simp only [exactComponent, tokensPerMillion]
    push_cast
    field_simp
    norm_num
  rwa [hexact]

def PriceMultipliers.factor (multipliers : PriceMultipliers) : ℚ :=
  multipliers.group * multipliers.accessKey / 10 ^ 12

variable {multipliers : PriceMultipliers}

theorem PriceMultipliers.valid_iff :
    multipliers.valid = true ↔ PriceMultiplier.valid multipliers.group = true ∧
      PriceMultiplier.valid multipliers.accessKey = true := by
  rw [PriceMultipliers.valid, Bool.and_eq_true]

theorem PriceMultipliers.factor_nonneg (h : multipliers.valid = true) : 0 ≤ multipliers.factor := by
  obtain ⟨hgroup, haccessKey⟩ := PriceMultipliers.valid_iff.mp h
  have hgroup' : (0 : ℚ) ≤ (multipliers.group : Int) := by
    exact_mod_cast (Pricing.valid_iff.mp hgroup).1
  have haccessKey' : (0 : ℚ) ≤ (multipliers.accessKey : Int) := by
    exact_mod_cast (Pricing.valid_iff.mp haccessKey).1
  exact div_nonneg (mul_nonneg hgroup' haccessKey') (by norm_num)

theorem applyPriceMultipliers_some {amount adjusted : Int}
    (h : applyPriceMultipliers amount multipliers = some adjusted) :
    0 ≤ adjusted ∧ |(adjusted : ℚ) - amount * multipliers.factor| ≤ 1 / 2 := by
  simp only [applyPriceMultipliers, ite_none_left_eq_some, ite_none_right_eq_some,
    Option.some.injEq, not_or, Int.not_lt, Bool.not_eq_false] at h
  obtain ⟨⟨hamount, hvalid⟩, -, rfl⟩ := h
  obtain ⟨hgroup, haccessKey⟩ := PriceMultipliers.valid_iff.mp hvalid
  have hproduct := Int.mul_nonneg (Int.mul_nonneg hamount (Pricing.valid_iff.mp hgroup).1)
    (Pricing.valid_iff.mp haccessKey).1
  have hscale : 0 < defaultPriceMultiplier * defaultPriceMultiplier := by decide
  obtain ⟨hnonneg, hnear⟩ := quoRemHalfUp_near hproduct hscale
  refine ⟨hnonneg, ?_⟩
  have hfactor : (amount : ℚ) * multipliers.factor =
      ((amount * multipliers.group * multipliers.accessKey : Int) : ℚ) /
        ((defaultPriceMultiplier * defaultPriceMultiplier : Int) : ℚ) := by
    simp only [PriceMultipliers.factor, defaultPriceMultiplier]
    push_cast
    ring
  rwa [hfactor]

theorem applyPriceMultipliers_zero (h : multipliers.valid = true) :
    applyPriceMultipliers 0 multipliers = some 0 := by
  simp only [applyPriceMultipliers, h, Int.zero_mul]
  rfl

/-! ## Receipts of the current versions -/

structure Receipt.Current (receipt : Receipt) (multipliers : PriceMultipliers) (base : Int) :
    Prop where
  version : receipt.schemaVersion = upstreamReceiptSchemaVersion ∨
    receipt.schemaVersion = clientModelReceiptSchemaVersion
  method : receipt.method = receiptMethodUnitRateSum
  methodVersion : receipt.methodVersion = 1
  currency : receipt.currency = "USD"
  mode : receipt.pricingMode.valid = true
  carried : receipt.priceMultipliers = some multipliers
  valid : multipliers.valid = true
  baseTotal : receipt.baseTotalNanoUSD = some base
  nonneg : 0 ≤ base
  rule : validateReceiptRule receipt.rule receipt.schemaVersion = .ok ()
  threshold : ∀ threshold, receipt.contextThresholdTokens = some threshold → 0 ≤ threshold
  total : applyPriceMultipliers base multipliers = some receipt.totalNanoUSD

namespace Receipt.Current

variable {receipt : Receipt} {multipliers : PriceMultipliers} {base : Int}
  (h : receipt.Current multipliers base)

include h

theorem six_le : 6 ≤ receipt.schemaVersion := by
  rcases h.version with hversion | hversion <;> rw [hversion] <;> decide

theorem multipliers_eq : receipt.multipliers = multipliers := by
  have := h.six_le
  rw [Receipt.multipliers, if_neg (by omega), h.carried, getD_some]

theorem validatePriceMultipliers : receipt.validatePriceMultipliers = .ok () := by
  have := h.six_le
  rw [Receipt.validatePriceMultipliers, if_neg (by omega), h.carried, any_some, h.valid]
  decide

theorem validateBaseTotal : receipt.validateBaseTotal = .ok () := by
  have := h.six_le
  rw [Receipt.validateBaseTotal, if_neg (by omega), h.baseTotal, any_some,
    decide_eq_true h.nonneg]
  decide

theorem validateMode : receipt.validateMode = .ok () := by
  have := h.six_le
  rw [Receipt.validateMode, if_neg (by omega), h.mode]
  decide

theorem validateHeader : receipt.validateHeader = .ok () := by
  simp only [Receipt.validateHeader, both_ok, refuse_ok, within_ok]
  refine ⟨?_, h.validatePriceMultipliers, h.validateBaseTotal, h.validateMode, h.rule, ?_, ?_⟩
  · simp only [h.method, h.methodVersion, h.currency]
    rcases h.version with hversion | hversion <;> rw [hversion] <;> decide
  · cases hthreshold : receipt.contextThresholdTokens with
    | none => simp
    | some threshold => simpa using h.threshold threshold hthreshold
  · exact Int.not_lt.mpr (applyPriceMultipliers_some h.total).1

theorem validateReceipt {progress : Progress} (hbase : progress.total = base)
    (hlines : receipt.lineItems.foldlM (validateLine receipt.schemaVersion multipliers) ⟨[], 0⟩ =
      .ok progress) : validateReceipt receipt = .ok () := by
  rw [Pricing.validateReceipt, both_ok, h.multipliers_eq, bind_ok]
  refine ⟨h.validateHeader, progress, hlines, ?_⟩
  rw [Receipt.validateTotal, if_pos h.six_le, both_ok, refuse_ok, refuse_ok, hbase, h.baseTotal,
    h.multipliers_eq]
  exact ⟨not_not.mpr rfl, not_not.mpr h.total⟩

end Receipt.Current

end EchoJoyGateway.Pricing
