import EchoJoyGateway.Lib.DigitText
import EchoJoyGateway.Lib.Traverse

/-!
# Price tables

`internal/pricing/compile.go` and the types it validates. A table is built from rules
that pass every check, and never changes afterwards; copying the rules is the identity
on values. A map is the list of its entries in the order in which a loop meets them.
-/

namespace EchoJoyGateway.Pricing

open Utf8 DigitText Traverse List

inductive Piece where
  | text (text : String)
  | quoted (value : Text)
  deriving DecidableEq

abbrev Message := List Piece

def plain (text : String) : Message := [.text text]

/-- Go returns the error when the condition holds. -/
def refuse (condition : Prop) [Decidable condition] (message : Message) : Except Message Unit :=
  if condition then .error message else .ok ()

/-- `fmt.Errorf("context: %w", err)`. -/
def within (context : Message) : Except Message Unit → Except Message Unit
  | .error message => .error (context ++ .text ": " :: message)
  | .ok () => .ok ()

abbrev Mode := Text

def modeStandard : Mode := ascii "standard"

def modeFast : Mode := ascii "fast"

structure Price where
  nanoUSDPerMillion : Int
  set : Bool
  deriving DecidableEq

structure Prices where
  input : Price
  output : Price
  cacheRead : Price
  cacheWrite : Price
  deriving DecidableEq

structure Identity where
  channelID : Text
  modelID : Text
  deriving DecidableEq

structure ContextTier where
  inputThresholdTokens : Int
  prices : Prices
  deriving DecidableEq

structure Schedule where
  prices : Prices
  contextTiers : List ContextTier
  deriving DecidableEq

structure Rule where
  identity : Identity
  prices : Prices
  contextTiers : List ContextTier
  modeSchedules : List (Mode × Schedule)
  deriving DecidableEq

structure ClientRule where
  clientModel : Text
  prices : Prices
  contextTiers : List ContextTier
  modeSchedules : List (Mode × Schedule)
  deriving DecidableEq

/-- A nil table answers as one without rules. -/
structure Table where
  rules : List Rule
  clientRules : List ClientRule
  deriving DecidableEq

/-! ## Names -/

def maxProviderIDBytes : Nat := 246

def maxChannelIDBytes : Nat := 64

def maxModelIDBytes : Nat := 255

def maxModeBytes : Nat := 64

def isLowerAlphanumeric (b : UInt8) : Bool := (97 ≤ b && b ≤ 122) || isDigit b

/-- The bytes of a mode from some index on; only the first and the last must be
alphanumeric. -/
def Mode.validFrom (index length : Nat) : Text → Bool
  | [] => true
  | b :: rest =>
    (isLowerAlphanumeric b || (0 < index && index < length - 1 && (b == 45 || b == 95))) &&
      validFrom (index + 1) length rest

def Mode.valid (mode : Mode) : Bool :=
  if mode.length = 0 ∨ mode.length > maxModeBytes then false
  else Mode.validFrom 0 mode.length mode

/-- The round of the loop over a provider identifier; the state says whether the byte
before was a separator. -/
def providerByte (separator : Bool) (b : UInt8) : Except Message Bool :=
  if isLowerAlphanumeric b then .ok false
  else if b = 46 ∨ b = 45 then
    if separator then
      .error (plain "provider ID must contain non-empty lowercase slug segments")
    else .ok true
  else .error (plain "provider ID must contain only lowercase ASCII slug segments")

def providerScopeKey (providerID : Text) : Except Message Text := do
  refuse (providerID.length = 0 ∨ providerID.length > maxProviderIDBytes)
    (plain s!"provider ID must be 1 through {maxProviderIDBytes} ASCII bytes")
  let separator ← providerID.foldlM providerByte true
  refuse (separator = true) (plain "provider ID must contain non-empty lowercase slug segments")
  pure (ascii "provider:" ++ providerID)

def groupScopeKey (groupID : Nat) : Except Message Text := do
  refuse (groupID = 0) (plain "group ID must be positive")
  pure (ascii "group:" ++ numeral groupID)

/-- `validateChannelID` and `validateModelID`. -/
def validateName (what : String) (maxBytes : Nat) (name : Text) : Except Message Unit := do
  refuse (name.length = 0 ∨ name.length > maxBytes)
    (plain s!"{what} must be 1 through {maxBytes} bytes")
  refuse (trimSpace name ≠ name) (plain s!"{what} must not have surrounding whitespace")
  refuse ((runes name).any fun r => isControl r.value)
    (plain s!"{what} must not contain control characters")

def validateChannelID (channelID : Text) : Except Message Unit :=
  validateName "channel ID" maxChannelIDBytes channelID

def validateModelID (modelID : Text) : Except Message Unit :=
  validateName "model ID" maxModelIDBytes modelID

def validateIdentity (identity : Identity) : Except Message Unit := do
  validateChannelID identity.channelID
  validateModelID identity.modelID

/-! ## Prices -/

def validatePrices (prices : Prices) : Except Message Unit :=
  [prices.input, prices.output, prices.cacheRead, prices.cacheWrite].forM fun price =>
    refuse (price.nanoUSDPerMillion < 0) (plain "pricing price must be non-negative")

def hasSetPrice (prices : Prices) : Bool :=
  prices.input.set || prices.output.set || prices.cacheRead.set || prices.cacheWrite.set

/-- One tier after those up to the previous threshold. -/
def validateContextTier (previousThreshold : Int) (tier : ContextTier) : Except Message Int := do
  refuse (tier.inputThresholdTokens < 0) (plain "context tier threshold must be non-negative")
  refuse (tier.inputThresholdTokens ≤ previousThreshold)
    (plain "context tier thresholds must be strictly increasing")
  validatePrices tier.prices
  refuse (hasSetPrice tier.prices = false) (plain "context tier must set at least one price")
  pure tier.inputThresholdTokens

def validateContextTiers (tiers : List ContextTier) : Except Message Unit := do
  let _ ← tiers.foldlM validateContextTier (-1)
  pure ()

def validateModeSchedule (entry : Mode × Schedule) : Except Message Unit := do
  refuse (entry.1.valid = false ∨ entry.1 = modeStandard)
    [.text "invalid non-standard pricing mode ", .quoted entry.1]
  validatePrices entry.2.prices
  refuse (hasSetPrice entry.2.prices = false)
    [.text "pricing mode ", .quoted entry.1, .text " must set at least one price"]
  refuse (entry.1 = modeFast ∧ entry.2.contextTiers ≠ [])
    (plain "Fast pricing mode does not support context tiers")
  within [.text "pricing mode ", .quoted entry.1] (validateContextTiers entry.2.contextTiers)

def validateSchedules (prices : Prices) (contextTiers : List ContextTier)
    (modeSchedules : List (Mode × Schedule)) : Except Message Unit := do
  validatePrices prices
  validateContextTiers contextTiers
  modeSchedules.forM validateModeSchedule

def validateRule (rule : Rule) : Except Message Unit := do
  validateIdentity rule.identity
  validateSchedules rule.prices rule.contextTiers rule.modeSchedules

/-! ## Tables -/

namespace Table

def addClientRule (table : Table) (rule : ClientRule) : Except Message Table := do
  within (plain "client model") (validateModelID rule.clientModel)
  validateSchedules rule.prices rule.contextTiers rule.modeSchedules
  refuse (table.clientRules.any (·.clientModel == rule.clientModel))
    [.text "duplicate client model pricing ", .quoted rule.clientModel]
  pure { table with clientRules := table.clientRules ++ [rule] }

def addRule (table : Table) (rule : Rule) : Except Message Table := do
  validateRule rule
  refuse (table.rules.any (·.identity == rule.identity))
    [.text "duplicate pricing identity channel_id=", .quoted rule.identity.channelID,
      .text " model_id=", .quoted rule.identity.modelID]
  pure { table with rules := table.rules ++ [rule] }

def lookup (table : Table) (identity : Identity) : Option Rule :=
  table.rules.find? (·.identity == identity)

def lookupClient (table : Table) (clientModel : Text) : Option ClientRule :=
  table.clientRules.find? (·.clientModel == clientModel)

end Table

def newTableWithClientRules (rules : List Rule) (clientRules : List ClientRule) :
    Except Message Table := do
  let table ← clientRules.foldlM Table.addClientRule ⟨[], []⟩
  rules.foldlM Table.addRule table

/-! ## What a table holds -/

theorem refuse_ok {condition : Prop} [Decidable condition] {message : Message} :
    refuse condition message = .ok () ↔ ¬ condition := by
  unfold refuse
  split <;> simp_all

theorem within_ok {context : Message} {outcome : Except Message Unit} :
    within context outcome = .ok () ↔ outcome = .ok () := by
  cases outcome <;> simp [within]

/-- No threshold of a schedule is negative. -/
def ThresholdsNonneg (tiers : List ContextTier) : Prop :=
  ∀ tier ∈ tiers, 0 ≤ tier.inputThresholdTokens

theorem validateContextTier_ok {previous next : Int} {tier : ContextTier}
    (h : validateContextTier previous tier = .ok next) : 0 ≤ tier.inputThresholdTokens := by
  simp only [validateContextTier, both_ok, refuse_ok, Int.not_lt] at h
  exact h.1

theorem validateContextTiers_ok {tiers : List ContextTier}
    (h : validateContextTiers tiers = .ok ()) : ThresholdsNonneg tiers := by
  obtain ⟨last, hfold, -⟩ := bind_ok.mp h
  refine foldlM_ok (fun done _ => ThresholdsNonneg done) ?_ nofun hfold
  intro done tier _ _ hdone hstep item hitem
  rcases mem_append.mp hitem with hitem | hitem
  · exact hdone item hitem
  · cases mem_singleton.mp hitem
    exact validateContextTier_ok hstep

structure Schedules (tiers : List ContextTier) (modeSchedules : List (Mode × Schedule)) : Prop where
  standard : ThresholdsNonneg tiers
  mode : ∀ entry ∈ modeSchedules, entry.1.valid = true ∧ ThresholdsNonneg entry.2.contextTiers

theorem validateSchedules_ok {prices : Prices} {tiers : List ContextTier}
    {modeSchedules : List (Mode × Schedule)}
    (h : validateSchedules prices tiers modeSchedules = .ok ()) :
    Schedules tiers modeSchedules := by
  simp only [validateSchedules, both_ok, forM_ok] at h
  obtain ⟨-, htiers, hmodes⟩ := h
  refine ⟨validateContextTiers_ok htiers, ?_⟩
  intro entry hentry
  have hchecks := hmodes entry hentry
  simp only [validateModeSchedule, both_ok, refuse_ok, within_ok, not_or,
    Bool.not_eq_false] at hchecks
  obtain ⟨⟨hvalid, -⟩, -, -, -, hcontext⟩ := hchecks
  exact ⟨hvalid, validateContextTiers_ok hcontext⟩

structure Table.WellFormed (table : Table) : Prop where
  rule : ∀ rule ∈ table.rules, validateRule rule = .ok ()
  client : ∀ rule ∈ table.clientRules, validateModelID rule.clientModel = .ok () ∧
    validateSchedules rule.prices rule.contextTiers rule.modeSchedules = .ok ()

namespace Table.WellFormed

variable {table table' : Table}

theorem addClientRule (h : table.WellFormed) {rule : ClientRule}
    (hadd : table.addClientRule rule = .ok table') : table'.WellFormed := by
  simp only [Table.addClientRule, both_ok, within_ok] at hadd
  obtain ⟨hmodel, hschedules, -, hadded⟩ := hadd
  cases hadded
  refine ⟨h.rule, ?_⟩
  intro item hitem
  rcases mem_append.mp hitem with hitem | hitem
  · exact h.client item hitem
  · cases mem_singleton.mp hitem
    exact ⟨hmodel, hschedules⟩

theorem addRule (h : table.WellFormed) {rule : Rule}
    (hadd : table.addRule rule = .ok table') : table'.WellFormed := by
  simp only [Table.addRule, both_ok] at hadd
  obtain ⟨hrule, -, hadded⟩ := hadd
  cases hadded
  refine ⟨?_, h.client⟩
  intro item hitem
  rcases mem_append.mp hitem with hitem | hitem
  · exact h.rule item hitem
  · cases mem_singleton.mp hitem
    exact hrule

end Table.WellFormed

theorem newTableWithClientRules_wellFormed {rules : List Rule} {clientRules : List ClientRule}
    {table : Table} (h : newTableWithClientRules rules clientRules = .ok table) :
    table.WellFormed := by
  obtain ⟨clients, hclients, hrules⟩ := bind_ok.mp h
  have hempty : Table.WellFormed ⟨[], []⟩ := ⟨by simp, by simp⟩
  have hstart : clients.WellFormed :=
    foldlM_ok (fun _ => Table.WellFormed)
      (fun _ _ _ _ hbefore => hbefore.addClientRule) hempty hclients
  exact foldlM_ok (fun _ => Table.WellFormed) (fun _ _ _ _ hbefore => hbefore.addRule) hstart hrules

end EchoJoyGateway.Pricing
