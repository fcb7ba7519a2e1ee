import EchoJoyGateway.Pricing.Receipt

/-!
# Quotes

`internal/pricing/quote.go`: the prices of a usage result are chosen by context tier and
mode, each positive component is rounded on its own, and the multipliers are applied
once to the sum. The receipt that leaves a quote passes its own validation, and the
quoted amount is the exact price up to these roundings.
-/

namespace EchoJoyGateway.Pricing

open Utf8 Traverse List Option

def directPriceMultiplier : Multiplier := ⟨1, 1⟩

def cacheWriteOneHourMultiplier : Multiplier := ⟨8, 5⟩

inductive CostState where
  | priced
  | unpriced
  | notApplicable
  deriving DecidableEq

inductive Completeness where
  | complete
  | incomplete
  | unavailable
  | notApplicable
  deriving DecidableEq

structure Quote where
  state : CostState
  completeness : Completeness
  estimatedCostNanoUSD : Int
  deriving DecidableEq

def unavailableQuote : Quote := ⟨.unpriced, .unavailable, 0⟩

/-- The last tier whose threshold the input reaches, in a loop that stops at the first
one it does not reach. -/
def selectSchedulePrices (prices : Prices) (selectedThreshold : Option Int) (inputTokens : Int) :
    List ContextTier → Prices × Option Int
  | [] => (prices, selectedThreshold)
  | tier :: tiers =>
    if inputTokens < tier.inputThresholdTokens then (prices, selectedThreshold)
    else selectSchedulePrices tier.prices (some tier.inputThresholdTokens) inputTokens tiers

def checkedInputTokens (tokens : Usage.Tokens) : Option Int :=
  [tokens.uncachedInput, tokens.cacheRead, tokens.cacheWrite5M, tokens.cacheWrite1H,
    tokens.cacheWriteUnknown].foldlM Usage.checkedAdd 0

structure Selection where
  mode : Mode
  prices : Prices
  threshold : Option Int

/-- A standard tier that is reached goes before the mode, and a mode without a schedule is
the standard one. -/
def selectSchedule (basePrices : Prices) (contextTiers : List ContextTier)
    (modeSchedules : List (Mode × Schedule)) (mode : Mode) (inputTokens : Int) : Selection :=
  let standard := selectSchedulePrices basePrices none inputTokens contextTiers
  if standard.2 = none ∧ mode ≠ [] ∧ mode ≠ modeStandard then
    match modeSchedules.lookup mode with
    | some schedule =>
      let selected := selectSchedulePrices schedule.prices none inputTokens schedule.contextTiers
      ⟨mode, selected.1, selected.2⟩
    | none => ⟨modeStandard, standard.1, standard.2⟩
  else ⟨modeStandard, standard.1, standard.2⟩

structure Component where
  code : Text
  tokens : Int
  price : Price
  multiplier : Multiplier

def components (tokens : Usage.Tokens) (prices : Prices) : List Component :=
  [⟨ascii "input", tokens.uncachedInput, prices.input, directPriceMultiplier⟩,
    ⟨ascii "cache_read", tokens.cacheRead, prices.cacheRead, directPriceMultiplier⟩,
    ⟨ascii "cache_write_5m", tokens.cacheWrite5M, prices.cacheWrite, directPriceMultiplier⟩,
    ⟨ascii "cache_write_1h", tokens.cacheWrite1H, prices.cacheWrite, cacheWriteOneHourMultiplier⟩,
    ⟨ascii "output", tokens.output, prices.output, directPriceMultiplier⟩]

structure Tally where
  positiveBillable : Bool
  pricedPositive : Bool
  incomplete : Bool
  cost : Int
  lineItems : List ReceiptLine

def Component.unpricedLine (component : Component) : ReceiptLine where
  code := component.code
  quantity := component.tokens
  rateNanoUSDPerMillion := none
  multiplier := component.multiplier
  state := .unpriced
  amountNanoUSD := none

def Component.pricedLine (component : Component) (amount : Int) : ReceiptLine :=
  { component.unpricedLine with
    rateNanoUSDPerMillion := some component.price.nanoUSDPerMillion
    amountNanoUSD := some amount
    state := .priced }

/-- One round of the loop; an error is the quote that the function returns at once, without
a receipt. -/
def Tally.charge (tally : Tally) (component : Component) : Except Quote Tally :=
  if component.tokens = 0 then .ok tally
  else if component.price.set = false then
    .ok { tally with
      positiveBillable := true
      incomplete := true
      lineItems := tally.lineItems ++ [component.unpricedLine] }
  else
    match quoteComponent component.tokens component.price.nanoUSDPerMillion
        component.multiplier with
    | none => .error unavailableQuote
    | some componentCost =>
      match checkedAddNanoUSD tally.cost componentCost with
      | none => .error unavailableQuote
      | some cost =>
        .ok { tally with
          positiveBillable := true
          pricedPositive := true
          cost
          lineItems := tally.lineItems ++ [component.pricedLine componentCost] }

def unknownCacheWrite (tokens : Usage.Tokens) : List ReceiptLine :=
  if tokens.cacheWriteUnknown > 0 then
    [⟨ascii "cache_write", tokens.cacheWriteUnknown, none, directPriceMultiplier, .unpriced, none⟩]
  else []

def Selection.receipt (selection : Selection) (rule : ReceiptRule) (lineItems : List ReceiptLine)
    (cost : Int) : Receipt where
  schemaVersion := 4
  method := receiptMethodUnitRateSum
  methodVersion := 1
  currency := "USD"
  pricingMode := selection.mode
  priceMultipliers := none
  baseTotalNanoUSD := none
  rule := rule
  contextThresholdTokens := selection.threshold
  lineItems := lineItems
  totalNanoUSD := cost

def Tally.quote (tally : Tally) : Quote :=
  if tally.positiveBillable ∧ tally.pricedPositive = false then unavailableQuote
  else ⟨.priced, if tally.incomplete then .incomplete else .complete, tally.cost⟩

def priceTokens (result : Usage.Result) (selection : Selection) (rule : ReceiptRule) :
    Quote × Option Receipt :=
  let unknown := decide (result.tokens.cacheWriteUnknown > 0)
  let start : Tally := ⟨unknown, false, decide (result.state = .incomplete) || unknown, 0, []⟩
  match (components result.tokens selection.prices).foldlM Tally.charge start with
  | .error quote => (quote, none)
  | .ok tally =>
    let lineItems := tally.lineItems ++ unknownCacheWrite result.tokens
    (tally.quote, some (selection.receipt rule lineItems tally.cost))

abbrev RuleSchedules := Prices × List ContextTier × List (Mode × Schedule)

/-- The pricing of a usage result that is complete or partial; `none` are the schedules of
a rule that was not found. -/
def quoteReported (schedules : Option RuleSchedules) (receiptRule : ReceiptRule)
    (result : Usage.Result) (mode : Mode) : Quote × Option Receipt :=
  match schedules, Usage.checkedTotal result.tokens, checkedInputTokens result.tokens with
  | some (prices, contextTiers, modeSchedules), some _, some inputTokens =>
    priceTokens result (selectSchedule prices contextTiers modeSchedules mode inputTokens)
      receiptRule
  | _, _, _ => (unavailableQuote, none)

def quoteSchedules (schedules : Option RuleSchedules) (receiptRule : ReceiptRule)
    (result : Usage.Result) (mode : Mode) : Quote × Option Receipt :=
  match result.state with
  | .notApplicable => (⟨.notApplicable, .notApplicable, 0⟩, none)
  | .missing => (unavailableQuote, none)
  | .other _ => (unavailableQuote, none)
  | .complete | .incomplete => quoteReported schedules receiptRule result mode

def applyQuoteMultipliers (quote : Quote) (receipt : Option Receipt)
    (multipliers : PriceMultipliers) (schemaVersion : Int) : Quote × Option Receipt :=
  if multipliers.valid = false then (unavailableQuote, none)
  else
    match receipt with
    | none => (quote, none)
    | some receipt =>
      let multiplied := { receipt with
        schemaVersion := schemaVersion
        baseTotalNanoUSD := some receipt.totalNanoUSD
        priceMultipliers := some multipliers }
      if quote.state = .priced then
        match applyPriceMultipliers quote.estimatedCostNanoUSD multipliers with
        | none => (unavailableQuote, none)
        | some adjusted =>
          ({ quote with estimatedCostNanoUSD := adjusted },
            some { multiplied with totalNanoUSD := adjusted })
      else (quote, some multiplied)

namespace Table

variable (table : Table)

def quoteForModeWithReceipt (identity : Identity) (result : Usage.Result) (mode : Mode) :
    Quote × Option Receipt :=
  quoteSchedules
    ((table.lookup identity).map fun rule => (rule.prices, rule.contextTiers, rule.modeSchedules))
    { channelID := identity.channelID, modelID := identity.modelID } result mode

def quoteForModeWithMultipliers (identity : Identity) (result : Usage.Result) (mode : Mode)
    (multipliers : PriceMultipliers) : Quote × Option Receipt :=
  let quoted := table.quoteForModeWithReceipt identity result mode
  applyQuoteMultipliers quoted.1 quoted.2 multipliers upstreamReceiptSchemaVersion

/-- The multiplier of the group applies to upstream costs only. -/
def quoteClientModel (clientModel : Text) (result : Usage.Result) (mode : Mode)
    (accessKey : PriceMultiplier) : Quote × Option Receipt :=
  let quoted := quoteSchedules
    ((table.lookupClient clientModel).map fun rule =>
      (rule.prices, rule.contextTiers, rule.modeSchedules))
    { clientModel := clientModel } result mode
  applyQuoteMultipliers quoted.1 quoted.2 ⟨defaultPriceMultiplier, accessKey⟩
    clientModelReceiptSchemaVersion

end Table

/-! ## The selected schedule -/

structure Selection.Sound (selection : Selection) : Prop where
  mode : selection.mode.valid = true
  threshold : ∀ threshold, selection.threshold = some threshold → 0 ≤ threshold

variable {tiers : List ContextTier}

theorem selectSchedulePrices_threshold {prices : Prices} {selected : Option Int} {inputTokens : Int}
    (htiers : ThresholdsNonneg tiers)
    (hselected : ∀ threshold, selected = some threshold → 0 ≤ threshold) {threshold : Int}
    (h : (selectSchedulePrices prices selected inputTokens tiers).2 = some threshold) :
    0 ≤ threshold := by
  induction tiers generalizing prices selected with
  | nil => exact hselected threshold h
  | cons tier tiers ih =>
    simp only [selectSchedulePrices] at h
    split at h
    · exact hselected threshold h
    · refine ih (fun item hitem => htiers item (mem_cons_of_mem _ hitem)) ?_ h
      rintro _ ⟨⟩
      exact htiers tier (.head _)

theorem modeStandard_valid : Mode.valid modeStandard = true := by decide

theorem selectSchedule_sound {basePrices : Prices} {modeSchedules : List (Mode × Schedule)}
    (h : Schedules tiers modeSchedules) (mode : Mode) (inputTokens : Int) :
    (selectSchedule basePrices tiers modeSchedules mode inputTokens).Sound := by
  have hstandard : Selection.Sound ⟨modeStandard,
      (selectSchedulePrices basePrices none inputTokens tiers).1,
      (selectSchedulePrices basePrices none inputTokens tiers).2⟩ :=
    ⟨modeStandard_valid, fun _ => selectSchedulePrices_threshold h.standard (by simp)⟩
  simp only [selectSchedule]
  split
  · split
    · rename_i schedule hschedule
      have hentry : (mode, schedule) ∈ modeSchedules := by
        obtain ⟨before, rest, hsplit, -⟩ := lookup_eq_some_iff.mp hschedule
        rw [hsplit]
        simp
      obtain ⟨hvalid, hthresholds⟩ := h.mode _ hentry
      exact ⟨hvalid, fun _ => selectSchedulePrices_threshold hthresholds (by simp)⟩
    · exact hstandard
  · exact hstandard

/-! ## Lines and their sum -/

def pricedLines (lineItems : List ReceiptLine) : List ReceiptLine :=
  lineItems.filter (·.state = .priced)

def ReceiptLine.exactPrice (line : ReceiptLine) : ℚ :=
  exactComponent line.quantity (line.rateNanoUSDPerMillion.getD 0) line.multiplier

def exactPrice (lineItems : List ReceiptLine) : ℚ :=
  ((pricedLines lineItems).map ReceiptLine.exactPrice).sum

section Recorded

variable {schemaVersion : Int} {multipliers : PriceMultipliers}

structure Recorded (schemaVersion : Int) (multipliers : PriceMultipliers) (codes : List Text)
    (lineItems : List ReceiptLine) (cost : Int) : Prop where
  accepted : ∃ seen, seen ⊆ codes ∧
    lineItems.foldlM (validateLine schemaVersion multipliers) ⟨[], 0⟩ = .ok ⟨seen, cost⟩
  nonneg : 0 ≤ cost
  near : |(cost : ℚ) - exactPrice lineItems| ≤ (pricedLines lineItems).length / 2

theorem Recorded.nil : Recorded schemaVersion multipliers [] [] 0 where
  accepted := ⟨[], List.Subset.refl _, rfl⟩
  nonneg := Int.le_refl 0
  near := by simp [exactPrice, pricedLines]

variable {codes : List Text} {lineItems : List ReceiptLine} {cost : Int}

theorem Recorded.mono (h : Recorded schemaVersion multipliers codes lineItems cost)
    {codes' : List Text} (hsub : codes ⊆ codes') :
    Recorded schemaVersion multipliers codes' lineItems cost := by
  obtain ⟨seen, hseen, haccepted⟩ := h.accepted
  exact ⟨⟨seen, fun code hcode => hsub (hseen hcode), haccepted⟩, h.nonneg, h.near⟩

def Multiplier.Positive (multiplier : Multiplier) : Prop :=
  0 < multiplier.numerator ∧ 0 < multiplier.denominator

theorem directPriceMultiplier_positive : directPriceMultiplier.Positive := ⟨by decide, by decide⟩

theorem cacheWriteOneHourMultiplier_positive : cacheWriteOneHourMultiplier.Positive :=
  ⟨by decide, by decide⟩

structure ReceiptLine.Proper (line : ReceiptLine) : Prop where
  code : line.code ∈ allowed
  quantity : 0 < line.quantity
  multiplier : line.multiplier.Positive

variable {line : ReceiptLine} {total : Int}

theorem Recorded.accepts (h : Recorded schemaVersion multipliers codes lineItems cost)
    (hline : line.Proper) (hnew : line.code ∉ codes)
    (htotal : validateAmount schemaVersion multipliers cost line = .ok total) :
    ∃ seen, seen ⊆ codes ++ [line.code] ∧
      (lineItems ++ [line]).foldlM (validateLine schemaVersion multipliers) ⟨[], 0⟩ =
        .ok ⟨seen, total⟩ := by
  obtain ⟨seen, hseen, haccepted⟩ := h.accepted
  refine ⟨line.code :: seen, ?_, ?_⟩
  · intro code hcode
    rcases mem_cons.mp hcode with rfl | hcode
    · exact mem_append_right _ (mem_singleton_self _)
    · exact mem_append_left _ (hseen hcode)
  · rw [foldlM_append, bind_ok]
    refine ⟨_, haccepted, ?_⟩
    rw [foldlM_cons, bind_ok]
    refine ⟨⟨line.code :: seen, total⟩, ?_, rfl⟩
    simp only [validateLine, both_ok, refuse_ok, not_not, not_or, Int.not_le]
    refine ⟨hline.code, fun hmem => hnew (hseen hmem), ⟨hline.quantity, hline.multiplier⟩, ?_⟩
    exact bind_ok.mpr ⟨total, htotal, rfl⟩

theorem Recorded.unpriced (h : Recorded schemaVersion multipliers codes lineItems cost)
    (hline : line.Proper) (hnew : line.code ∉ codes) (hstate : line.state = .unpriced)
    (hrate : line.rateNanoUSDPerMillion = none) (hamount : line.amountNanoUSD = none) :
    Recorded schemaVersion multipliers (codes ++ [line.code]) (lineItems ++ [line]) cost := by
  refine ⟨h.accepts hline hnew ?_, h.nonneg, ?_⟩
  · rw [validateAmount, hstate, hrate, hamount]
  · simpa [exactPrice, pricedLines, hstate] using h.near

theorem Recorded.priced (h : Recorded schemaVersion multipliers codes lineItems cost)
    (hversion : schemaVersion ≠ 5) (hline : line.Proper) (hnew : line.code ∉ codes)
    {rate amount : Int} (hstate : line.state = .priced)
    (hrate : line.rateNanoUSDPerMillion = some rate) (hamount : line.amountNanoUSD = some amount)
    (hquote : quoteComponent line.quantity rate line.multiplier = some amount)
    (htotal : checkedAddNanoUSD cost amount = some total) :
    Recorded schemaVersion multipliers (codes ++ [line.code]) (lineItems ++ [line]) total := by
  obtain ⟨hratePos, hamountPos, -, -, hnear⟩ := quoteComponent_some hquote
  obtain ⟨hcost, -, -, rfl⟩ := Usage.checkedAdd_eq_some.mp htotal
  refine ⟨h.accepts hline hnew ?_, Int.add_nonneg hcost hamountPos, ?_⟩
  · have hrecomputed : line.recompute schemaVersion multipliers rate = some amount := by
      rw [ReceiptLine.recompute, if_neg hversion, hquote]
    simp only [validateAmount, hstate, hrate, hamount, hrecomputed, htotal]
    rw [if_neg (by omega), if_pos trivial]
  · have hexact : exactPrice (lineItems ++ [line]) =
        exactPrice lineItems + exactComponent line.quantity rate line.multiplier := by
      simp [exactPrice, pricedLines, hstate, ReceiptLine.exactPrice, hrate]
    have hcount : ((pricedLines (lineItems ++ [line])).length : ℚ) =
        (pricedLines lineItems).length + 1 := by
      simp [pricedLines, hstate]
    rw [hexact, hcount]
    have hsplit : ((cost + amount : Int) : ℚ) -
        (exactPrice lineItems + exactComponent line.quantity rate line.multiplier) =
        (cost - exactPrice lineItems) +
          (amount - exactComponent line.quantity rate line.multiplier) := by
      push_cast
      ring
    calc |((cost + amount : Int) : ℚ) -
          (exactPrice lineItems + exactComponent line.quantity rate line.multiplier)|
        ≤ |(cost : ℚ) - exactPrice lineItems| +
          |(amount : ℚ) - exactComponent line.quantity rate line.multiplier| :=
          hsplit ▸ abs_add_le _ _
      _ ≤ (pricedLines lineItems).length / 2 + 1 / 2 := add_le_add h.near hnear
      _ = ((pricedLines lineItems).length + 1) / 2 := by ring

/-! ## The loop over the components -/

structure Component.Proper (component : Component) : Prop where
  code : component.code ∈ allowed
  tokens : 0 ≤ component.tokens
  multiplier : component.multiplier.Positive

/-- The line of a component, at its rate or without one. -/
def Component.Lists (component : Component) (line : ReceiptLine) : Prop :=
  component.price.set = false ∧ line = component.unpricedLine ∨
    component.price.set = true ∧ ∃ amount, line = component.pricedLine amount ∧
      quoteComponent component.tokens component.price.nanoUSDPerMillion component.multiplier =
        some amount

structure Tally.Sound (schemaVersion : Int) (multipliers : PriceMultipliers)
    (done : List Component) (tally : Tally) : Prop where
  recorded : Recorded schemaVersion multipliers (done.map Component.code) tally.lineItems tally.cost
  unpaid : tally.pricedPositive = false → tally.cost = 0
  listed : List.Forall₂ Component.Lists (done.filter (·.tokens ≠ 0)) tally.lineItems

variable {done : List Component} {tally tally' : Tally} {component : Component}

theorem Tally.Sound.charge (hversion : schemaVersion ≠ 5)
    (h : tally.Sound schemaVersion multipliers done) (hproper : component.Proper)
    (hnew : component.code ∉ done.map Component.code)
    (hcharge : tally.charge component = .ok tally') :
    tally'.Sound schemaVersion multipliers (done ++ [component]) := by
  have hcodes : (done ++ [component]).map Component.code =
      done.map Component.code ++ [component.code] := map_append
  rw [Tally.charge] at hcharge
  split at hcharge
  · rename_i hzero
    cases hcharge
    exact ⟨hcodes ▸ h.recorded.mono (subset_append_left _ _), h.unpaid,
      by simpa [hzero] using h.listed⟩
  · rename_i hpositive
    have hquantity : 0 < component.tokens := by
      have := hproper.tokens
      omega
    have hlisted : ∀ line, component.Lists line → List.Forall₂ Component.Lists
        ((done ++ [component]).filter (·.tokens ≠ 0)) (tally.lineItems ++ [line]) := by
      intro line hline
      simpa [hpositive] using rel_append h.listed (.cons hline .nil)
    have hline : component.unpricedLine.Proper := ⟨hproper.code, hquantity, hproper.multiplier⟩
    split at hcharge
    · rename_i hset
      cases hcharge
      exact ⟨hcodes ▸ h.recorded.unpriced hline hnew rfl rfl rfl, h.unpaid,
        hlisted _ (.inl ⟨hset, rfl⟩)⟩
    · rename_i hset
      split at hcharge
      · cases hcharge
      · rename_i amount hquote
        split at hcharge
        · cases hcharge
        · rename_i total htotal
          cases hcharge
          have hpriced : (component.pricedLine amount).Proper :=
            ⟨hproper.code, hquantity, hproper.multiplier⟩
          exact ⟨hcodes ▸ h.recorded.priced hversion hpriced hnew rfl rfl rfl hquote htotal, nofun,
            hlisted _ (.inr ⟨Bool.eq_true_of_not_eq_false hset, amount, rfl, hquote⟩)⟩

theorem Tally.Sound.run {items : List Component} (hversion : schemaVersion ≠ 5)
    (h : tally.Sound schemaVersion multipliers []) (hproper : ∀ item ∈ items, item.Proper)
    (hnodup : (items.map Component.code).Nodup)
    (hrun : items.foldlM Tally.charge tally = .ok tally') :
    tally'.Sound schemaVersion multipliers items := by
  refine foldlM_ok (fun done tally => (∀ item ∈ done, item.Proper) →
    (done.map Component.code).Nodup → tally.Sound schemaVersion multipliers done)
    ?_ (fun _ _ => h) hrun hproper hnodup
  intro done component before after hbefore hstep hall hcodes
  rw [map_append, nodup_append] at hcodes
  obtain ⟨hdone, -, hdisjoint⟩ := hcodes
  refine (hbefore (fun item hitem => hall item (mem_append_left _ hitem)) hdone).charge
    hversion (hall component (mem_append_right _ (mem_singleton_self _))) ?_ hstep
  intro hmem
  exact hdisjoint _ hmem _ (mem_singleton_self _) rfl

/-! ## The components of a usage result -/

theorem codes_components (tokens : Usage.Tokens) (prices : Prices) :
    (components tokens prices).map Component.code =
      ["input", "cache_read", "cache_write_5m", "cache_write_1h", "output"].map ascii := rfl

theorem codes_distinct : (["input", "cache_read", "cache_write_5m", "cache_write_1h", "output",
    "cache_write"].map ascii).Nodup := by decide

theorem codes_allowed : ∀ code ∈ ["input", "cache_read", "cache_write_5m", "cache_write_1h",
    "output", "cache_write"].map ascii, code ∈ allowed := by decide

variable {tokens : Usage.Tokens}

theorem components_proper (prices : Prices) (h : Usage.checkedTotal tokens = some total) :
    ∀ component ∈ components tokens prices, component.Proper := by
  have hnonneg := Usage.nonneg_of_foldlM_checkedAdd h
  simp only [forall_mem_cons] at hnonneg
  obtain ⟨hinput, hread, hwrite5M, hwrite1H, -, houtput, -⟩ := hnonneg
  have hallowed := codes_allowed
  simp only [map_cons, forall_mem_cons] at hallowed
  obtain ⟨hcode₁, hcode₂, hcode₃, hcode₄, hcode₅, -⟩ := hallowed
  simp only [components, forall_mem_cons, not_mem_nil, false_implies, implies_true, and_true]
  exact ⟨⟨hcode₁, hinput, directPriceMultiplier_positive⟩,
    ⟨hcode₂, hread, directPriceMultiplier_positive⟩,
    ⟨hcode₃, hwrite5M, directPriceMultiplier_positive⟩,
    ⟨hcode₄, hwrite1H, cacheWriteOneHourMultiplier_positive⟩,
    ⟨hcode₅, houtput, directPriceMultiplier_positive⟩⟩

theorem components_sound {prices : Prices} (h : Usage.checkedTotal tokens = some total)
    (hversion : schemaVersion ≠ 5) {unknown incomplete : Bool}
    (hrun : (components tokens prices).foldlM Tally.charge ⟨unknown, false, incomplete, 0, []⟩ =
      .ok tally) :
    tally.Sound schemaVersion multipliers (components tokens prices) := by
  refine .run hversion ⟨.nil, fun _ => rfl, .nil⟩ (components_proper _ h) ?_ hrun
  rw [codes_components]
  exact (nodup_append.mp codes_distinct).1

theorem Recorded.unknownCacheWrite {prices : Prices}
    (h : Recorded schemaVersion multipliers ((components tokens prices).map Component.code)
      lineItems cost) :
    ∃ codes, Recorded schemaVersion multipliers codes
      (lineItems ++ Pricing.unknownCacheWrite tokens) cost := by
  rw [Pricing.unknownCacheWrite]
  split
  · rename_i hpositive
    refine ⟨_, h.unpriced ⟨?_, hpositive, directPriceMultiplier_positive⟩ ?_ rfl rfl rfl⟩
    · exact codes_allowed _ (by simp)
    · rw [codes_components]
      exact fun hmem => (nodup_append.mp codes_distinct).2.2 _ hmem _ (mem_singleton_self _) rfl
  · rw [append_nil]
    exact ⟨_, h⟩

end Recorded

/-! ## Receipts before the multipliers -/

structure Drafted (rule : ReceiptRule) (quote : Quote) (receipt : Receipt) : Prop where
  method : receipt.method = receiptMethodUnitRateSum
  methodVersion : receipt.methodVersion = 1
  currency : receipt.currency = "USD"
  mode : receipt.pricingMode.valid = true
  rule : receipt.rule = rule
  threshold : ∀ threshold, receipt.contextThresholdTokens = some threshold → 0 ≤ threshold
  recorded : ∀ schemaVersion, schemaVersion ≠ 5 → ∀ multipliers, ∃ codes,
    Recorded schemaVersion multipliers codes receipt.lineItems receipt.totalNanoUSD
  priced : quote.state = .priced → quote.estimatedCostNanoUSD = receipt.totalNanoUSD
  unpriced : quote.state ≠ .priced → receipt.totalNanoUSD = 0

structure Documented (rule : ReceiptRule) (outcome : Quote × Option Receipt) : Prop where
  drafted : ∀ receipt, outcome.2 = some receipt → Drafted rule outcome.1 receipt
  receipt : outcome.1.state = .priced → outcome.2.isSome = true

variable {quote : Quote}

theorem Documented.none {rule : ReceiptRule} (h : quote.state ≠ .priced) :
    Documented rule (quote, none) :=
  ⟨fun _ hreceipt => (some_ne_none _ hreceipt.symm).elim, fun hpriced => (h hpriced).elim⟩

variable {tally : Tally}

theorem charge_error {component : Component} (h : tally.charge component = .error quote) :
    quote = unavailableQuote := by
  rw [Tally.charge] at h
  split at h
  · cases h
  · split at h
    · cases h
    · split at h
      · cases h
        rfl
      · split at h
        · cases h
          rfl
        · cases h

theorem charges_error {items : List Component}
    (h : items.foldlM Tally.charge tally = .error quote) : quote = unavailableQuote := by
  induction items generalizing tally with
  | nil => cases h
  | cons item items ih =>
    rw [foldlM_cons] at h
    cases hitem : tally.charge item with
    | error quote' =>
      rw [hitem] at h
      cases h
      exact charge_error hitem
    | ok tally' =>
      rw [hitem] at h
      exact ih h

theorem Tally.quote_cases (tally : Tally) :
    tally.quote = unavailableQuote ∧ tally.pricedPositive = false ∨
      tally.quote.state = .priced ∧ tally.quote.estimatedCostNanoUSD = tally.cost := by
  rw [Tally.quote]
  split
  · rename_i h
    exact .inl ⟨rfl, h.2⟩
  · exact .inr ⟨rfl, rfl⟩

theorem priceTokens_documented {result : Usage.Result} {selection : Selection} {total : Int}
    (htotal : Usage.checkedTotal result.tokens = some total) (hselection : selection.Sound)
    (rule : ReceiptRule) : Documented rule (priceTokens result selection rule) := by
  simp only [priceTokens]
  split
  · rename_i quote herror
    rw [charges_error herror]
    exact .none (by decide)
  · rename_i tally hrun
    refine ⟨?_, fun _ => rfl⟩
    rintro receipt ⟨⟩
    refine ⟨rfl, rfl, rfl, hselection.mode, rfl, hselection.threshold, ?_, ?_, ?_⟩
    · intro schemaVersion hversion multipliers
      exact (components_sound htotal hversion hrun).recorded.unknownCacheWrite
    · intro hpriced
      rcases tally.quote_cases with ⟨hquote, -⟩ | ⟨-, hcost⟩
      · rw [hquote] at hpriced
        cases hpriced
      · exact hcost
    · intro hunpriced
      rcases tally.quote_cases with ⟨-, hunpaid⟩ | ⟨hpriced, -⟩
      · exact (@components_sound 6 ⟨0, 0⟩ _ _ _ _ htotal (by decide) _ _ hrun).unpaid hunpaid
      · exact (hunpriced hpriced).elim

variable {schedules : Option RuleSchedules}

theorem quoteReported_documented
    (h : ∀ prices tiers modes, schedules = some (prices, tiers, modes) → Schedules tiers modes)
    (rule : ReceiptRule) (result : Usage.Result) (mode : Mode) :
    Documented rule (quoteReported schedules rule result mode) := by
  unfold quoteReported
  split
  · rename_i prices tiers modes total inputTokens htotal _
    exact priceTokens_documented htotal (selectSchedule_sound (h _ _ _ rfl) mode inputTokens) rule
  · exact .none (by decide)

theorem quoteSchedules_documented
    (h : ∀ prices tiers modes, schedules = some (prices, tiers, modes) → Schedules tiers modes)
    (rule : ReceiptRule) (result : Usage.Result) (mode : Mode) :
    Documented rule (quoteSchedules schedules rule result mode) := by
  have hreported := quoteReported_documented h rule result mode
  rw [quoteSchedules]
  cases result.state with
  | complete => exact hreported
  | incomplete => exact hreported
  | missing => exact .none (by decide)
  | notApplicable => exact .none (by simp)
  | other text => exact .none (by decide)

/-! ## Receipts with multipliers -/

/-- A receipt that validates and, for a priced quote, an amount that is the exact price of
the `k` priced lines up to the rounding of each line and of the total. -/
structure Justified (multipliers : PriceMultipliers) (outcome : Quote × Option Receipt) : Prop where
  accepted : ∀ receipt, outcome.2 = some receipt → validateReceipt receipt = .ok ()
  exactly : outcome.1.state = .priced → ∃ receipt, outcome.2 = some receipt ∧
    outcome.1.estimatedCostNanoUSD = receipt.totalNanoUSD ∧
    |(receipt.totalNanoUSD : ℚ) - exactPrice receipt.lineItems * multipliers.factor| ≤
      (pricedLines receipt.lineItems).length / 2 * multipliers.factor + 1 / 2

theorem Justified.none {multipliers : PriceMultipliers} (h : quote.state ≠ .priced) :
    Justified multipliers (quote, none) :=
  ⟨fun _ hreceipt => (some_ne_none _ hreceipt.symm).elim, fun hpriced => (h hpriced).elim⟩

section Multiplied

variable {schemaVersion : Int} {multipliers : PriceMultipliers} {rule : ReceiptRule}
  {quote : Quote} {receipt : Receipt}

theorem Drafted.validates (h : Drafted rule quote receipt)
    (hversion : schemaVersion = upstreamReceiptSchemaVersion ∨
      schemaVersion = clientModelReceiptSchemaVersion)
    (hrule : validateReceiptRule rule schemaVersion = .ok ()) (hvalid : multipliers.valid = true)
    {total : Int} (htotal : applyPriceMultipliers receipt.totalNanoUSD multipliers = some total) :
    validateReceipt { receipt with
      schemaVersion := schemaVersion
      baseTotalNanoUSD := some receipt.totalNanoUSD
      priceMultipliers := some multipliers
      totalNanoUSD := total } = .ok () := by
  have hnotFive : schemaVersion ≠ 5 := by rcases hversion with rfl | rfl <;> decide
  obtain ⟨codes, hrecorded⟩ := h.recorded schemaVersion hnotFive multipliers
  obtain ⟨seen, -, haccepted⟩ := hrecorded.accepted
  refine @Receipt.Current.validateReceipt _ multipliers receipt.totalNanoUSD ?_ _ rfl haccepted
  exact
    { version := hversion
      method := h.method
      methodVersion := h.methodVersion
      currency := h.currency
      mode := h.mode
      carried := rfl
      valid := hvalid
      baseTotal := rfl
      nonneg := hrecorded.nonneg
      rule := by rw [← h.rule] at hrule; exact hrule
      threshold := h.threshold
      total := htotal }

theorem Recorded.near_multiplied {codes : List Text} {lineItems : List ReceiptLine}
    {cost total : Int} (h : Recorded schemaVersion multipliers codes lineItems cost)
    (hvalid : multipliers.valid = true)
    (htotal : applyPriceMultipliers cost multipliers = some total) :
    |(total : ℚ) - exactPrice lineItems * multipliers.factor| ≤
      (pricedLines lineItems).length / 2 * multipliers.factor + 1 / 2 := by
  have hfactor := PriceMultipliers.factor_nonneg hvalid
  have hsplit : (total : ℚ) - exactPrice lineItems * multipliers.factor =
      (cost - exactPrice lineItems) * multipliers.factor +
        (total - cost * multipliers.factor) := by ring
  have hscaled : |(cost - exactPrice lineItems) * multipliers.factor| ≤
      (pricedLines lineItems).length / 2 * multipliers.factor := by
    rw [abs_mul, abs_of_nonneg hfactor]
    exact mul_le_mul_of_nonneg_right h.near hfactor
  rw [hsplit]
  exact (abs_add_le _ _).trans (add_le_add hscaled (applyPriceMultipliers_some htotal).2)

theorem applyQuoteMultipliers_justified {outcome : Quote × Option Receipt}
    (h : Documented rule outcome)
    (hversion : schemaVersion = upstreamReceiptSchemaVersion ∨
      schemaVersion = clientModelReceiptSchemaVersion)
    (hrule : outcome.2.isSome = true → validateReceiptRule rule schemaVersion = .ok ())
    (hvalid : multipliers.valid = true) :
    Justified multipliers
      (applyQuoteMultipliers outcome.1 outcome.2 multipliers schemaVersion) := by
  obtain ⟨quote, receipt⟩ := outcome
  unfold applyQuoteMultipliers
  rw [if_neg (by rw [hvalid]; decide)]
  cases receipt with
  | none => exact .none fun hpriced => by cases h.receipt hpriced
  | some receipt =>
    have hdrafted : Drafted rule quote receipt := h.drafted receipt rfl
    have hvalidates : ∀ total, applyPriceMultipliers receipt.totalNanoUSD multipliers = some total →
        validateReceipt _ = .ok () :=
      fun _ => hdrafted.validates hversion (hrule rfl) hvalid
    by_cases hpriced : quote.state = .priced
    · have hcost := hdrafted.priced hpriced
      simp only [if_pos hpriced, hcost]
      cases hadjusted : applyPriceMultipliers receipt.totalNanoUSD multipliers with
      | none => exact .none (by decide)
      | some adjusted =>
        obtain ⟨codes, hrecorded⟩ := hdrafted.recorded 6 (by decide) multipliers
        refine ⟨?_, fun _ => ⟨_, rfl, rfl, hrecorded.near_multiplied hvalid hadjusted⟩⟩
        rintro _ ⟨⟩
        exact hvalidates adjusted hadjusted
    · -- Nothing was priced, so both totals are zero.
      have hzero := hdrafted.unpriced hpriced
      simp only [if_neg hpriced]
      refine ⟨?_, fun hstate => (hpriced hstate).elim⟩
      rintro _ ⟨⟩
      refine hvalidates receipt.totalNanoUSD ?_
      rw [hzero]
      exact applyPriceMultipliers_zero hvalid

theorem applyQuoteMultipliers_lines {draft : Option Receipt}
    (h : (applyQuoteMultipliers quote draft multipliers schemaVersion).2 = some receipt) :
    ∃ given, draft = some given ∧ receipt.lineItems = given.lineItems := by
  unfold applyQuoteMultipliers at h
  split at h
  · cases h
  · split at h
    · cases h
    · split at h
      · split at h
        · cases h
        · cases h
          exact ⟨_, rfl, rfl⟩
      · cases h
        exact ⟨_, rfl, rfl⟩

end Multiplied

/-! ## Quotes of a table -/

theorem quoteSchedules_not_found (rule : ReceiptRule) (result : Usage.Result) (mode : Mode) :
    (quoteSchedules none rule result mode).2 = none := by
  rw [quoteSchedules]
  cases result.state <;> rfl

/-- The lines of the positive components of the usage, at the rates of the selected
schedule, and the line of the cache writes of unknown duration. -/
def Itemized (schedules : Option RuleSchedules) (result : Usage.Result) (mode : Mode)
    (lineItems : List ReceiptLine) : Prop :=
  ∃ prices tiers modes inputTokens lines, schedules = some (prices, tiers, modes) ∧
    checkedInputTokens result.tokens = some inputTokens ∧
    lineItems = lines ++ unknownCacheWrite result.tokens ∧
    List.Forall₂ Component.Lists
      ((components result.tokens
        (selectSchedule prices tiers modes mode inputTokens).prices).filter (0 < ·.tokens)) lines

theorem quoteReported_itemized {rule : ReceiptRule} {result : Usage.Result} {mode : Mode}
    {receipt : Receipt} (h : (quoteReported schedules rule result mode).2 = some receipt) :
    Itemized schedules result mode receipt.lineItems := by
  unfold quoteReported at h
  split at h
  · rename_i prices tiers modes total inputTokens htotal hinput
    simp only [priceTokens] at h
    split at h
    · cases h
    · rename_i tally hrun
      cases h
      refine ⟨prices, tiers, modes, inputTokens, tally.lineItems, rfl, hinput, rfl, ?_⟩
      have hpositive : ∀ component ∈ components result.tokens
          (selectSchedule prices tiers modes mode inputTokens).prices,
          decide (0 < component.tokens) = decide (component.tokens ≠ 0) := by
        intro component hcomponent
        have hnonneg := (components_proper _ htotal component hcomponent).tokens
        exact decide_eq_decide.mpr (by omega)
      rw [filter_congr hpositive]
      exact (@components_sound 6 ⟨0, 0⟩ _ _ _ _ htotal (by decide) _ _ hrun).listed
  · cases h

/-- The receipt of a quote of a table lists the positive components of the usage. -/
theorem quotes_itemized {rule : ReceiptRule} {result : Usage.Result} {mode : Mode}
    {multipliers : PriceMultipliers} {schemaVersion : Int} {receipt : Receipt}
    (h : (applyQuoteMultipliers (quoteSchedules schedules rule result mode).1
      (quoteSchedules schedules rule result mode).2 multipliers schemaVersion).2 = some receipt) :
    Itemized schedules result mode receipt.lineItems := by
  obtain ⟨draft, hdraft, hlines⟩ := applyQuoteMultipliers_lines h
  rw [hlines]
  rw [quoteSchedules] at hdraft
  split at hdraft
  · cases hdraft
  · cases hdraft
  · cases hdraft
  · exact quoteReported_itemized hdraft
  · exact quoteReported_itemized hdraft

def sampleTable : Table where
  rules := [⟨⟨ascii "relay", ascii "large"⟩, ⟨⟨3000000000, true⟩, ⟨15000000000, true⟩, ⟨0, false⟩,
    ⟨3750000001, true⟩⟩, [⟨200, ⟨⟨6000000000, true⟩, ⟨0, false⟩, ⟨0, false⟩, ⟨0, false⟩⟩⟩], []⟩]
  clientRules := [⟨ascii "chat", ⟨⟨1, true⟩, ⟨2, true⟩, ⟨0, true⟩, ⟨0, false⟩⟩, [], []⟩]

/-- A receipt validates and a priced amount is exact up to its roundings, for the costs of an
upstream model and, with the multiplier one of the group, for the charges of a client model. -/
theorem quotes_validated_and_exact {rules : List Rule} {clientRules : List ClientRule}
    {table : Table} (htable : newTableWithClientRules rules clientRules = .ok table)
    (result : Usage.Result) (mode : Mode) {group accessKey : PriceMultiplier}
    (hgroup : PriceMultiplier.valid group = true)
    (haccessKey : PriceMultiplier.valid accessKey = true) :
    (∀ identity, Justified ⟨group, accessKey⟩
      (table.quoteForModeWithMultipliers identity result mode ⟨group, accessKey⟩)) ∧
    ∀ clientModel, Justified ⟨defaultPriceMultiplier, accessKey⟩
      (table.quoteClientModel clientModel result mode accessKey) := by
  have hwellFormed := newTableWithClientRules_wellFormed htable
  constructor
  · intro identity
    refine applyQuoteMultipliers_justified (quoteSchedules_documented ?_ _ _ _) (.inl rfl) ?_
      (PriceMultipliers.valid_iff.mpr ⟨hgroup, haccessKey⟩)
    · intro prices tiers modes hschedules
      obtain ⟨rule, hrule, hparts⟩ := map_eq_some_iff.mp hschedules
      cases hparts
      have hvalid := hwellFormed.rule rule (mem_of_find?_eq_some hrule)
      exact validateSchedules_ok (both_ok.mp hvalid).2
    · intro hreceipt
      cases hrule : table.lookup identity with
      | none =>
        rw [Table.quoteForModeWithReceipt, hrule, map_none, quoteSchedules_not_found] at hreceipt
        cases hreceipt
      | some rule =>
        have hvalid := hwellFormed.rule rule (mem_of_find?_eq_some hrule)
        have hidentity : rule.identity = identity := by simpa using find?_some hrule
        have hnamed := (both_ok.mp hvalid).1
        rw [hidentity] at hnamed
        exact hnamed
  · intro clientModel
    refine applyQuoteMultipliers_justified (quoteSchedules_documented ?_ _ _ _) (.inr rfl) ?_
      (PriceMultipliers.valid_iff.mpr ⟨rfl, haccessKey⟩)
    · intro prices tiers modes hschedules
      obtain ⟨rule, hrule, hparts⟩ := map_eq_some_iff.mp hschedules
      cases hparts
      exact validateSchedules_ok (hwellFormed.client rule (mem_of_find?_eq_some hrule)).2
    · intro hreceipt
      cases hrule : table.lookupClient clientModel with
      | none =>
        rw [hrule, map_none, quoteSchedules_not_found] at hreceipt
        cases hreceipt
      | some rule =>
        have hmodel : rule.clientModel = clientModel := by simpa using find?_some hrule
        have hnamed := (hwellFormed.client rule (mem_of_find?_eq_some hrule)).1
        rw [hmodel] at hnamed
        exact hnamed

theorem quotes_validated_and_exact_sample :
    newTableWithClientRules sampleTable.rules sampleTable.clientRules = .ok sampleTable ∧
      (sampleTable.quoteForModeWithMultipliers ⟨ascii "relay", ascii "large"⟩
        ⟨⟨7, 0, 3, 5, 0, 11⟩, .complete⟩ [] ⟨1500000, 333333⟩).1.state = .priced ∧
      Justified ⟨1500000, 333333⟩ (sampleTable.quoteForModeWithMultipliers
        ⟨ascii "relay", ascii "large"⟩ ⟨⟨7, 0, 3, 5, 0, 11⟩, .complete⟩ [] ⟨1500000, 333333⟩) := by
  have htable : newTableWithClientRules sampleTable.rules sampleTable.clientRules =
      .ok sampleTable := by decide +kernel
  exact ⟨htable, by decide +kernel, (quotes_validated_and_exact htable _ _ rfl rfl).1 _⟩

end EchoJoyGateway.Pricing
