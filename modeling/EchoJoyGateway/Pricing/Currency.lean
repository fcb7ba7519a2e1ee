import EchoJoyGateway.Lib.HalfUp
import EchoJoyGateway.Pricing.Decimal

/-!
# Settlement currencies

The conversions of `internal/pricing/currency.go` between nano USD and nano units of a
currency. A result that the source reports with `false` is `none`.
-/

namespace EchoJoyGateway.Pricing

open HalfUp List

def scaleRoundHalfUp (value numerator denominator : Int) : Option Int :=
  if value < 0 ∨ numerator ≤ 0 ∨ denominator ≤ 0 then none
  else
    let product := value * numerator
    let quotient := product.tdiv denominator
    let remainder := product.tmod denominator
    let rounded := if 2 * remainder ≥ denominator then quotient + 1 else quotient
    if isInt64 rounded then some rounded else none

def exchangeRateScale : Int := 1000000

def supportedCurrencyCodes : List String := ["USD", "CNY"]

/-- One USD is `rateMicros / exchangeRateScale` units of the currency. -/
structure Currency where
  code : String
  rateMicros : Int
  deriving DecidableEq

inductive CurrencyError where
  | unsupported (code : String)
  | rateNotPositive
  | usdRateNotOne
  deriving DecidableEq

def parseCurrencyCode (value : String) : Except CurrencyError String :=
  if value ∈ supportedCurrencyCodes then .ok value else .error (.unsupported value)

def newCurrency (code : String) (rateMicros : Int) : Except CurrencyError Currency :=
  match parseCurrencyCode code with
  | .error e => .error e
  | .ok _ =>
    if rateMicros ≤ 0 then .error .rateNotPositive
    else if code = "USD" ∧ rateMicros ≠ exchangeRateScale then .error .usdRateNotOne
    else .ok ⟨code, rateMicros⟩

namespace Currency

variable (currency : Currency)

def valid : Bool := (newCurrency currency.code currency.rateMicros).isOk

def fromNanoUSD (value : Int) : Option Int :=
  scaleRoundHalfUp value currency.rateMicros exchangeRateScale

def toNanoUSD (value : Int) : Option Int :=
  scaleRoundHalfUp value exchangeRateScale currency.rateMicros

/-- The two multiples of a step around the exact conversion. `floor + step` wraps around in
`int64`, and is then skipped. -/
def candidates (exact step : Int) : List Int :=
  let floor := exact.tdiv step * step
  [floor, Int.bmod (floor + step) (2 ^ 64)].filter fun candidate => ¬ candidate < floor

def shorten (value exact : Int) : Nat → Int
  | 0 => exact
  | k + 1 =>
    match (candidates exact (10 ^ (k + 1))).find? fun candidate =>
        currency.toNanoUSD candidate == some value with
    | some candidate => candidate
    | none => shorten value exact k

def priceFromNanoUSD (value : Int) : Option Int :=
  (currency.fromNanoUSD value).map fun exact => currency.shorten value exact 9

end Currency

/-! ## Rounding -/

theorem scaleRoundHalfUp_natCast (v : Nat) {n d : Nat} (hn : 0 < n) (hd : 0 < d) :
    scaleRoundHalfUp v n d =
      if halfUp (v * n) d < 2 ^ 63 then some (halfUp (v * n) d : Int) else none := by
  have hrounded := quoRem_eq_halfUp (v * n) d
  rw [Nat.cast_mul] at hrounded
  rw [scaleRoundHalfUp, if_neg (by omega)]
  simp only [hrounded, isInt64_natCast]

theorem scaleRoundHalfUp_some {value numerator denominator result : Int}
    (h : scaleRoundHalfUp value numerator denominator = some result) :
    0 ≤ value ∧ result < 2 ^ 63 := by
  simp only [scaleRoundHalfUp, Option.ite_none_left_eq_some, Option.ite_none_right_eq_some] at h
  obtain ⟨hvalue, hfits, hresult⟩ := h
  cases hresult
  exact ⟨by omega, (isInt64_iff.mp hfits).2⟩

namespace Currency

variable {currency : Currency}

theorem rate_pos (h : currency.valid = true) : 0 < currency.rateMicros := by
  simp only [valid, newCurrency] at h
  split at h
  · cases h
  · split at h
    · cases h
    · omega

theorem toNanoUSD_iff {rate : Nat} (hrate : currency.rateMicros = rate) (hpos : 0 < rate)
    {x v : Int} :
    currency.toNanoUSD x = some v ↔
      ∃ a b : Nat, x = a ∧ v = b ∧ halfUp (a * 1000000) rate = b ∧ b < 2 ^ 63 := by
  have hscale : exchangeRateScale = (1000000 : Nat) := rfl
  constructor
  · intro h
    obtain ⟨a, rfl⟩ := Int.eq_ofNat_of_zero_le (scaleRoundHalfUp_some h).1
    rw [toNanoUSD, hrate, hscale, scaleRoundHalfUp_natCast a (by decide) hpos] at h
    split at h
    · rename_i hfits
      cases h
      exact ⟨a, _, rfl, rfl, rfl, hfits⟩
    · cases h
  · rintro ⟨a, b, rfl, rfl, rfl, hfits⟩
    rw [toNanoUSD, hrate, hscale, scaleRoundHalfUp_natCast a (by decide) hpos, if_pos hfits]

theorem fromNanoUSD_eq {rate : Nat} (hrate : currency.rateMicros = rate) (hpos : 0 < rate)
    {v : Nat} {exact : Int} (h : currency.fromNanoUSD v = some exact) :
    exact = halfUp (v * rate) 1000000 := by
  have hscale : exchangeRateScale = (1000000 : Nat) := rfl
  rw [fromNanoUSD, hrate, hscale, scaleRoundHalfUp_natCast v hpos (by decide)] at h
  split at h
  · cases h
    rfl
  · cases h

/-! ## The search for fewer decimal places -/

theorem toNanoUSD_exact (hvalid : currency.valid = true) {a v exact : Int}
    (hv : currency.toNanoUSD a = some v) (hexact : currency.fromNanoUSD v = some exact) :
    currency.toNanoUSD exact = some v := by
  obtain ⟨rate, hrate⟩ := Int.eq_ofNat_of_zero_le (Int.le_of_lt (rate_pos hvalid))
  have hpos : 0 < rate := by have := rate_pos hvalid; omega
  obtain ⟨a, v, rfl, rfl, hround, hfits⟩ := (toNanoUSD_iff hrate hpos).mp hv
  obtain rfl := fromNanoUSD_eq hrate hpos hexact
  exact (toNanoUSD_iff hrate hpos).mpr ⟨_, v, rfl, rfl, halfUp_back (by decide) hpos hround, hfits⟩

theorem toNanoUSD_between (hvalid : currency.valid = true) {x y z v : Int} (hxy : x ≤ y)
    (hyz : y ≤ z) (hx : currency.toNanoUSD x = some v) (hz : currency.toNanoUSD z = some v) :
    currency.toNanoUSD y = some v := by
  obtain ⟨rate, hrate⟩ := Int.eq_ofNat_of_zero_le (Int.le_of_lt (rate_pos hvalid))
  have hpos : 0 < rate := by have := rate_pos hvalid; omega
  obtain ⟨x, v, rfl, rfl, hround, hfits⟩ := (toNanoUSD_iff hrate hpos).mp hx
  obtain ⟨z, v', rfl, hv, hround', -⟩ := (toNanoUSD_iff hrate hpos).mp hz
  obtain rfl : v = v' := Int.ofNat.inj hv
  obtain ⟨y, rfl⟩ := Int.eq_ofNat_of_zero_le (Int.le_trans (Int.natCast_nonneg x) hxy)
  exact (toNanoUSD_iff hrate hpos).mpr ⟨y, v, rfl, rfl,
    halfUp_between hpos (Int.ofNat_le.mp hxy) (Int.ofNat_le.mp hyz) hround hround', hfits⟩

theorem mem_candidates {exact step candidate : Int} (hexact : 0 ≤ exact)
    (hfits : exact < 2 ^ 63) (hstep : 0 < step) (hsmall : step ≤ 10 ^ 9) :
    candidate ∈ candidates exact step ↔ candidate = exact / step * step ∨
      candidate = exact / step * step + step ∧ candidate < 2 ^ 63 := by
  have hfloor : exact.tdiv step = exact / step := Int.tdiv_eq_ediv_of_nonneg hexact
  have hlow : 0 ≤ exact / step * step :=
    Int.mul_nonneg (Int.ediv_nonneg hexact (Int.le_of_lt hstep)) (Int.le_of_lt hstep)
  simp only [candidates, hfloor, mem_filter, mem_cons, not_mem_nil, or_false,
    decide_eq_true_eq, Int.bmod_def]
  omega

theorem dvd_of_mem_candidates {exact step candidate : Int} (hexact : 0 ≤ exact)
    (hfits : exact < 2 ^ 63) (hstep : 0 < step) (hsmall : step ≤ 10 ^ 9)
    (h : candidate ∈ candidates exact step) : step ∣ candidate := by
  rcases (mem_candidates hexact hfits hstep hsmall).mp h with rfl | ⟨rfl, -⟩
  · exact Int.dvd_mul_left _ _
  · exact Int.dvd_add (Int.dvd_mul_left _ _) (Int.dvd_refl _)

theorem exists_candidate (hvalid : currency.valid = true) {exact step v m : Int}
    (hexact : currency.toNanoUSD exact = some v) (hfits : exact < 2 ^ 63) (hstep : 0 < step)
    (hsmall : step ≤ 10 ^ 9) (hm : currency.toNanoUSD m = some v) (hm64 : m < 2 ^ 63)
    (hdvd : step ∣ m) :
    ∃ candidate ∈ candidates exact step, currency.toNanoUSD candidate = some v := by
  have hnonneg := (scaleRoundHalfUp_some hexact).1
  have hhigh : exact / step * step ≤ exact := Int.ediv_mul_le exact (Int.ne_of_gt hstep)
  have hnext : exact < exact / step * step + step := by
    have := Int.lt_ediv_add_one_mul_self exact hstep
    rwa [Int.add_mul, Int.one_mul] at this
  obtain ⟨k, rfl⟩ := hdvd
  rcases lt_or_ge exact (step * k) with hlt | hle
  · have hk : exact / step + 1 ≤ k := by
      have : exact / step < k := Int.ediv_lt_of_lt_mul hstep (by rwa [Int.mul_comm])
      omega
    have hbound : exact / step * step + step ≤ step * k := by
      have := Int.mul_le_mul_of_nonneg_right hk (Int.le_of_lt hstep)
      rwa [Int.add_mul, Int.one_mul, Int.mul_comm k] at this
    exact ⟨_, (mem_candidates hnonneg hfits hstep hsmall).mpr (.inr ⟨rfl, by omega⟩),
      toNanoUSD_between hvalid (Int.le_of_lt hnext) hbound hexact hm⟩
  · have hbound : step * k ≤ exact / step * step := by
      have hk : k ≤ exact / step := (Int.le_ediv_iff_mul_le hstep).mpr (by rwa [Int.mul_comm])
      have := Int.mul_le_mul_of_nonneg_right hk (Int.le_of_lt hstep)
      rwa [Int.mul_comm k] at this
    exact ⟨_, (mem_candidates hnonneg hfits hstep hsmall).mpr (.inl rfl),
      toNanoUSD_between hvalid hbound hhigh hm hexact⟩

theorem shorten_spec (hvalid : currency.valid = true) {exact v : Int}
    (hexact : currency.toNanoUSD exact = some v) (hfits : exact < 2 ^ 63) {k : Nat} (hk : k ≤ 9) :
    currency.toNanoUSD (currency.shorten v exact k) = some v ∧
      ∀ j ≤ k, ∀ m < 2 ^ 63, (10 : Int) ^ j ∣ m → currency.toNanoUSD m = some v →
        (10 : Int) ^ j ∣ currency.shorten v exact k := by
  induction k with
  | zero =>
    refine ⟨hexact, fun j hj m _ _ _ => ?_⟩
    rw [Nat.le_zero.mp hj]
    exact Int.one_dvd _
  | succ k ih =>
    have hstep : (0 : Int) < 10 ^ (k + 1) := Int.pow_pos (by decide)
    have hsmall : (10 : Int) ^ (k + 1) ≤ 10 ^ 9 := pow_le_pow_right₀ (by decide) hk
    rw [shorten]
    cases hfind : (candidates exact (10 ^ (k + 1))).find? fun candidate =>
        currency.toNanoUSD candidate == some v with
    | some candidate =>
      have hback := find?_some hfind
      refine ⟨beq_iff_eq.mp hback, fun j hj m _ _ _ => ?_⟩
      exact (pow_dvd_pow 10 hj).trans (dvd_of_mem_candidates
        (scaleRoundHalfUp_some hexact).1 hfits hstep hsmall (mem_of_find?_eq_some hfind))
    | none =>
      obtain ⟨hback, hshort⟩ := ih (Nat.le_of_succ_le hk)
      refine ⟨hback, fun j hj m hm hdvd hconverts => ?_⟩
      rcases Nat.lt_or_eq_of_le hj with hlt | rfl
      · exact hshort j (Nat.le_of_lt_succ hlt) m hm hdvd hconverts
      · obtain ⟨candidate, hmem, hcandidate⟩ :=
          exists_candidate hvalid hexact hfits hstep hsmall hconverts hm hdvd
        have := find?_eq_none.mp hfind candidate hmem
        exact absurd (beq_iff_eq.mpr hcandidate) this

/-- A displayed price saves back unchanged, and nothing shorter does. -/
theorem price_saves_back (hvalid : currency.valid = true) {a v c : Int}
    (hv : currency.toNanoUSD a = some v) (hc : currency.priceFromNanoUSD v = some c) :
    currency.toNanoUSD c = some v ∧
      ∀ j ≤ 9, ¬ (10 : Int) ^ j ∣ c → ∀ m, isInt64 m = true → (10 : Int) ^ j ∣ m →
        currency.toNanoUSD m ≠ some v := by
  obtain ⟨exact, hfrom, rfl⟩ := Option.map_eq_some_iff.mp hc
  have hexact := toNanoUSD_exact hvalid hv hfrom
  obtain ⟨hback, hshort⟩ :=
    shorten_spec hvalid hexact (scaleRoundHalfUp_some hfrom).2 (Nat.le_refl 9)
  exact ⟨hback, fun j hj hndvd m hm hdvd hconverts =>
    hndvd (hshort j hj m (isInt64_iff.mp hm).2 hdvd hconverts)⟩

/-- At seven yuan to the dollar a price entered as half a yuan is shown as half a yuan, and no
number of whole yuan is stored like it. -/
theorem price_saves_back_cny :
    (⟨"CNY", 7000000⟩ : Currency).toNanoUSD 500000000 = some 71428571 ∧
      ∀ m, isInt64 m = true → (10 : Int) ^ 9 ∣ m →
        (⟨"CNY", 7000000⟩ : Currency).toNanoUSD m ≠ some 71428571 := by
  have h := @price_saves_back ⟨"CNY", 7000000⟩ (by decide) 500000000 71428571 500000000
    (by decide) (by decide)
  exact ⟨h.1, h.2 9 (Nat.le_refl 9) (by decide)⟩

end Currency

end EchoJoyGateway.Pricing
