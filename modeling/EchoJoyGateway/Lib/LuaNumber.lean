import EchoJoyGateway.Lib.Decimal

/-!
# Numbers of a Lua 5.1 interpreter

A number is a binary64 float. Integers below `2^53` are exact; above, a
decimal text is rounded to the nearest float, ties to even. The printed form
keeps fourteen significant digits, so an integer from `10^14` on is printed
with an exponent.
-/

namespace EchoJoyGateway.LuaNumber

open Decimal

/-- `n / d` rounded to the nearest integer, ties to even. -/
def divNearest (n d : Nat) : Nat :=
  let q := n / d
  let r := n % d
  if d < 2 * r ∨ (2 * r = d ∧ q % 2 = 1) then q + 1 else q

def roundNat (n : Nat) : Nat :=
  if n ≤ 2 ^ 53 then n
  else
    let unit := 2 ^ (Nat.log2 n - 52)
    divNearest n unit * unit

def round : Int → Int
  | .ofNat n => (roundNat n : Int)
  | .negSucc n => -(roundNat (n + 1) : Int)

/-- `tonumber` on the integer texts that scripts exchange; `none` is `nil`. -/
def tonumber (t : Text) : Option Int := (parseSigned t).map round

/-- The mantissa digits of a scientific form, with trailing zeros cut. -/
def mantissa (t : Text) : Text :=
  match t with
  | [] => []
  | c :: rest =>
    match (rest.reverse.dropWhile (· == '0')).reverse with
    | [] => [c]
    | fraction => c :: '.' :: fraction

/-- `tostring` of an integral number, as the format `%.14g` prints it. -/
def tostringNat (n : Nat) : Text :=
  let n := roundNat n
  if n < 10 ^ 14 then digits n
  else
    let exponent := (digits n).length - 1
    let scaled := divNearest n (10 ^ (exponent - 13))
    let (scaled, exponent) :=
      if scaled = 10 ^ 14 then (10 ^ 13, exponent + 1) else (scaled, exponent)
    mantissa (digits scaled) ++ 'e' :: '+' :: digits exponent

def tostring : Int → Text
  | .ofNat n => tostringNat n
  | .negSucc n => '-' :: tostringNat (n + 1)

variable {n : Nat}

theorem roundNat_of_le (h : n ≤ 2 ^ 53) : roundNat n = n := by
  unfold roundNat
  rw [if_pos h]

variable {z : Int}

theorem round_of_natAbs_le (h : z.natAbs ≤ 2 ^ 53) : round z = z := by
  cases z with
  | ofNat n =>
    have hn : roundNat n = n := roundNat_of_le h
    simp only [round, hn, Int.ofNat_eq_natCast]
  | negSucc n =>
    have hn : roundNat (n + 1) = n + 1 := roundNat_of_le h
    simp only [round, hn]
    rfl

theorem tonumber_formatInt (h : z.natAbs ≤ 2 ^ 53) : tonumber (formatInt z) = some z := by
  rw [tonumber, parseSigned_formatInt, Option.map_some, round_of_natAbs_le h]

theorem tonumber_digits (h : n ≤ 2 ^ 53) : tonumber (digits n) = some (n : Int) :=
  tonumber_formatInt (z := n) h

theorem tostring_of_lt (h : n < 10 ^ 14) : tostring (n : Int) = digits n := by
  have hr : roundNat n = n := roundNat_of_le (by omega)
  change tostringNat n = digits n
  unfold tostringNat
  simp only [hr]
  rw [if_pos h]

theorem le_divNearest (n d : Nat) : n / d ≤ divNearest n d := by
  unfold divNearest
  simp only
  split <;> omega

theorem divNearest_le (n d : Nat) : divNearest n d ≤ n / d + 1 := by
  unfold divNearest
  simp only
  split <;> omega

theorem divNearest_mono {m d : Nat} (h : n ≤ m) : divNearest n d ≤ divNearest m d := by
  rcases (Nat.div_le_div_right h : n / d ≤ m / d).lt_or_eq with hlt | heq
  · calc divNearest n d ≤ n / d + 1 := divNearest_le n d
      _ ≤ m / d := hlt
      _ ≤ divNearest m d := le_divNearest m d
  · have hrem : n % d ≤ m % d := by
      have hn := Nat.div_add_mod n d
      have hm := Nat.div_add_mod m d
      rw [heq] at hn
      omega
    unfold divNearest
    simp only [heq]
    split
    · rw [if_pos (by omega)]
    · split <;> omega

theorem roundNat_between (h : 2 ^ 53 < n) :
    2 ^ Nat.log2 n ≤ roundNat n ∧ roundNat n ≤ 2 ^ (Nat.log2 n + 1) := by
  have hlog : 53 ≤ Nat.log2 n := (Nat.le_log2 (by omega)).mpr h.le
  have hlow : 2 ^ 52 * 2 ^ (Nat.log2 n - 52) = 2 ^ Nat.log2 n := by
    rw [← pow_add, show 52 + (Nat.log2 n - 52) = Nat.log2 n by omega]
  have hhigh : 2 ^ 53 * 2 ^ (Nat.log2 n - 52) = 2 ^ (Nat.log2 n + 1) := by
    rw [← pow_add, show 53 + (Nat.log2 n - 52) = Nat.log2 n + 1 by omega]
  have hquot : 2 ^ 52 ≤ n / 2 ^ (Nat.log2 n - 52) := by
    rw [Nat.le_div_iff_mul_le (Nat.two_pow_pos _), hlow]
    exact Nat.log2_self_le (by omega)
  have hquotLt : n / 2 ^ (Nat.log2 n - 52) < 2 ^ 53 := by
    rw [Nat.div_lt_iff_lt_mul (Nat.two_pow_pos _), hhigh]
    exact Nat.lt_log2_self
  unfold roundNat
  rw [if_neg (by omega)]
  constructor
  · rw [← hlow]
    exact Nat.mul_le_mul_right _ (hquot.trans (le_divNearest _ _))
  · rw [← hhigh]
    exact Nat.mul_le_mul_right _ ((divNearest_le _ _).trans hquotLt)

theorem le_roundNat_of_lt (h : 2 ^ 53 < n) : 2 ^ 53 ≤ roundNat n := by
  have hlog : 53 ≤ Nat.log2 n := (Nat.le_log2 (by omega)).mpr h.le
  exact (Nat.pow_le_pow_right (by decide) hlog).trans (roundNat_between h).1

theorem roundNat_mono {m : Nat} (h : n ≤ m) : roundNat n ≤ roundNat m := by
  rcases Nat.lt_or_ge (2 ^ 53) m with hm | hm
  · rcases Nat.lt_or_ge (2 ^ 53) n with hn | hn
    · rcases Nat.lt_or_ge (Nat.log2 n) (Nat.log2 m) with hlog | hlog
      · calc roundNat n ≤ 2 ^ (Nat.log2 n + 1) := (roundNat_between hn).2
          _ ≤ 2 ^ Nat.log2 m := Nat.pow_le_pow_right (by decide) hlog
          _ ≤ roundNat m := (roundNat_between hm).1
      · have hle : Nat.log2 n ≤ Nat.log2 m := by
          rw [Nat.le_log2 (by omega)]
          exact (Nat.log2_self_le (by omega)).trans h
        unfold roundNat
        rw [if_neg (by omega), if_neg (by omega), le_antisymm hle hlog]
        exact Nat.mul_le_mul_right _ (divNearest_mono h)
    · rw [roundNat_of_le hn]
      exact hn.trans (le_roundNat_of_lt hm)
  · rw [roundNat_of_le (h.trans hm), roundNat_of_le hm]
    exact h

theorem round_natCast (n : Nat) : LuaNumber.round (n : Int) = (roundNat n : Int) := rfl

theorem round_mono {a b : Int} (h : a ≤ b) : LuaNumber.round a ≤ LuaNumber.round b := by
  cases a with
  | ofNat n =>
    cases b with
    | ofNat m => exact Int.ofNat_le.mpr (roundNat_mono (Int.ofNat_le.mp h))
    | negSucc m =>
      rw [Int.ofNat_eq_natCast] at h
      omega
  | negSucc n =>
    cases b with
    | ofNat m =>
      change -(roundNat (n + 1) : Int) ≤ (roundNat m : Int)
      omega
    | negSucc m =>
      have hle : roundNat (m + 1) ≤ roundNat (n + 1) := roundNat_mono (by omega)
      change -(roundNat (n + 1) : Int) ≤ -(roundNat (m + 1) : Int)
      omega

theorem roundNat_of_lt (h : n < 2 ^ 54) : (n % 2 = 0 → roundNat n = n) ∧ roundNat n ≤ n + 1 := by
  rcases Nat.lt_or_ge (2 ^ 53) n with hn | hn
  · have hlog : Nat.log2 n = 53 := (Nat.log2_eq_iff (by omega)).mpr ⟨hn.le, h⟩
    unfold roundNat divNearest
    rw [if_neg (by omega), hlog]
    simp only
    split <;> omega
  · rw [roundNat_of_le hn]
    exact ⟨fun _ => rfl, Nat.le_succ n⟩

theorem le_round_of_lt (h : 2 ^ 53 < z) : 2 ^ 53 ≤ LuaNumber.round z := by
  cases z with
  | ofNat n =>
    rw [Int.ofNat_eq_natCast] at h
    have hle := le_roundNat_of_lt (show 2 ^ 53 < n by omega)
    change (2 ^ 53 : Int) ≤ (roundNat n : Int)
    omega
  | negSucc n =>
    omega

theorem round_neg_of_lt (h : z < -2 ^ 53) : LuaNumber.round z < 0 := by
  cases z with
  | ofNat n =>
    rw [Int.ofNat_eq_natCast] at h
    omega
  | negSucc n =>
    have hle := le_roundNat_of_lt (show 2 ^ 53 < n + 1 by omega)
    change -(roundNat (n + 1) : Int) < 0
    omega

theorem round_le_natCast (h : n < 2 ^ 53) : LuaNumber.round z ≤ n ↔ z ≤ n := by
  by_cases hbig : 2 ^ 53 < z
  · have := le_round_of_lt hbig
    omega
  · by_cases hsmall : z < -2 ^ 53
    · have := round_neg_of_lt hsmall
      omega
    · rw [round_of_natAbs_le (by omega)]

theorem natCast_le_round {k : Nat} (h : k ≤ 2 ^ 53) : (k : Int) ≤ LuaNumber.round n ↔ k ≤ n := by
  rw [round_natCast]
  rcases Nat.lt_or_ge (2 ^ 53) n with hbig | hle
  · have := le_roundNat_of_lt hbig
    omega
  · rw [roundNat_of_le hle]
    omega

theorem mem_tostring_of_le (h : 10 ^ 14 ≤ n) : 'e' ∈ tostring (n : Int) := by
  have hround : ¬ roundNat n < 10 ^ 14 := by
    rcases Nat.lt_or_ge (2 ^ 53) n with hbig | hsmall
    · have := le_roundNat_of_lt hbig
      omega
    · rw [roundNat_of_le hsmall]
      omega
  change 'e' ∈ tostringNat n
  unfold tostringNat
  rw [if_neg hround]
  exact List.mem_append_right _ (.head _)

theorem lt_of_parseUint_tostring {bits m : Nat} (h : parseUint bits (tostring (n : Int)) = some m) :
    n < 10 ^ 14 := by
  by_contra hge
  have hmem := mem_tostring_of_le (Nat.le_of_not_lt hge)
  unfold parseUint at h
  split at h
  · rename_i hdig
    have hall := (Bool.and_eq_true _ _ ▸ hdig.1 : _ ∧ _).2
    exact absurd (List.all_eq_true.mp hall _ hmem) (by decide)
  · cases h

example : round 9007199254740993 = 9007199254740992 := by decide

example : tostring 100000000000000 = "1e+14".toList := by decide

end EchoJoyGateway.LuaNumber
