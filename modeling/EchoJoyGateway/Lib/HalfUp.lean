import Mathlib.Data.Rat.Floor

/-!
# Rounding half up

The quotient of two natural numbers, rounded to the nearest one, and what scaling
there and back does to a number.
-/

namespace HalfUp

def halfUp (p d : Nat) : Nat := p / d + if d ≤ 2 * (p % d) then 1 else 0

theorem quoRem_eq_halfUp (p d : Nat) :
    (if 2 * (p : Int).tmod d ≥ d then (p : Int).tdiv d + 1 else (p : Int).tdiv d) = halfUp p d := by
  have hquotient : (p : Int).tdiv d = (p / d : Nat) := rfl
  have hremainder : (p : Int).tmod d = (p % d : Nat) := rfl
  rw [halfUp]
  split <;> split <;> omega

theorem halfUp_eq_div (p : Nat) {d : Nat} (hd : 0 < d) : halfUp p d = (2 * p + d) / (2 * d) := by
  have hsplit : 2 * p + d = 2 * (p % d) + d + 2 * d * (p / d) := by
    have := Nat.div_add_mod p d
    calc 2 * p + d = 2 * (d * (p / d) + p % d) + d := by rw [this]
      _ = 2 * (p % d) + d + 2 * d * (p / d) := by ring
  have hmod := Nat.mod_lt p hd
  rw [hsplit, Nat.add_mul_div_left _ _ (by omega), halfUp, Nat.add_comm]
  congr 1
  split
  · rw [Nat.div_eq_of_lt_le] <;> omega
  · rw [Nat.div_eq_of_lt]
    omega

theorem halfUp_eq_iff {p d q : Nat} (hd : 0 < d) :
    halfUp p d = q ↔ 2 * (q * d) ≤ 2 * p + d ∧ 2 * p < 2 * (q * d) + d := by
  rw [halfUp_eq_div p hd, Nat.div_eq_iff (by omega)]
  have : q * (2 * d) = 2 * (q * d) := by ring
  constructor <;> rintro ⟨h₁, h₂⟩ <;> omega

theorem halfUp_eq_floor (p : Nat) {d : Nat} (hd : 0 < d) :
    (halfUp p d : Int) = ⌊(p / d + 1 / 2 : ℚ)⌋ := by
  obtain ⟨hlow, hhigh⟩ := (halfUp_eq_iff hd).mp (Eq.refl (halfUp p d))
  have hpos : (0 : ℚ) < d := Nat.cast_pos.mpr hd
  have hlow' : (2 * (halfUp p d * d) : ℚ) ≤ 2 * p + d := by exact_mod_cast hlow
  have hhigh' : (2 * p : ℚ) < 2 * (halfUp p d * d) + d := by exact_mod_cast hhigh
  symm
  rw [Int.floor_eq_iff]
  constructor
  · rw [div_add_div _ _ hpos.ne' two_ne_zero, le_div_iff₀ (by positivity)]
    push_cast
    linarith
  · rw [div_add_div _ _ hpos.ne' two_ne_zero, div_lt_iff₀ (by positivity)]
    push_cast
    linarith

theorem abs_halfUp_sub_le (p : Nat) {d : Nat} (hd : 0 < d) :
    |(halfUp p d : ℚ) - p / d| ≤ 1 / 2 := by
  have hlow := Int.floor_le (p / d + 1 / 2 : ℚ)
  have hhigh := Int.lt_floor_add_one (p / d + 1 / 2 : ℚ)
  rw [← halfUp_eq_floor p hd, Int.cast_natCast] at hlow hhigh
  rw [abs_le]
  constructor <;> linarith

theorem halfUp_between {s d x y z v : Nat} (hd : 0 < d) (hxy : x ≤ y) (hyz : y ≤ z)
    (hx : halfUp (x * s) d = v) (hz : halfUp (z * s) d = v) : halfUp (y * s) d = v := by
  rw [halfUp_eq_iff hd] at hx hz ⊢
  have := Nat.mul_le_mul_right s hxy
  have := Nat.mul_le_mul_right s hyz
  omega

theorem halfUp_down_up {s r v : Nat} (hs : 0 < s) (hle : s ≤ r) :
    halfUp (halfUp (v * r) s * s) r = v := by
  obtain ⟨hlow, hhigh⟩ := (halfUp_eq_iff hs).mp (Eq.refl (halfUp (v * r) s))
  rw [halfUp_eq_iff (Nat.lt_of_lt_of_le hs hle)]
  refine ⟨by omega, ?_⟩
  rcases Nat.lt_or_eq_of_le hle with hlt | rfl
  · omega
  · -- With equal units a tie would make an even number odd.
    rw [← Nat.mul_assoc, ← Nat.mul_assoc] at hlow ⊢
    have hle : 2 * halfUp (v * s) s ≤ 2 * v + 1 :=
      Nat.le_of_mul_le_mul_right (by rw [Nat.add_mul]; omega) hs
    have := Nat.mul_le_mul_right s (show 2 * halfUp (v * s) s ≤ 2 * v by omega)
    omega

theorem halfUp_up_down {s r a v : Nat} (hr : 0 < r) (hlt : r < s) (h : halfUp (a * s) r = v) :
    halfUp (v * r) s = a := by
  obtain ⟨hlow, hhigh⟩ := (halfUp_eq_iff hr).mp h
  rw [halfUp_eq_iff (Nat.lt_trans hr hlt)]
  omega

theorem halfUp_back {s r a v : Nat} (hs : 0 < s) (hr : 0 < r) (h : halfUp (a * s) r = v) :
    halfUp (halfUp (v * r) s * s) r = v := by
  rcases Nat.lt_or_ge r s with hlt | hle
  · rw [halfUp_up_down hr hlt h, h]
  · exact halfUp_down_up hs hle

end HalfUp
