import EchoJoyGateway.Lib.Decimal
import Mathlib.Data.List.AList

/-!
# Redis integers and hashes

Redis increments only canonical decimal texts of `int64`, and refuses a result
outside that range. A hash is a finite map from field texts to value texts; a
missing field counts as zero when it is incremented.
-/

namespace EchoJoyGateway.Redis

open Decimal

/-- What stops a script: a comparison with `nil`, or a refused increment. The
writes made before it stay. -/
inductive ScriptError where
  | compareWithNil
  | increment
  deriving DecidableEq

/-- The integers that Redis accepts: canonical decimal texts of `int64`. -/
def redisInteger (t : Text) : Option Int :=
  match parseInt64 t with
  | none => none
  | some z => if formatInt z = t then some z else none

def hincrby (value delta : Text) : Option Int :=
  match redisInteger value, redisInteger delta with
  | some z, some d => if inInt64 (z + d) then some (z + d) else none
  | _, _ => none

theorem inInt64_iff {z : Int} : inInt64 z = true ↔ -2 ^ 63 ≤ z ∧ z < 2 ^ 63 := by
  simp [inInt64]

theorem formatInt_of_redisInteger {value : Text} {z : Int} (hz : redisInteger value = some z) :
    formatInt z = value := by
  unfold redisInteger at hz
  split at hz
  · cases hz
  · split at hz
    · rename_i hformat
      cases hz
      exact hformat
    · cases hz

theorem redisInteger_formatInt {z : Int} (h : inInt64 z = true) :
    redisInteger (formatInt z) = some z := by
  simp [redisInteger, parseInt64_formatInt h]

theorem hincrby_formatInt {z d : Int} (hz : inInt64 z = true) (hd : inInt64 d = true)
    (hsum : inInt64 (z + d) = true) : hincrby (formatInt z) (formatInt d) = some (z + d) := by
  simp [hincrby, redisInteger_formatInt hz, redisInteger_formatInt hd, hsum]

theorem hincrby_counter {n : Nat} (h : n + 1 < 2 ^ 63) :
    hincrby (digits n) (digits 1) = some ((n + 1 : Nat) : Int) := by
  have hn : inInt64 (n : Int) = true := inInt64_iff.mpr (by omega)
  have hsum : inInt64 ((n : Int) + 1) = true := inInt64_iff.mpr (by omega)
  exact hincrby_formatInt hn (by decide) hsum

abbrev Hash := AList fun _ : Text => Text

def counter (h : Hash) (field : Text) : Text := (h.lookup field).getD (digits 0)

/-- `HINCRBY key field 1`: the new value and the hash that holds it. -/
def increment (h : Hash) (field : Text) : Option (Int × Hash) :=
  match hincrby (counter h field) (digits 1) with
  | none => none
  | some n => some (n, h.insert field (formatInt n))

def hdel (h : Hash) (fields : List Text) : Hash := fields.foldl (fun h field => h.erase field) h

theorem hdel_singleton (h : Hash) (field : Text) : hdel h [field] = h.erase field := rfl

theorem hdel_cons (h : Hash) (field : Text) (rest : List Text) :
    hdel h (field :: rest) = hdel (h.erase field) rest := rfl

theorem lookup_hdel (h : Hash) (fields : List Text) (field : Text) :
    (hdel h fields).lookup field = if field ∈ fields then none else h.lookup field := by
  induction fields generalizing h with
  | nil => simp [hdel]
  | cons f rest ih =>
    rw [hdel_cons, ih]
    rcases eq_or_ne field f with rfl | hne
    · simp
    · simp [hne]

theorem increment_of_counter {h : Hash} {field : Text} {n : Nat}
    (hcounter : counter h field = digits n) (hn : n + 1 < 2 ^ 63) :
    increment h field = some (((n + 1 : Nat) : Int), h.insert field (digits (n + 1))) := by
  unfold increment
  rw [hcounter, hincrby_counter hn]
  rfl

section Climbing

variable {field other : Text} {h h' h'' : Hash}

/-- The counter stands higher in the second hash. -/
def Climbs (field : Text) (h h' : Hash) : Prop :=
  ∃ z z' : Int, redisInteger (counter h field) = some z ∧
    redisInteger (counter h' field) = some z' ∧ z < z'

/-- The counter is untouched or stands higher. -/
def Rises (field : Text) (h h' : Hash) : Prop :=
  h'.lookup field = h.lookup field ∨ Climbs field h h'

theorem counter_congr (hsame : h'.lookup field = h.lookup field) :
    counter h' field = counter h field := by
  unfold counter
  rw [hsame]

theorem Climbs.lookup_ne (hclimb : Climbs field h h') : h'.lookup field ≠ h.lookup field := by
  rintro hsame
  obtain ⟨z, z', hz, hz', hlt⟩ := hclimb
  rw [counter_congr hsame, hz] at hz'
  exact absurd (Option.some.inj hz') (ne_of_lt hlt)

theorem Climbs.trans (hclimb : Climbs field h h') (hclimb' : Climbs field h' h'') :
    Climbs field h h'' := by
  obtain ⟨z, z', hz, hz', hlt⟩ := hclimb
  obtain ⟨w, w', hw, hw', hlt'⟩ := hclimb'
  obtain rfl := Option.some.inj (hz'.symm.trans hw)
  exact ⟨z, w', hz, hw', hlt.trans hlt'⟩

theorem Climbs.of_lookup {k k' : Hash} (hclimb : Climbs field h h')
    (hsame : k.lookup field = h.lookup field) (hsame' : k'.lookup field = h'.lookup field) :
    Climbs field k k' := by
  unfold Climbs
  rw [counter_congr hsame, counter_congr hsame']
  exact hclimb

theorem Rises.trans (hrise : Rises field h h') (hrise' : Rises field h' h'') :
    Rises field h h'' := by
  rcases hrise with hsame | hclimb
  · rcases hrise' with hsame' | hclimb'
    · exact .inl (hsame'.trans hsame)
    · exact .inr (hclimb'.of_lookup hsame.symm rfl)
  · rcases hrise' with hsame' | hclimb'
    · exact .inr (hclimb.of_lookup rfl hsame')
    · exact .inr (hclimb.trans hclimb')

theorem hincrby_eq_some {value : Text} {n : Int} (hsome : hincrby value (digits 1) = some n) :
    ∃ z, redisInteger value = some z ∧ n = z + 1 ∧ redisInteger (formatInt n) = some n := by
  unfold hincrby at hsome
  have hone : redisInteger (digits 1) = some 1 := by decide
  rw [hone] at hsome
  cases hz : redisInteger value with
  | none => rw [hz] at hsome; cases hsome
  | some z =>
    rw [hz] at hsome
    dsimp only at hsome
    split at hsome
    · rename_i hrange
      cases hsome
      exact ⟨z, rfl, rfl, redisInteger_formatInt hrange⟩
    · cases hsome

theorem hincrby_digits {m : Nat} {n : Int} (hsome : hincrby (digits m) (digits 1) = some n) :
    n = ((m + 1 : Nat) : Int) := by
  obtain ⟨z, hz, rfl, -⟩ := hincrby_eq_some hsome
  have hm : z = m := formatInt_injective (formatInt_of_redisInteger hz)
  rw [hm]
  rfl

theorem increment_eq_some {n : Int} (hsome : increment h field = some (n, h')) :
    h' = h.insert field (formatInt n) ∧ Climbs field h h' := by
  unfold increment at hsome
  cases hcount : hincrby (counter h field) (digits 1) with
  | none => rw [hcount] at hsome; cases hsome
  | some m =>
    rw [hcount] at hsome
    cases hsome
    obtain ⟨z, hz, rfl, hnext⟩ := hincrby_eq_some hcount
    refine ⟨rfl, z, z + 1, hz, ?_, Int.lt_succ z⟩
    rw [counter, AList.lookup_insert]
    exact hnext

theorem increment_lookup {n : Int} (hsome : increment h field = some (n, h'))
    (hne : other ≠ field) : h'.lookup other = h.lookup other := by
  obtain ⟨rfl, -⟩ := increment_eq_some hsome
  exact AList.lookup_insert_ne hne

theorem increment_eq_none_congr (hsame : h'.lookup field = h.lookup field) :
    increment h' field = none ↔ increment h field = none := by
  unfold increment
  rw [counter_congr hsame]
  cases hincrby (counter h field) (digits 1) <;> simp

end Climbing

end EchoJoyGateway.Redis
