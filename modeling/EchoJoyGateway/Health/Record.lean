import EchoJoyGateway.Health.Script

/-!
# What a health record means

The health of a credential, apart from how it is stored: a deadline is a number
of milliseconds, zero for none. A hash encodes it field by field, with a missing
`cd` or `fc` read as zero, and each operation of the script is an operation on
it.
-/

namespace EchoJoyGateway.Health

open Clock Decimal LuaNumber Redis State Option

structure HealthState where
  epoch : Text
  version : Nat
  identityGeneration : Nat
  cooldown : Nat
  blacklisted : Bool
  failures : Nat
  failureGeneration : Nat
  modelGeneration : Nat
  models : String → Option Nat

namespace HealthState

def coolUntil (s : HealthState) (deadline : Nat) : HealthState :=
  { s with cooldown := max s.cooldown deadline }

def fail (s : HealthState) : HealthState :=
  { s with failures := s.failures + 1, failureGeneration := s.failureGeneration + 1 }

def blacklist (s : HealthState) : HealthState :=
  { s with blacklisted := true, failureGeneration := s.failureGeneration + 1 }

def clearFailures (s : HealthState) : HealthState :=
  { s with failures := 0, failureGeneration := s.failureGeneration + 1 }

def clearCooldown (s : HealthState) : HealthState := { s with cooldown := 0 }

def recover (s : HealthState) : HealthState := { s.clearFailures with blacklisted := false }

def clearModels (s : HealthState) : HealthState :=
  { s with models := fun _ => none, modelGeneration := s.modelGeneration + 1 }

def pruneModels (s : HealthState) (now : Time) : HealthState :=
  { s with models := fun name => (s.models name).filter fun n => after (parseHealthMS n) now }

def coolModel (s : HealthState) (name : String) (deadline : Nat) : HealthState :=
  { s with models := Function.update s.models name (some deadline) }

def nextVersion (s : HealthState) : HealthState := { s with version := s.version + 1 }

end HealthState

inductive Key where
  | ep | ver | idg | cd | bl | fc | fg | mg | asv
  | model (name : String)
  deriving DecidableEq

def Key.text : Key → Text
  | .ep => Field.ep
  | .ver => Field.ver
  | .idg => Field.idg
  | .cd => Field.cd
  | .bl => Field.bl
  | .fc => Field.fc
  | .fg => Field.fg
  | .mg => Field.mg
  | .asv => Field.asv
  | .model name => Field.model name.toList

/-- What a field of the record holds, in the texts that the script writes. -/
def HealthState.Stores (s : HealthState) : Key → Option Text → Prop
  | .ep, value => value = some s.epoch
  | .ver, value => value = some (digits s.version)
  | .idg, value => value = some (digits s.identityGeneration)
  | .cd, value => value.getD (digits 0) = digits s.cooldown
  | .bl, value => value = some one ↔ s.blacklisted = true
  | .fc, value => value.getD (digits 0) = digits s.failures
  | .fg, value => value = some (digits s.failureGeneration)
  | .mg, value => value = some (digits s.modelGeneration)
  | .asv, value => ∀ t, value = some t → ∃ n < 2 ^ 64, t = digits n
  | .model name, value => value = (s.models name).map digits

def Encodes (h : Hash) (s : HealthState) : Prop := ∀ key : Key, s.Stores key (h.lookup key.text)

theorem Encodes.model {h : Hash} {s : HealthState} (henc : Encodes h s) (name : String) :
    h.lookup (Field.model name.toList) = (s.models name).map digits :=
  henc (.model name)

/-- The numbers that the Go side can read back. -/
structure HealthState.Readable (s : HealthState) : Prop where
  epoch : s.epoch ≠ []
  version : s.version < 2 ^ 64
  identity : s.identityGeneration < 2 ^ 64
  cooldown : s.cooldown < 2 ^ 63
  failures : s.failures < 2 ^ 63
  failureGeneration : s.failureGeneration < 2 ^ 64
  modelGeneration : s.modelGeneration < 2 ^ 64
  models : ∀ name n, s.models name = some n → 0 < n ∧ n < 2 ^ 63

/-- The numbers that Lua compares exactly and Redis can still increment. -/
structure HealthState.InRange (s : HealthState) : Prop where
  epoch : s.epoch ≠ []
  version : s.version + 1 < 2 ^ 63
  identity : s.identityGeneration < 2 ^ 64
  cooldown : s.cooldown ≤ 2 ^ 53
  failures : s.failures + 1 < 2 ^ 53
  failureGeneration : s.failureGeneration + 2 < 2 ^ 63
  modelGeneration : s.modelGeneration + 1 < 2 ^ 63
  models : ∀ name n, s.models name = some n → 0 < n ∧ n ≤ 2 ^ 53
  named : s.models "" = none

section Deadlines

variable {n : Nat}

theorem zeroTime_lt_ofUnixMilli (h : 0 < n) : zeroTime < ofUnixMilli n := by
  dsimp only [Time, zeroTime, ofUnixMilli]
  omega

theorem ofUnixMilli_lt {m : Nat} : ofUnixMilli m < ofUnixMilli n ↔ m < n := by
  dsimp only [Time, ofUnixMilli]
  omega

theorem parseHealthMS_pos (h : 0 < n) : parseHealthMS n = ofUnixMilli n := by
  unfold parseHealthMS
  rw [if_neg (by omega)]

@[simp] theorem parseHealthMS_zero : parseHealthMS ((0 : Nat) : Int) = zeroTime := rfl

theorem parseHealthMS_lt {m : Nat} : parseHealthMS m < parseHealthMS n ↔ m < n := by
  rcases Nat.eq_zero_or_pos m with rfl | hm
  · rcases Nat.eq_zero_or_pos n with rfl | hn
    · simp
    · rw [parseHealthMS_pos hn]
      exact iff_of_true (zeroTime_lt_ofUnixMilli hn) hn
  · rcases Nat.eq_zero_or_pos n with rfl | hn
    · rw [parseHealthMS_pos hm]
      exact iff_of_false (lt_asymm (zeroTime_lt_ofUnixMilli hm)) (Nat.not_lt_zero m)
    · rw [parseHealthMS_pos hm, parseHealthMS_pos hn, ofUnixMilli_lt]

theorem parseHealthMS_inj {m : Nat} : parseHealthMS m = parseHealthMS n ↔ m = n := by
  constructor
  · intro h
    rcases Nat.lt_trichotomy m n with hlt | heq | hgt
    · exact absurd h (ne_of_lt (parseHealthMS_lt.mpr hlt))
    · exact heq
    · exact absurd h.symm (ne_of_lt (parseHealthMS_lt.mpr hgt))
  · rintro rfl
    rfl

theorem after_parseHealthMS (m n : Nat) :
    after (parseHealthMS n) (parseHealthMS m) = decide (m < n) := by
  rw [Bool.eq_iff_iff, after_iff, decide_eq_true_eq]
  exact parseHealthMS_lt

theorem isZero_parseHealthMS (n : Nat) : isZero (parseHealthMS n) = decide (n = 0) := by
  rw [Bool.eq_iff_iff, isZero_iff, decide_eq_true_eq, ← parseHealthMS_zero, parseHealthMS_inj]

theorem formatHealthMS_parseHealthMS (n : Nat) : formatHealthMS (parseHealthMS n) = digits n := by
  unfold formatHealthMS
  rw [isZero_parseHealthMS]
  rcases Nat.eq_zero_or_pos n with rfl | hn
  · rfl
  · rw [parseHealthMS_pos hn, unixMilli_ofUnixMilli]
    simp [show n ≠ 0 by omega]

variable {now : Time}

theorem unixMilli_lt_iff : unixMilli now < n ↔ now < ofUnixMilli n := by
  dsimp only [Time, unixMilli, ofUnixMilli] at *
  omega

theorem unixMilli_zeroTime_lt (h : now < zeroTime) : unixMilli now < 0 := by
  dsimp only [Time, unixMilli, zeroTime] at *
  omega

theorem tonumber_formatHealthMS {bound : Nat} (hbound : bound ≤ 2 ^ 53)
    (hnow : now < parseHealthMS bound) :
    ∃ z, tonumber (formatHealthMS now) = some z ∧
      ∀ n : Nat, 0 < n → (z < n ↔ now < parseHealthMS n) := by
  unfold formatHealthMS
  split
  · rename_i hzero
    rw [isZero_iff] at hzero
    refine ⟨0, tonumber_digits (by norm_num), fun n hn => ?_⟩
    rw [hzero, ← parseHealthMS_zero, parseHealthMS_lt]
    omega
  · refine ⟨LuaNumber.round (unixMilli now), by rw [tonumber, parseSigned_formatInt]; rfl,
      fun n hn => ?_⟩
    rw [parseHealthMS_pos hn, ← unixMilli_lt_iff]
    have hupper : unixMilli now ≤ 2 ^ 53 := by
      rcases Nat.eq_zero_or_pos bound with rfl | hpos
      · have hneg := unixMilli_zeroTime_lt hnow
        omega
      · rw [parseHealthMS_pos hpos, ← unixMilli_lt_iff] at hnow
        omega
    rcases lt_or_ge (unixMilli now) (-2 ^ 53) with hsmall | hlarge
    · have hround := round_neg_of_lt hsmall
      omega
    · rw [round_of_natAbs_le (by omega)]

end Deadlines

section Fields

variable {h : Hash} {s s' : HealthState}

theorem Field.isModel_iff {f : Text} :
    Field.isModel f = true ↔ ∃ name : String, f = Field.model name.toList := by
  constructor
  · intro hf
    unfold Field.isModel at hf
    split at hf
    · rename_i rest
      exact ⟨String.ofList rest, by simp [Field.model]⟩
    · cases hf
  · rintro ⟨name, rfl⟩
    rfl

variable {key : Key}

theorem Key.text_model_ne (h : Field.isModel key.text = false) (name : String) :
    (Key.model name).text ≠ key.text := by
  intro heq
  rw [← heq] at h
  cases h

theorem Key.text_injective {other : Key} (h : key.text = other.text) : key = other := by
  cases key with
  | model name =>
    cases other with
    | model name' =>
      have hnames : name.toList = name'.toList := (List.cons.inj (List.cons.inj h).2).2
      rw [String.toList_inj.mp hnames]
    | _ => exact absurd h (Key.text_model_ne rfl name)
  | _ =>
    cases other with
    | model name => exact absurd h.symm (Key.text_model_ne rfl name)
    | _ => first | rfl | exact absurd h (by decide)

theorem Key.text_ne {other : Key} (h : key ≠ other) : key.text ≠ other.text :=
  fun heq => h (Key.text_injective heq)

theorem Encodes.insert (henc : Encodes h s) (key : Key) {value : Text}
    (hself : s'.Stores key (some value))
    (hother : ∀ other ≠ key, ∀ v, s.Stores other v → s'.Stores other v) :
    Encodes (h.insert key.text value) s' := by
  intro other
  rcases eq_or_ne other key with rfl | hne
  · rw [AList.lookup_insert]
    exact hself
  · rw [AList.lookup_insert_ne (Key.text_ne hne)]
    exact hother other hne _ (henc other)

theorem Encodes.erase (henc : Encodes h s) (key : Key) (hself : s'.Stores key none)
    (hother : ∀ other ≠ key, ∀ v, s.Stores other v → s'.Stores other v) :
    Encodes (h.erase key.text) s' := by
  intro other
  rcases eq_or_ne other key with rfl | hne
  · rw [AList.lookup_erase]
    exact hself
  · rw [AList.lookup_erase_ne (Key.text_ne hne)]
    exact hother other hne _ (henc other)

section Primitives

variable (henc : Encodes h s)

include henc

theorem Encodes.setCooldown (n : Nat) :
    Encodes (h.insert Field.cd (digits n)) { s with cooldown := n } :=
  henc.insert .cd rfl fun other hne v hv => by
    cases other <;> first | exact hv | exact absurd rfl hne

theorem Encodes.dropCooldown : Encodes (h.erase Field.cd) s.clearCooldown :=
  henc.erase .cd (Eq.refl (digits 0)) fun other hne v hv => by
    cases other <;> first | exact hv | exact absurd rfl hne

theorem Encodes.setFailures (n : Nat) :
    Encodes (h.insert Field.fc (digits n)) { s with failures := n } :=
  henc.insert .fc rfl fun other hne v hv => by
    cases other <;> first | exact hv | exact absurd rfl hne

theorem Encodes.dropFailures : Encodes (h.erase Field.fc) { s with failures := 0 } :=
  henc.erase .fc (Eq.refl (digits 0)) fun other hne v hv => by
    cases other <;> first | exact hv | exact absurd rfl hne

theorem Encodes.setBlacklisted : Encodes (h.insert Field.bl one) { s with blacklisted := true } :=
  henc.insert .bl (iff_of_true rfl rfl) fun other hne v hv => by
    cases other <;> first | exact hv | exact absurd rfl hne

theorem Encodes.dropBlacklisted : Encodes (h.erase Field.bl) { s with blacklisted := false } :=
  henc.erase .bl (iff_of_false nofun Bool.false_ne_true) fun other hne v hv => by
    cases other <;> first | exact hv | exact absurd rfl hne

theorem Encodes.setFailureGeneration (n : Nat) :
    Encodes (h.insert Field.fg (digits n)) { s with failureGeneration := n } :=
  henc.insert .fg rfl fun other hne v hv => by
    cases other <;> first | exact hv | exact absurd rfl hne

theorem Encodes.setModelGeneration (n : Nat) :
    Encodes (h.insert Field.mg (digits n)) { s with modelGeneration := n } :=
  henc.insert .mg rfl fun other hne v hv => by
    cases other <;> first | exact hv | exact absurd rfl hne

theorem Encodes.setVersion (n : Nat) :
    Encodes (h.insert Field.ver (digits n)) { s with version := n } :=
  henc.insert .ver rfl fun other hne v hv => by
    cases other <;> first | exact hv | exact absurd rfl hne

theorem Encodes.setModel (name : String) (n : Nat) :
    Encodes (h.insert (Field.model name.toList) (digits n)) (s.coolModel name n) := by
  refine henc.insert (.model name) ?_ fun other hne v hv => ?_
  · exact congrArg (Option.map digits) (Function.update_self name (some n) s.models).symm
  · cases other with
    | model name' =>
      have hnames : name' ≠ name := fun heq => hne (by rw [heq])
      change v = (Function.update s.models name (some n) name').map digits
      rw [Function.update_of_ne hnames]
      exact hv
    | _ => exact hv

theorem Encodes.dropModels {fields : List Text} (hfields : ∀ f ∈ fields, Field.isModel f = true)
    {models : String → Option Nat}
    (hmodels : ∀ name, models name =
      if Field.model name.toList ∈ fields then none else s.models name) :
    Encodes (hdel h fields) { s with models := models } := by
  intro key
  have hold := henc key
  rw [lookup_hdel]
  cases key with
  | model name =>
    change (if Field.model name.toList ∈ fields then none
      else h.lookup (Field.model name.toList)) = (models name).map digits
    rw [hmodels]
    split
    · rfl
    · exact hold
  | _ =>
    rw [if_neg fun hmem => absurd (hfields _ hmem) (by decide)]
    exact hold

theorem Encodes.num_cooldown (hrange : s.InRange) : num h Field.cd = some (s.cooldown : Int) := by
  have hcd : counter h Field.cd = digits s.cooldown := henc .cd
  rw [num, hcd, tonumber_digits hrange.cooldown]

theorem Encodes.num_failures (hrange : s.InRange) : num h Field.fc = some (s.failures : Int) := by
  have hfc : counter h Field.fc = digits s.failures := henc .fc
  have hle := hrange.failures
  rw [num, hfc, tonumber_digits (by omega)]

theorem Encodes.incrementFailures (hlt : s.failures + 1 < 2 ^ 63) :
    increment h Field.fc =
      some (((s.failures + 1 : Nat) : Int), h.insert Field.fc (digits (s.failures + 1))) :=
  increment_of_counter (henc .fc) hlt

theorem Encodes.incrementFailureGeneration (hlt : s.failureGeneration + 1 < 2 ^ 63) :
    increment h Field.fg = some (((s.failureGeneration + 1 : Nat) : Int),
      h.insert Field.fg (digits (s.failureGeneration + 1))) := by
  have hfg : h.lookup Field.fg = some (digits s.failureGeneration) := henc .fg
  exact increment_of_counter (by rw [counter, hfg, getD_some]) hlt

theorem Encodes.incrementModelGeneration (hlt : s.modelGeneration + 1 < 2 ^ 63) :
    increment h Field.mg = some (((s.modelGeneration + 1 : Nat) : Int),
      h.insert Field.mg (digits (s.modelGeneration + 1))) := by
  have hmg : h.lookup Field.mg = some (digits s.modelGeneration) := henc .mg
  exact increment_of_counter (by rw [counter, hmg, getD_some]) hlt

theorem Encodes.incrementVersion (hlt : s.version + 1 < 2 ^ 63) :
    increment h Field.ver =
      some (((s.version + 1 : Nat) : Int), h.insert Field.ver (digits (s.version + 1))) := by
  have hver : h.lookup Field.ver = some (digits s.version) := henc .ver
  exact increment_of_counter (by rw [counter, hver, getD_some]) hlt

end Primitives

end Fields

section Decoding

variable {h : Hash} {s : HealthState}

structure Describes (health : CredentialRegistry.SharedCredentialHealth) (s : HealthState) :
    Prop where
  identity : health.identityGeneration = s.identityGeneration
  cooldown : health.cooldownUntil = parseHealthMS s.cooldown
  blacklisted : health.blacklisted = s.blacklisted
  failures : health.failureCount = s.failures
  failureGeneration : health.failureGeneration = s.failureGeneration
  modelGeneration : health.modelCooldownGeneration = s.modelGeneration
  models : health.modelCooldowns = fun name => (s.models name).map fun n : Nat => parseHealthMS n

variable {field : Text} {n : Nat}

theorem uintField_of_lookup (hn : n < 2 ^ 64) (hfield : h.lookup field = some (digits n)) :
    uintField h field = some n := by
  unfold uintField
  rw [hfield]
  exact parseUint_digits hn

theorem uintField_of_counter (hn : n < 2 ^ 64) (hfield : counter h field = digits n) :
    uintField h field = some n := by
  unfold counter at hfield
  cases hlookup : h.lookup field with
  | none =>
    rw [hlookup] at hfield
    rw [uintField, hlookup, digits_injective hfield]
  | some value =>
    rw [hlookup] at hfield
    exact uintField_of_lookup hn (hfield ▸ hlookup)

theorem msField_of_lookup (hn : n < 2 ^ 63) (hfield : h.lookup field = some (digits n)) :
    msField h field = some (parseHealthMS n) := by
  have hparse : parseInt64 (digits n) = some (n : Int) :=
    parseInt64_formatInt (z := n) (inInt64_iff.mpr (by omega))
  unfold msField
  rw [hfield]
  simp [hparse]

theorem msField_of_counter (hn : n < 2 ^ 63) (hfield : counter h field = digits n) :
    msField h field = some (parseHealthMS n) := by
  unfold counter at hfield
  cases hlookup : h.lookup field with
  | none =>
    rw [hlookup] at hfield
    rw [msField, hlookup, ← digits_injective hfield]
    rfl
  | some value =>
    rw [hlookup] at hfield
    exact msField_of_lookup hn (hfield ▸ hlookup)

theorem Encodes.uint_asv (henc : Encodes h s) : (uintField h Field.asv).isSome = true := by
  cases hlookup : h.lookup Field.asv with
  | none => simp [uintField, hlookup]
  | some value =>
    obtain ⟨n, hn, rfl⟩ := henc .asv value hlookup
    rw [uintField_of_lookup hn hlookup]
    rfl

section Reading

variable (henc : Encodes h s) (hread : s.Readable)

include henc hread

theorem Encodes.ms_model {name : String} {n : Nat} (hname : s.models name = some n) :
    msField h (Field.model name.toList) = some (parseHealthMS n) := by
  have hlookup := henc.model name
  rw [hname] at hlookup
  exact msField_of_lookup (hread.models name n hname).2 hlookup

theorem Encodes.ms_key {field : Text} (hkey : field ∈ h.keys)
    (hmodel : Field.isModel field = true) : (msField h field).isSome = true := by
  obtain ⟨name, rfl⟩ := Field.isModel_iff.mp hmodel
  have hlookup := henc.model name
  cases hname : s.models name with
  | none =>
    rw [hname] at hlookup
    exact absurd hkey (AList.lookup_eq_none.mp hlookup)
  | some n =>
    rw [henc.ms_model hread hname]
    rfl

theorem Encodes.uint_fields :
    uintField h Field.ver = some s.version ∧ uintField h Field.idg = some s.identityGeneration ∧
      uintField h Field.fc = some s.failures ∧
      uintField h Field.fg = some s.failureGeneration ∧
      uintField h Field.mg = some s.modelGeneration := by
  have hfailures := hread.failures
  refine ⟨?_, ?_, ?_, ?_, ?_⟩
  · exact uintField_of_lookup hread.version (henc .ver)
  · exact uintField_of_lookup hread.identity (henc .idg)
  · exact uintField_of_counter (by omega) (henc .fc)
  · exact uintField_of_lookup hread.failureGeneration (henc .fg)
  · exact uintField_of_lookup hread.modelGeneration (henc .mg)

theorem Encodes.badFields_eq_nil : badFields h = [] := by
  obtain ⟨hver, hidg, hfc, hfg, hmg⟩ := henc.uint_fields hread
  have hcd : msField h Field.cd = some (parseHealthMS s.cooldown) :=
    msField_of_counter hread.cooldown (henc .cd)
  have hasv := henc.uint_asv
  have hmodels : (h.keys.filter Field.isModel).filter (fun f => (msField h f).isNone) = [] := by
    rw [List.filter_eq_nil_iff]
    intro f hf hnone
    obtain ⟨hkey, hmodel⟩ := List.mem_filter.mp hf
    have hsome := henc.ms_key hread hkey hmodel
    rw [isNone_iff_eq_none.mp hnone] at hsome
    cases hsome
  have hasvNone : (uintField h Field.asv).isNone = false := by
    rw [← not_isSome, hasv]
    rfl
  unfold badFields
  rw [hmodels]
  simp [hver, hidg, hfc, hfg, hmg, hcd, hasvNone]

theorem Encodes.decode : ∃ health, decodeCredentialHealth h = .ok health ∧ Describes health s := by
  obtain ⟨hver, hidg, hfc, hfg, hmg⟩ := henc.uint_fields hread
  have hep : h.lookup Field.ep = some s.epoch := henc .ep
  have hcd : msField h Field.cd = some (parseHealthMS s.cooldown) :=
    msField_of_counter hread.cooldown (henc .cd)
  have hkeys : h.keys ≠ [] := by
    intro hnil
    have hmem : Field.ep ∈ h.keys := AList.lookup_isSome.mp (by rw [hep]; rfl)
    rw [hnil] at hmem
    cases hmem
  unfold decodeCredentialHealth
  rw [if_neg hkeys, if_neg (by rw [hep]; exact hread.epoch),
    if_neg (by rw [henc.badFields_eq_nil hread]; exact fun h => h rfl)]
  refine ⟨_, rfl, ?_⟩
  constructor
  · simp only [hidg, getD_some]
  · simp only [hcd, getD_some]
  · rw [Bool.eq_iff_iff, beq_iff_eq]
    exact henc .bl
  · have hfailures := hread.failures
    simp only [hfc, getD_some]
    exact Int.bmod_eq_of_le (by omega) (by omega)
  · simp only [hfg, getD_some]
  · simp only [hmg, getD_some]
  · funext name
    have hlookup := henc.model name
    cases hname : s.models name with
    | none =>
      rw [hname] at hlookup
      simp [hlookup]
    | some n =>
      rw [hname] at hlookup
      simp [hlookup, henc.ms_model hread hname]

end Reading

end Decoding

end EchoJoyGateway.Health
