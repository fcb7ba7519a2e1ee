import EchoJoyGateway.Lib.LuaNumber
import EchoJoyGateway.Lib.SortedSet

/-!
# The slots of a concurrency scope

`acquireSlotScript`, `renewSlotsScript` and the release of `internal/cluster`: a
scope is a sorted set of tokens, each scored by its expiry on the clock of the Redis
server, under a key with an expiry of its own.
-/

namespace EchoJoyGateway.Concurrency

open LuaNumber

variable {slots : SortedSet Token}

/-- An instant of the server clock, in microseconds of an `int64`. -/
structure Instant where
  us : Nat
  inRange : us < 2 ^ 63

namespace Instant

def ms (t : Instant) : Nat := t.us / 1000

/-- The number that a script computes from the two parts of `TIME`. -/
def now (t : Instant) : Int :=
  LuaNumber.round (LuaNumber.round (LuaNumber.round (t.us / 1000000 : Nat) * 1000) +
    (t.us % 1000000 / 1000 : Nat))

end Instant

def concurrencyTTL : Nat := 30000

def slotExpiry (t : Instant) : Int := LuaNumber.round (t.now + concurrencyTTL)

structure Token where
  instanceID : Nat
  random : Nat
  deriving DecidableEq

/-- The key of a scope; the server drops it once its clock is past the deadline. -/
structure SlotKey where
  slots : SortedSet Token
  deadline : Nat

def SlotKey.expired (key : SlotKey) (t : Instant) : Bool := decide (key.deadline < t.ms)

def slotsAt (t : Instant) : Option SlotKey → SortedSet Token
  | none => .empty
  | some key => if key.expired t then .empty else key.slots

/-- The key after its set was changed and its expiry was not; a key without members is
deleted. -/
def keep (key : Option SlotKey) (slots : SortedSet Token) : Option SlotKey :=
  key.bind fun key => if slots.members = ∅ then none else some { key with slots }

def acquireSlot (t : Instant) (limit : Int) (token : Token) (key : Option SlotKey) :
    Option SlotKey × Bool :=
  let slots := (slotsAt t key).zremrangebyscore t.now
  if LuaNumber.round limit ≤ LuaNumber.round slots.zcard then (keep key slots, false)
  else (some ⟨slots.zadd (slotExpiry t) token, t.ms + concurrencyTTL⟩, true)

def renewSlots (t : Instant) (tokens : List Token) (key : Option SlotKey) :
    Option SlotKey × Nat :=
  let (slots, renewed) := ((slotsAt t key).zremrangebyscore t.now).refresh (slotExpiry t) tokens
  if 0 < renewed then (some ⟨slots, t.ms + concurrencyTTL⟩, renewed) else (keep key slots, renewed)

def releaseSlot (t : Instant) (token : Token) (key : Option SlotKey) : Option SlotKey :=
  keep key ((slotsAt t key).zrem token)

section Clock

variable {t later : Instant}

theorem Instant.now_eq (t : Instant) : t.now = LuaNumber.round t.ms := by
  have hlt := t.inRange
  have hseconds : LuaNumber.round (t.us / 1000000 : Nat) = (t.us / 1000000 : Nat) :=
    round_of_natAbs_le (by omega)
  have hwhole : LuaNumber.round ((t.us / 1000000 * 1000 : Nat) : Int) =
      ((t.us / 1000000 * 1000 : Nat) : Int) := by
    rw [round_natCast, (roundNat_of_lt (by omega)).1 (by omega)]
  unfold Instant.now Instant.ms
  rw [hseconds, ← Nat.cast_ofNat (n := 1000), ← Nat.cast_mul, hwhole]
  congr 2
  omega

theorem Instant.ms_mono (h : t.us ≤ later.us) : t.ms ≤ later.ms := Nat.div_le_div_right h

theorem Instant.now_mono (h : t.us ≤ later.us) : t.now ≤ later.now := by
  rw [Instant.now_eq, Instant.now_eq]
  exact round_mono (by exact_mod_cast Instant.ms_mono h)

theorem slotExpiry_le (h : t.ms + concurrencyTTL < later.ms) : slotExpiry t ≤ later.now := by
  have hlt := t.inRange
  have hms : t.ms < 2 ^ 54 := by
    unfold Instant.ms
    omega
  have hnear := (roundNat_of_lt hms).2
  rw [slotExpiry, Instant.now_eq, Instant.now_eq, round_natCast]
  exact round_mono (by omega)

end Clock

section Keys

variable {t later : Instant} {token other : Token} {key key' : Option SlotKey}

def members (key : Option SlotKey) : Finset Token :=
  match key with
  | none => ∅
  | some key => key.slots.members

def live (t : Instant) (key : Option SlotKey) : Finset Token :=
  match key with
  | none => ∅
  | some key => key.slots.above t.now

theorem live_subset : live t key ⊆ members key := by
  cases key with
  | none => exact Finset.Subset.refl _
  | some key => exact SortedSet.above_subset

theorem live_anti (h : t.us ≤ later.us) : live later key ⊆ live t key := by
  cases key with
  | none => exact Finset.Subset.refl _
  | some key => exact SortedSet.above_anti (Instant.now_mono h)

/-- The expiry of the key covers the expiry of every member, and neither lies further
ahead than the time to live. -/
structure SlotKey.Sound (t : Instant) (key : SlotKey) : Prop where
  deadline : key.deadline ≤ t.ms + concurrencyTTL
  stamped : ∀ token ∈ key.slots.members, ∃ taken : Instant,
    key.slots.score token = slotExpiry taken ∧ taken.ms + concurrencyTTL ≤ key.deadline

def Sound (t : Instant) (key : Option SlotKey) : Prop := ∀ k ∈ key, k.Sound t

theorem Sound.of_le (h : Sound t key) (hle : t.us ≤ later.us) : Sound later key := by
  intro k hk
  have hms := Instant.ms_mono hle
  have hdeadline := (h k hk).deadline
  exact ⟨by omega, (h k hk).stamped⟩

theorem SlotKey.Sound.not_expired {k : SlotKey} (h : k.Sound t)
    (hlive : token ∈ k.slots.above later.now) : k.expired later = false := by
  rw [SortedSet.mem_above] at hlive
  obtain ⟨taken, hscore, hcover⟩ := h.stamped token hlive.1
  refine decide_eq_false fun hexpired => ?_
  have hle : slotExpiry taken ≤ later.now := slotExpiry_le (by omega)
  omega

theorem slotsAt_cases (t : Instant) (key : Option SlotKey) :
    slotsAt t key = .empty ∨ ∃ k ∈ key, slotsAt t key = k.slots := by
  cases key with
  | none => exact .inl rfl
  | some key =>
    by_cases hexpired : key.expired t = true
    · exact .inl (if_pos hexpired)
    · exact .inr ⟨key, rfl, if_neg hexpired⟩

theorem slotsAt_subset : (slotsAt t key).members ⊆ members key := by
  rcases slotsAt_cases t key with hempty | ⟨k, rfl, hslots⟩
  · rw [hempty]
    exact Finset.empty_subset _
  · rw [hslots]
    exact Finset.Subset.refl _

theorem slotsAt_above_subset : (slotsAt t key).above t.now ⊆ live t key := by
  rcases slotsAt_cases t key with hempty | ⟨k, rfl, hslots⟩
  · rw [hempty]
    exact Finset.empty_subset _
  · rw [hslots]
    exact Finset.Subset.refl _

theorem members_keep : members (keep key slots) ⊆ slots.members := by
  cases key with
  | none => exact Finset.empty_subset _
  | some key =>
    unfold keep
    split
    · exact Finset.empty_subset _
    · exact Finset.Subset.refl _

theorem live_keep : live t (keep key slots) ⊆ slots.above t.now := by
  cases key with
  | none => exact Finset.empty_subset _
  | some key =>
    unfold keep
    split
    · exact Finset.empty_subset _
    · exact Finset.Subset.refl _

def Covered (key : Option SlotKey) (slots : SortedSet Token) : Prop :=
  ∀ token ∈ slots.members, ∃ k ∈ key, token ∈ k.slots.members ∧
    slots.score token = k.slots.score token

theorem covered_slotsAt : Covered key (slotsAt t key) := by
  intro token hmem
  rcases slotsAt_cases t key with hempty | ⟨k, hk, hslots⟩
  · rw [hempty] at hmem
    exact absurd hmem (Finset.notMem_empty _)
  · rw [hslots] at hmem ⊢
    exact ⟨k, hk, hmem, rfl⟩

theorem Covered.subset {slots slots' : SortedSet Token} (h : Covered key slots)
    (hmembers : slots'.members ⊆ slots.members) (hscore : slots'.score = slots.score) :
    Covered key slots' := by
  intro token hmem
  rw [hscore]
  exact h token (hmembers hmem)

theorem Sound.keep (h : Sound t key) (hcovered : Covered key slots) :
    Sound t (Concurrency.keep key slots) := by
  intro k hk
  cases key with
  | none => cases hk
  | some old =>
    unfold Concurrency.keep at hk
    split at hk
    · cases hk
    · cases hk
      refine ⟨(h old rfl).deadline, fun token hmem => ?_⟩
      obtain ⟨_, ⟨⟩, hold, hscore⟩ := hcovered token hmem
      rw [hscore]
      exact (h old rfl).stamped token hold

theorem Sound.restamped (h : Sound t key)
    (hscore : ∀ token ∈ slots.members, slots.score token = slotExpiry t ∨
      ∃ k ∈ key, token ∈ k.slots.members ∧ slots.score token = k.slots.score token) :
    Sound t (some ⟨slots, t.ms + concurrencyTTL⟩) := by
  rintro _ ⟨⟩
  refine ⟨le_rfl, fun token hmem => ?_⟩
  rcases hscore token hmem with hnew | ⟨k, hk, hold, heq⟩
  · exact ⟨t, hnew, le_rfl⟩
  · obtain ⟨taken, hstamp, hcover⟩ := (h k hk).stamped token hold
    exact ⟨taken, heq.trans hstamp, hcover.trans (h k hk).deadline⟩

structure Evolves (t : Instant) (added : Finset Token) (key key' : Option SlotKey) : Prop where
  members : members key' ⊆ members key ∪ added
  live : live t key' ⊆ live t key ∪ added
  sound : Sound t key → Sound t key'

theorem Evolves.refl : Evolves t ∅ key key :=
  ⟨Finset.subset_union_left, Finset.subset_union_left, id⟩

theorem evolves_keep (hmembers : slots.members ⊆ members key)
    (hlive : slots.above t.now ⊆ live t key) (hcovered : Covered key slots) :
    Evolves t ∅ key (keep key slots) where
  members := (members_keep.trans hmembers).trans Finset.subset_union_left
  live := (live_keep.trans hlive).trans Finset.subset_union_left
  sound h := h.keep hcovered

section Purged

variable (t key)

abbrev purged : SortedSet Token := (slotsAt t key).zremrangebyscore t.now

theorem purged_live : (purged t key).members ⊆ live t key := slotsAt_above_subset

theorem purged_covered : Covered key (purged t key) :=
  covered_slotsAt.subset SortedSet.above_subset rfl

theorem purged_evolves : Evolves t ∅ key (keep key (purged t key)) :=
  evolves_keep ((purged_live t key).trans live_subset)
    (SortedSet.above_subset.trans (purged_live t key)) (purged_covered t key)

end Purged

theorem acquireSlot_evolves {limit : Int} :
    Evolves t (if (acquireSlot t limit token key).2 then {token} else ∅) key
      (acquireSlot t limit token key).1 := by
  unfold acquireSlot
  dsimp only
  split
  · exact purged_evolves t key
  · have hmembers : (SortedSet.zadd (purged t key) (slotExpiry t) token).members ⊆
        live t key ∪ {token} := by
      change insert token (purged t key).members ⊆ _
      rw [Finset.insert_eq, Finset.union_comm]
      exact Finset.union_subset_union_left (purged_live t key)
    refine ⟨hmembers.trans (Finset.union_subset_union_left live_subset),
      SortedSet.above_subset.trans hmembers, fun h => h.restamped fun other hmem => ?_⟩
    rcases eq_or_ne other token with rfl | hne
    · exact .inl SortedSet.zadd_score_self
    · rw [SortedSet.zadd_score_of_ne hne]
      exact .inr (purged_covered t key other (Finset.mem_of_mem_insert_of_ne hmem hne))

theorem acquireSlot_card {limit : Int} (h : (acquireSlot t limit token key).2 = true) :
    ((members (acquireSlot t limit token key).1).card : Int) ≤ limit := by
  unfold acquireSlot at h ⊢
  dsimp only at h ⊢
  split at h
  · cases h
  · rename_i hroom
    rw [if_neg hroom]
    have hcard : ((purged t key).zcard : Int) < limit := by
      by_contra hfull
      exact hroom (round_mono (not_lt.mp hfull))
    have hinsert := Finset.card_insert_le token (purged t key).members
    change ((insert token (purged t key).members).card : Int) ≤ limit
    unfold SortedSet.zcard at hcard
    omega

theorem renewSlots_evolves {tokens : List Token} : Evolves t ∅ key (renewSlots t tokens key).1 := by
  obtain ⟨hrefreshed, -, hzero⟩ := SortedSet.refresh_spec (purged t key) (slotExpiry t) tokens
  unfold renewSlots
  dsimp only
  have hlive := hrefreshed.members.subset.trans (purged_live t key)
  split
  · refine ⟨(hlive.trans live_subset).trans Finset.subset_union_left,
      (SortedSet.above_subset.trans hlive).trans Finset.subset_union_left,
      fun h => h.restamped fun token hmem => ?_⟩
    rcases hrefreshed.scores token with hold | hnew
    · rw [hold]
      exact .inr (purged_covered t key token (hrefreshed.members ▸ hmem))
    · exact .inl hnew
  · rename_i hcount
    rw [hzero (Nat.eq_zero_of_not_pos hcount)]
    exact purged_evolves t key

theorem renewSlots_count (t : Instant) (tokens : List Token) (key : Option SlotKey) :
    (renewSlots t tokens key).2 = tokens.countP fun token => token ∈ (purged t key).members := by
  obtain ⟨-, hcount, -⟩ := SortedSet.refresh_spec (purged t key) (slotExpiry t) tokens
  unfold renewSlots
  dsimp only
  split
  · exact hcount
  · exact hcount

theorem Sound.live_purged (h : Sound t key) : live t key ⊆ (purged t key).members := by
  intro token hlive
  cases key with
  | none => exact hlive
  | some k =>
    have hcurrent : slotsAt t (some k) = k.slots :=
      if_neg (Bool.eq_false_iff.mp ((h k rfl).not_expired hlive))
    change token ∈ (slotsAt t (some k)).above t.now
    rw [hcurrent]
    exact hlive

theorem releaseSlot_evolves : Evolves t ∅ key (releaseSlot t token key) :=
  evolves_keep ((Finset.erase_subset _ _).trans slotsAt_subset)
    ((Finset.filter_subset_filter _ (Finset.erase_subset _ _)).trans slotsAt_above_subset)
    (covered_slotsAt.subset (Finset.erase_subset _ _) rfl)

theorem not_mem_releaseSlot : token ∉ members (releaseSlot t token key) :=
  fun hmem => Finset.notMem_erase token _ (members_keep hmem)

end Keys

end EchoJoyGateway.Concurrency
