import EchoJoyGateway.Quota.Scripts

/-!
# What the scripts do to a typed record

A stored hash that was written from a state inside the numeric ranges decodes
to that state, and each loop body of the scripts is one function on states.
-/

namespace EchoJoyGateway.Quota

open Decimal LuaNumber Redis

variable {s : RestoredState}

/-- The state is inside the ranges in which its texts are exact. -/
structure Fits (revisions counters : Nat) (s : RestoredState) : Prop where
  revision : s.ruleRevision ≤ revisions
  used_nonneg : 0 ≤ s.usedNano
  used_lt : s.usedNano < 2 ^ 63
  started : ∀ t, s.windowStartedAtMS = some t → inInt64 t = true
  ends : ∀ t, s.windowEndsAtMS = some t → inInt64 t = true
  generation : s.windowGeneration ≤ counters
  version : s.snapshotVersion ≤ counters

variable {b r : Nat}

theorem Fits.mono {r' b' : Nat} (h : Fits r b s) (hr : r ≤ r') (hb : b ≤ b') : Fits r' b' s :=
  { h with
    revision := h.revision.trans hr
    generation := h.generation.trans hb
    version := h.version.trans hb }

def opened (s : RestoredState) (nowMS ends : Int) : RestoredState :=
  { s with
    usedNano := 0
    windowStartedAtMS := some nowMS
    windowEndsAtMS := some ends
    windowGeneration := s.windowGeneration + 1
    snapshotVersion := s.snapshotVersion + 1 }

def charged (s : RestoredState) (used : Int) : RestoredState :=
  { s with usedNano := used, snapshotVersion := s.snapshotVersion + 1 }

def overflows (s : RestoredState) (cost : Int) : Prop := cost < 0 ∨ 2 ^ 63 - 1 - cost < s.usedNano

instance (s : RestoredState) (cost : Int) : Decidable (overflows s cost) :=
  inferInstanceAs (Decidable (_ ∨ _))

def settled (s : RestoredState) (cost : Int) : RestoredState :=
  if overflows s cost then
    if s.usedNano = 2 ^ 63 - 1 then s else charged s (2 ^ 63 - 1)
  else charged s (s.usedNano + cost)

def hydrated (s checkpoint : RestoredState) : RestoredState :=
  if s.ruleRevision < checkpoint.ruleRevision then checkpoint else s

theorem isNegative_formatInt (z : Int) : isNegative (formatInt z) = decide (z < 0) := by
  cases z with
  | ofNat n =>
    cases hd : digits n with
    | nil => exact absurd hd (digits_ne_nil n)
    | cons c rest =>
      have hc : c ≠ '-' := by
        rintro rfl
        exact absurd (head_digits_isDigit hd) (by decide)
      simp [isNegative, hd, hc]
  | negSucc n => simp [isNegative, formatInt]

theorem formatInt_of_nonneg {z : Int} (h : 0 ≤ z) : formatInt z = digits z.toNat := by
  obtain ⟨n, rfl⟩ := Int.eq_ofNat_of_zero_le h
  exact formatInt_natCast n

theorem cmp_formatInt {y z : Int} (hy : 0 ≤ y) (hz : 0 ≤ z) :
    Decimal.cmp (formatInt y) (formatInt z) = compare y z := by
  rw [formatInt_of_nonneg hy, formatInt_of_nonneg hz, cmp_digits]
  simp only [compare, compareOfLessAndEq]
  grind

theorem formatInt_ne_nil (z : Int) : formatInt z ≠ [] := by
  cases z with
  | ofNat n => exact digits_ne_nil n
  | negSucc n => exact List.cons_ne_nil _ _

theorem formatOptionalMS_injective {x y : Option Int}
    (h : formatOptionalMS x = formatOptionalMS y) : x = y := by
  cases x with
  | none =>
    cases y with
    | none => rfl
    | some z => exact absurd h.symm (formatInt_ne_nil z)
  | some w =>
    cases y with
    | none => exact absurd h (formatInt_ne_nil w)
    | some z => exact congrArg some (formatInt_injective h)

theorem parseOptionalMS_formatOptionalMS {t : Option Int}
    (h : ∀ z, t = some z → inInt64 z = true) :
    parseOptionalMS (formatOptionalMS t) = some t := by
  cases t with
  | none => rfl
  | some z =>
    simp [formatOptionalMS, parseOptionalMS, formatInt_ne_nil, parseInt64_formatInt (h z rfl)]

theorem parseRuleState_fits (h : Fits r b s) (hb : b < 2 ^ 64) :
    parseRuleState s.accessKeyID s.ruleID s.ruleRevision (formatInt s.usedNano)
      (formatOptionalMS s.windowStartedAtMS) (formatOptionalMS s.windowEndsAtMS)
      (digits s.windowGeneration) (digits s.snapshotVersion) = some s := by
  have hused : inInt64 s.usedNano = true :=
    inInt64_iff.mpr ⟨by have := h.used_nonneg; omega, h.used_lt⟩
  have hgen := h.generation
  have hver := h.version
  unfold parseRuleState
  rw [parseInt64_formatInt hused, parseOptionalMS_formatOptionalMS h.started,
    parseOptionalMS_formatOptionalMS h.ends, parseUint_digits (by omega),
    parseUint_digits (by omega)]

theorem parseHash_checkpointHash (h : Fits r b s) (hr : r < 2 ^ 64) (hb : b < 2 ^ 64) :
    parseHash (stateKey s) (checkpointHash s) = some s := by
  have hrev := h.revision
  unfold parseHash
  simp only [checkpointHash, parseUint_digits (show s.ruleRevision < 2 ^ 64 by omega)]
  exact parseRuleState_fits h hb

theorem checkpointHash_injective {s t : RestoredState} (hkey : stateKey s = stateKey t)
    (h : checkpointHash s = checkpointHash t) : s = t := by
  obtain ⟨a, i, rev, used, ws, we, gen, ver⟩ := s
  simp only [checkpointHash, QuotaHash.mk.injEq, digits_inj] at h
  obtain ⟨hrev, hused, hws, hwe, hgen, hver⟩ := h
  obtain ⟨rfl, rfl⟩ := hkey
  obtain rfl := formatOptionalMS_injective hws
  obtain rfl := formatOptionalMS_injective hwe
  obtain rfl := formatInt_injective hused
  subst hrev hgen hver
  rfl

theorem standing_checkpointHash {revision : Nat} (hs : s.ruleRevision ≤ 2 ^ 53)
    (hrev : revision ≤ 2 ^ 53) :
    standing (some (checkpointHash s)) (digits revision) =
      .ok (if revision < s.ruleRevision then .stale
        else if s.ruleRevision < revision then .missing else .current) := by
  unfold standing
  simp only [checkpointHash, tonumber_digits hs, tonumber_digits hrev, Nat.cast_lt]
  split
  · rfl
  · split <;> rfl

theorem openWindow_ok {nowMS ends : Int} {out : QuotaRow}
    (h : (openWindow (formatInt nowMS) (formatInt ends) (checkpointHash s)).2 = .ok out) :
    openWindow (formatInt nowMS) (formatInt ends) (checkpointHash s) =
      (some (checkpointHash (opened s nowMS ends)),
        .ok { used := digits 0, ws := formatInt nowMS, we := formatInt ends,
              gen := tostring ((s.windowGeneration + 1 : Nat) : Int),
              ver := tostring ((s.snapshotVersion + 1 : Nat) : Int), opened := true }) := by
  unfold openWindow at h ⊢
  dsimp only [checkpointHash] at h ⊢
  cases hgen : hincrby (digits s.windowGeneration) (digits 1) with
  | none => rw [hgen] at h; cases h
  | some gen =>
    rw [hgen] at h
    cases hver : hincrby (digits s.snapshotVersion) (digits 1) with
    | none => rw [hver] at h; cases h
    | some ver =>
      rw [hincrby_digits hgen, hincrby_digits hver]
      rfl

theorem openWindow_succeeds (h : Fits r b s) (hb : b + 1 < 2 ^ 63) (now ends : Text) :
    ∃ out, (openWindow now ends (checkpointHash s)).2 = .ok out := by
  have hgen := hincrby_counter (n := s.windowGeneration) (by have := h.generation; omega)
  have hver := hincrby_counter (n := s.snapshotVersion) (by have := h.version; omega)
  simp only [openWindow, checkpointHash, hgen, hver]
  exact ⟨_, rfl⟩

theorem initBody_checkpointHash {s checkpoint : RestoredState} (hs : s.ruleRevision ≤ 2 ^ 53)
    (hc : checkpoint.ruleRevision ≤ 2 ^ 53) :
    initBody (initArg checkpoint) (some (checkpointHash s)) =
      (some (checkpointHash (hydrated s checkpoint)), .ok ()) := by
  unfold initBody hydrated
  simp only [initArg, checkpointHash, tonumber_digits hs, tonumber_digits hc, Nat.cast_lt]
  split <;> rfl

theorem charged_ne (s : RestoredState) (used : Int) : charged s used ≠ s := by
  intro h
  have hver := congrArg RestoredState.snapshotVersion h
  simp [charged] at hver

variable {cost : Int}

theorem settled_of_full (h : overflows s cost) (hfull : s.usedNano = 2 ^ 63 - 1) :
    settled s cost = s := by
  rw [settled, if_pos h, if_pos hfull]

theorem settled_of_overflows (h : overflows s cost) (hfull : s.usedNano ≠ 2 ^ 63 - 1) :
    settled s cost = charged s (2 ^ 63 - 1) := by
  rw [settled, if_pos h, if_neg hfull]

theorem settled_of_not_overflows (h : ¬overflows s cost) :
    settled s cost = charged s (s.usedNano + cost) := by
  rw [settled, if_neg h]

theorem settled_cases (s : RestoredState) (cost : Int) :
    settled s cost = s ∨ ∃ used, settled s cost = charged s used := by
  unfold settled
  split
  · split
    · exact .inl rfl
    · exact .inr ⟨_, rfl⟩
  · exact .inr ⟨_, rfl⟩

theorem stateKey_settled (s : RestoredState) (cost : Int) :
    stateKey (settled s cost) = stateKey s := by
  rcases settled_cases s cost with h | ⟨used, h⟩
  · rw [h]
  · rw [h]
    rfl

theorem settled_revision (s : RestoredState) (cost : Int) :
    (settled s cost).ruleRevision = s.ruleRevision := by
  rcases settled_cases s cost with h | ⟨used, h⟩
  · rw [h]
  · rw [h]
    rfl

theorem settled_generation (s : RestoredState) (cost : Int) :
    (settled s cost).windowGeneration = s.windowGeneration := by
  rcases settled_cases s cost with h | ⟨used, h⟩
  · rw [h]
  · rw [h]
    rfl

theorem settled_version (s : RestoredState) (cost : Int) :
    settled s cost = s ∨ s.snapshotVersion < (settled s cost).snapshotVersion := by
  rcases settled_cases s cost with h | ⟨used, h⟩
  · exact .inl h
  · rw [h]
    exact .inr (Nat.lt_succ_self _)

theorem bumpVersion_checkpointHash (h : Fits r b s) (hb : b + 1 < 2 ^ 63) (used : Int)
    (saturated : Bool) :
    bumpVersion { checkpointHash s with used := formatInt used } saturated =
      (some (checkpointHash (charged s used)),
        .ok { saturated := saturated,
              change := some (digits s.ruleRevision,
                tostring ((s.snapshotVersion + 1 : Nat) : Int)) }) := by
  have hver := hincrby_counter (n := s.snapshotVersion) (by have := h.version; omega)
  simp only [bumpVersion, checkpointHash, hver]
  rfl

def changeOf (s : RestoredState) (cost : Int) : Option (Text × Text) :=
  if settled s cost = s then none
  else some (digits s.ruleRevision, tostring ((s.snapshotVersion + 1 : Nat) : Int))

def stillCurrent (rule : TicketRule) (s : RestoredState) : Prop :=
  rule.ruleRevision = s.ruleRevision ∧ rule.windowGeneration = s.windowGeneration

instance (rule : TicketRule) (s : RestoredState) : Decidable (stillCurrent rule s) :=
  inferInstanceAs (Decidable (_ ∧ _))

theorem changeOf_of_charged {used : Int} (h : settled s cost = charged s used) :
    changeOf s cost =
      some (digits s.ruleRevision, tostring ((s.snapshotVersion + 1 : Nat) : Int)) := by
  rw [changeOf, h, if_neg (charged_ne s used)]

theorem saturates_iff (h : Fits r b s) (hcost : inInt64 cost = true) :
    (isNegative (formatInt cost) = true ∨
      Decimal.cmp (checkpointHash s).used (formatInt (headroom cost)) = .gt) ↔
        overflows s cost := by
  obtain ⟨hlow, hhigh⟩ := inInt64_iff.mp hcost
  rw [isNegative_formatInt, decide_eq_true_iff]
  unfold overflows headroom
  rcases lt_or_ge cost 0 with hneg | hpos
  · simp [hneg]
  · have hroom : (if 0 < cost then (2 : Int) ^ 63 - 1 - cost else 2 ^ 63 - 1) =
        2 ^ 63 - 1 - cost := by
      split <;> omega
    rw [hroom]
    change (_ ∨ Decimal.cmp (formatInt s.usedNano) _ = _) ↔ _
    rw [cmp_formatInt h.used_nonneg (by omega), compare_gt_iff_gt]

variable {rule : TicketRule}

theorem completeBody_current {a : Nat} (h : Fits r b s) (hb : b + 1 < 2 ^ 63)
    (hcost : inInt64 cost = true) (hm : stillCurrent rule s) :
    completeBody (formatInt cost) (formatInt (headroom cost)) (completeArg a rule)
        (some (checkpointHash s)) =
      (some (checkpointHash (settled s cost)),
        .ok { saturated := decide (overflows s cost), change := changeOf s cost }) := by
  have hmax : formatInt (2 ^ 63 - 1) = maxUsed := rfl
  have hrow : tonumber (checkpointHash s).rev = tonumber (completeArg a rule).rev ∧
      (checkpointHash s).gen = (completeArg a rule).gen := by
    simp [checkpointHash, completeArg, hm.1, hm.2]
  simp only [completeBody, if_pos hrow]
  by_cases hover : overflows s cost
  · rw [if_pos ((saturates_iff h hcost).mpr hover), decide_eq_true hover]
    by_cases hfull : s.usedNano = 2 ^ 63 - 1
    · have hused : (checkpointHash s).used = maxUsed := by
        rw [← hmax, ← hfull]
        rfl
      have hsame := settled_of_full hover hfull
      rw [if_neg (not_not_intro hused), changeOf, if_pos hsame, hsame]
    · have hused : (checkpointHash s).used ≠ maxUsed := by
        intro he
        exact hfull (formatInt_injective he)
      have hval := settled_of_overflows hover hfull
      rw [if_pos hused, ← hmax, bumpVersion_checkpointHash h hb, changeOf_of_charged hval, hval]
  · rw [if_neg (fun hx => hover ((saturates_iff h hcost).mp hx)), decide_eq_false hover]
    have hval := settled_of_not_overflows hover
    have hinc : hincrby (checkpointHash s).used (formatInt cost) = some (s.usedNano + cost) := by
      have hused0 := h.used_nonneg
      unfold overflows at hover
      exact hincrby_formatInt (inInt64_iff.mpr (by omega)) hcost (inInt64_iff.mpr (by omega))
    simp only [hinc]
    rw [bumpVersion_checkpointHash h hb, changeOf_of_charged hval, hval]

theorem completeBody_outdated {a : Nat} {cost headroom : Text} (hs : s.ruleRevision ≤ 2 ^ 53)
    (hrule : rule.ruleRevision ≤ 2 ^ 53) (hm : ¬ stillCurrent rule s) :
    completeBody cost headroom (completeArg a rule) (some (checkpointHash s)) =
      (some (checkpointHash s), .ok { saturated := false, change := none }) := by
  have hrow : ¬ (tonumber (checkpointHash s).rev = tonumber (completeArg a rule).rev ∧
      (checkpointHash s).gen = (completeArg a rule).gen) := by
    rintro ⟨hrev, hgen⟩
    simp only [checkpointHash, completeArg, tonumber_digits hs, tonumber_digits hrule,
      Option.some.injEq, Nat.cast_inj, digits_inj] at hrev hgen
    exact hm ⟨hrev.symm, hgen.symm⟩
  simp only [completeBody, if_neg hrow]

end EchoJoyGateway.Quota
