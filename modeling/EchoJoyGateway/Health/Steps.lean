import EchoJoyGateway.Health.Record

/-!
# What each health operation does

The effect of a call on the health of a credential, and that the script has this
effect on the record that encodes it.
-/

namespace EchoJoyGateway.Health

open Clock Decimal LuaNumber Redis State List

def deadlineMS (t : Time) : Nat := if isZero t then 0 else (unixMilli t).toNat

/-- No deadline, or whole milliseconds after the Unix epoch that Lua holds
exactly. -/
def IsDeadline (t : Time) : Prop := ∃ n : Nat, n ≤ 2 ^ 53 ∧ t = parseHealthMS n

theorem deadlineMS_parseHealthMS (n : Nat) : deadlineMS (parseHealthMS n) = n := by
  unfold deadlineMS
  rw [isZero_parseHealthMS]
  rcases Nat.eq_zero_or_pos n with rfl | hn
  · rfl
  · rw [parseHealthMS_pos hn, unixMilli_ofUnixMilli]
    simp [show n ≠ 0 by omega]

variable {t : Time}

theorem IsDeadline.format (h : IsDeadline t) :
    formatHealthMS t = digits (deadlineMS t) := by
  obtain ⟨n, hn, rfl⟩ := h
  rw [formatHealthMS_parseHealthMS, deadlineMS_parseHealthMS]

theorem IsDeadline.parse (h : IsDeadline t) : parseHealthMS (deadlineMS t) = t := by
  obtain ⟨n, hn, rfl⟩ := h
  rw [deadlineMS_parseHealthMS]

theorem IsDeadline.le (h : IsDeadline t) : deadlineMS t ≤ 2 ^ 53 := by
  obtain ⟨n, hn, rfl⟩ := h
  rw [deadlineMS_parseHealthMS]
  exact hn

namespace HealthState

def reaches (s : HealthState) (threshold : Int) : Bool :=
  decide (0 < threshold ∧ threshold ≤ ((s.failures + 1 : Nat) : Int)) && !s.blacklisted

def recordFailure (s : HealthState) (threshold : Int) : HealthState :=
  if s.reaches threshold then s.fail.blacklist else s.fail

def forgetFailures (s : HealthState) : HealthState :=
  if s.failures = 0 then s else s.clearFailures

def restore (s : HealthState) (runtime models : Bool) : HealthState :=
  let s := if runtime then s.clearCooldown.recover else s
  if models then s.clearModels else s

def cooledUntil (s : HealthState) (cooldown : Option Time) : Bool :=
  cooldown.all fun deadline => decide (s.cooldown = deadlineMS deadline)

def recoverFrom (s : HealthState) (cooldown : Option Time) : HealthState :=
  if cooldown.isSome then s.clearCooldown.recover else s.recover

def modelUntil (s : HealthState) (name : String) : Nat := (s.models name).getD 0

def extendModel (s : HealthState) (name : String) (deadline : Nat) : HealthState :=
  if s.modelUntil name < deadline then s.coolModel name deadline else s

end HealthState

def refusal : SharedHealthResult := ⟨false, false, false⟩

/-- What a call does to the health of a credential and answers; `current` says
that the reference is still that of an active credential. -/
def HealthCall.effect (current : Bool) (ref : CredentialRef) (s : HealthState) :
    HealthCall → SharedHealthResult × HealthState
  | .cooldownCredential deadline =>
    (⟨true, decide (s.cooldown < deadlineMS deadline), false⟩, s.coolUntil (deadlineMS deadline))
  | .recordFailure threshold => (⟨true, true, s.reaches threshold⟩, s.recordFailure threshold)
  | .clearFailure => (⟨true, decide (s.failures ≠ 0), false⟩, s.forgetFailures)
  | .cooldownModel model deadline now =>
    if model = "" ∨ trimSpace model ≠ model ∨ after deadline now = false then (refusal, s)
    else if s.modelGeneration ≠ ref.modelCooldownGeneration then (refusal, s)
    else
      (⟨true, decide ((s.pruneModels now).modelUntil model < deadlineMS deadline), false⟩,
        (s.pruneModels now).extendModel model (deadlineMS deadline))
  | .restore runtime modelCooldowns => (⟨true, true, false⟩, s.restore runtime modelCooldowns)
  | .recoverIfMatch cooldownUntil =>
    if current && s.blacklisted && decide (s.failureGeneration = ref.failureGeneration) &&
        s.cooledUntil cooldownUntil then (⟨true, true, false⟩, s.recoverFrom cooldownUntil)
    else (refusal, s)
  | .clearCooldownIfMatch expected =>
    if isZero expected then (refusal, s)
    else if s.cooldown ≠ deadlineMS expected then (refusal, s)
    else (⟨true, true, false⟩, s.clearCooldown)

def HealthCall.Deadlines : HealthCall → Prop
  | .cooldownCredential deadline => IsDeadline deadline
  | .cooldownModel _ deadline _ => IsDeadline deadline
  | .recoverIfMatch cooldownUntil => ∀ deadline ∈ cooldownUntil, IsDeadline deadline
  | .clearCooldownIfMatch expected => IsDeadline expected
  | _ => True

section Readable

variable {s : HealthState} (hrange : s.InRange)

include hrange

theorem HealthState.InRange.readable : s.Readable where
  epoch := hrange.epoch
  version := by have := hrange.version; omega
  identity := hrange.identity
  cooldown := by have := hrange.cooldown; omega
  failures := by have := hrange.failures; omega
  failureGeneration := by have := hrange.failureGeneration; omega
  modelGeneration := by have := hrange.modelGeneration; omega
  models := fun name n hname => by have := hrange.models name n hname; omega

theorem HealthState.InRange.readable_recover : s.recover.Readable :=
  { hrange.readable with
    failures := by norm_num [HealthState.recover, HealthState.clearFailures]
    failureGeneration := by
      have := hrange.failureGeneration
      dsimp only [HealthState.recover, HealthState.clearFailures]
      omega }

omit hrange in
theorem HealthState.Readable.clearCooldown (h : s.Readable) : s.clearCooldown.Readable :=
  { h with cooldown := by norm_num [HealthState.clearCooldown] }

omit hrange in
theorem HealthState.Readable.clearModels (h : s.Readable)
    (hgeneration : s.modelGeneration + 1 < 2 ^ 64) : s.clearModels.Readable :=
  { h with
    modelGeneration := hgeneration
    models := nofun }

theorem HealthState.InRange.readable_recordFailure (threshold : Int) :
    (s.recordFailure threshold).Readable := by
  have hfailures := hrange.failures
  have hgeneration := hrange.failureGeneration
  unfold HealthState.recordFailure
  split
  · exact { hrange.readable with
      failures := by dsimp only [HealthState.blacklist, HealthState.fail]; omega
      failureGeneration := by dsimp only [HealthState.blacklist, HealthState.fail]; omega }
  · exact { hrange.readable with
      failures := by dsimp only [HealthState.fail]; omega
      failureGeneration := by dsimp only [HealthState.fail]; omega }

theorem HealthState.InRange.readable_forgetFailures : s.forgetFailures.Readable := by
  unfold HealthState.forgetFailures
  split
  · exact hrange.readable
  · exact { hrange.readable_recover with }

theorem HealthState.InRange.readable_restore (runtime models : Bool) :
    (s.restore runtime models).Readable := by
  have hgeneration : s.modelGeneration + 1 < 2 ^ 64 := hrange.modelGeneration.trans (by norm_num)
  have hrecover : s.clearCooldown.recover.Readable := hrange.readable_recover.clearCooldown
  cases runtime with
  | true =>
    cases models with
    | true => exact hrecover.clearModels hgeneration
    | false => exact hrecover
  | false =>
    cases models with
    | true => exact hrange.readable.clearModels hgeneration
    | false => exact hrange.readable

theorem HealthState.InRange.readable_extendModel (now : Time) (name : String) {n : Nat}
    (hn : n ≤ 2 ^ 53) : ((s.pruneModels now).extendModel name n).Readable := by
  have hpruned : (s.pruneModels now).Readable :=
    { hrange.readable with
      models := fun name n hname =>
        hrange.readable.models name n (Option.filter_eq_some_iff.mp hname).1 }
  unfold HealthState.extendModel
  split
  · refine { hpruned with models := fun other m hm => ?_ }
    rcases eq_or_ne other name with rfl | hne
    · dsimp only [HealthState.coolModel] at hm
      rw [Function.update_self, Option.some.injEq] at hm
      omega
    · dsimp only [HealthState.coolModel] at hm
      rw [Function.update_of_ne hne] at hm
      exact hpruned.models other m hm
  · exact hpruned

theorem HealthState.InRange.readable_effect (current : Bool) (ref : CredentialRef)
    {call : HealthCall} (hdeadlines : call.Deadlines) :
    (call.effect current ref s).2.Readable := by
  cases call with
  | cooldownCredential deadline =>
    have hcooldown := hrange.cooldown
    have hle := IsDeadline.le hdeadlines
    refine { hrange.readable with cooldown := ?_ }
    dsimp only [HealthCall.effect, HealthState.coolUntil]
    omega
  | recordFailure threshold => exact hrange.readable_recordFailure threshold
  | clearFailure => exact hrange.readable_forgetFailures
  | cooldownModel model deadline now =>
    unfold HealthCall.effect
    dsimp only
    split
    · exact hrange.readable
    · split
      · exact hrange.readable
      · exact hrange.readable_extendModel now model (IsDeadline.le hdeadlines)
  | restore runtime modelCooldowns => exact hrange.readable_restore runtime modelCooldowns
  | recoverIfMatch cooldownUntil =>
    unfold HealthCall.effect
    dsimp only
    split
    · unfold HealthState.recoverFrom
      split
      · exact hrange.readable_recover.clearCooldown
      · exact hrange.readable_recover
    · exact hrange.readable
  | clearCooldownIfMatch expected =>
    unfold HealthCall.effect
    dsimp only
    split
    · exact hrange.readable
    · split
      · exact hrange.readable
      · exact hrange.readable.clearCooldown

end Readable

section Operations

variable {h : Hash} {s : HealthState} (henc : Encodes h s) (hrange : s.InRange) (mutated : Bool)

theorem threshold_iff {threshold : Int} {count : Nat} (hcount : count < 2 ^ 53) :
    (0 < LuaNumber.round threshold ∧ LuaNumber.round threshold ≤ count) ↔
      0 < threshold ∧ threshold ≤ count := by
  rcases lt_or_ge (2 ^ 53) threshold with hbig | hle
  · have hround := le_round_of_lt hbig
    omega
  · rcases lt_or_ge threshold (-2 ^ 53) with hsmall | hge
    · have hround := round_neg_of_lt hsmall
      omega
    · rw [round_of_natAbs_le (by omega)]

include henc hrange

open Health.Field (bl cd fc fg mg)

theorem cooldownOp_spec {n : Nat} (hn : n ≤ 2 ^ 53) :
    ∃ h', cooldownOp h mutated (digits n) [] =
        (.ok (accept mutated (decide (s.cooldown < n))), h') ∧ Encodes h' (s.coolUntil n) := by
  unfold cooldownOp
  rw [tonumber_digits hn, henc.num_cooldown hrange]
  rcases Nat.lt_or_ge s.cooldown n with hlt | hge
  · refine ⟨h.insert cd (digits n), ?_, ?_⟩
    · simp [hlt]
    · have hmax : s.coolUntil n = { s with cooldown := n } := by
        rw [HealthState.coolUntil, Nat.max_eq_right hlt.le]
      rw [hmax]
      exact henc.setCooldown n
  · refine ⟨h, ?_, ?_⟩
    · simp [Nat.not_lt.mpr hge]
    · have hmax : s.coolUntil n = s := by
        rw [HealthState.coolUntil, Nat.max_eq_left hge]
      rw [hmax]
      exact henc

theorem failOp_spec (threshold : Int) :
    ∃ h', failOp h mutated (formatInt threshold) =
        (.ok ⟨true, true, s.reaches threshold, mutated⟩, h') ∧
      Encodes h' (s.recordFailure threshold) := by
  have hfailures := hrange.failures
  have hgeneration := hrange.failureGeneration
  have hcounted := henc.setFailures (s.failures + 1)
  have hfailed : Encodes _ s.fail := hcounted.setFailureGeneration (s.failureGeneration + 1)
  have htonumber : tonumber (formatInt threshold) = some (LuaNumber.round threshold) := by
    rw [tonumber, parseSigned_formatInt]
    rfl
  have hcount : LuaNumber.round ((s.failures + 1 : Nat) : Int) = ((s.failures + 1 : Nat) : Int) :=
    round_of_natAbs_le (by omega)
  have hreaches : (0 < LuaNumber.round threshold ∧
      LuaNumber.round threshold ≤ ((s.failures + 1 : Nat) : Int) ∧
      ((h.insert fc (digits (s.failures + 1))).insert fg
        (digits (s.failureGeneration + 1))).lookup bl ≠ some one) ↔
      s.reaches threshold = true := by
    have hbl : _ ↔ s.blacklisted = true := hfailed .bl
    rw [← and_assoc, threshold_iff (by omega)]
    unfold HealthState.reaches
    rw [Bool.and_eq_true, decide_eq_true_eq, Bool.not_eq_true', ← Bool.not_eq_true, ← hbl]
    rfl
  unfold failOp HealthState.recordFailure
  rw [henc.incrementFailures (by omega)]
  simp only [hcounted.incrementFailureGeneration (by dsimp only; omega), htonumber, hcount,
    hreaches]
  cases hreach : s.reaches threshold with
  | true =>
    have hlisted := hfailed.setBlacklisted
    have hincrement := hlisted.incrementFailureGeneration (by dsimp only [HealthState.fail]; omega)
    refine ⟨_, ?_, hlisted.setFailureGeneration (s.failureGeneration + 2)⟩
    rw [hincrement]
    rfl
  | false => exact ⟨_, rfl, hfailed⟩

theorem clearFailureOp_spec :
    ∃ h', clearFailureOp h mutated = (.ok (accept mutated (decide (s.failures ≠ 0))), h') ∧
      Encodes h' s.forgetFailures := by
  have hgeneration := hrange.failureGeneration
  unfold clearFailureOp HealthState.forgetFailures
  rw [henc.num_failures hrange]
  rcases Nat.eq_zero_or_pos s.failures with hzero | hpos
  · exact ⟨h, by simp [hzero], by rwa [if_pos hzero]⟩
  · have hne : s.failures ≠ 0 := by omega
    have hdropped := henc.dropFailures
    refine ⟨_, ?_, by rw [if_neg hne]; exact hdropped.setFailureGeneration _⟩
    have hincrement := hdropped.incrementFailureGeneration (by dsimp only; omega)
    rw [hdel_singleton, hincrement]
    simp [hne]

omit hrange in
theorem Encodes.clearModelCooldowns :
    Encodes (Health.clearModelCooldowns h) { s with models := fun _ => none } := by
  refine henc.dropModels (fun f hf => (mem_filter.mp hf).2) fun name => ?_
  have hlookup := henc.model name
  split
  · rfl
  · rename_i hmem
    have hkey : Field.model name.toList ∉ h.keys := fun hkey =>
      hmem (mem_filter.mpr ⟨hkey, Field.isModel_iff.mpr ⟨name, rfl⟩⟩)
    rw [AList.lookup_eq_none.mpr hkey] at hlookup
    exact (Option.map_eq_none_iff.mp hlookup.symm).symm

omit hrange in
theorem restoreModels_spec (hgeneration : s.modelGeneration + 1 < 2 ^ 63) (models : Bool) :
    ∃ h', restoreModels h mutated (formatFlag models) = (.ok (accept mutated true), h') ∧
      Encodes h' (if models then s.clearModels else s) := by
  unfold restoreModels
  cases models with
  | true =>
    have hcleared := henc.clearModelCooldowns
    refine ⟨_, ?_, hcleared.setModelGeneration (s.modelGeneration + 1)⟩
    rw [if_pos (show formatFlag true = one from rfl), hcleared.incrementModelGeneration hgeneration]
  | false => exact ⟨h, rfl, henc⟩

omit hrange in
theorem Encodes.recovered (hgeneration : s.failureGeneration + 1 < 2 ^ 63) :
    ∃ n h', increment (hdel h [bl, fc]) fg = some (n, h') ∧
      Encodes h' s.recover := by
  have hdropped := henc.dropBlacklisted.dropFailures
  exact ⟨_, _, hdropped.incrementFailureGeneration hgeneration,
    hdropped.setFailureGeneration (s.failureGeneration + 1)⟩

theorem restoreOp_spec (runtime models : Bool) :
    ∃ h', restoreOp h mutated (formatFlag runtime) (formatFlag models) =
        (.ok (accept mutated true), h') ∧ Encodes h' (s.restore runtime models) := by
  have hgeneration := hrange.failureGeneration
  unfold restoreOp HealthState.restore
  cases runtime with
  | true =>
    obtain ⟨n, h₁, hincrement, hrecovered⟩ :=
      henc.dropCooldown.recovered (by dsimp only [HealthState.clearCooldown]; omega)
    obtain ⟨h', hmodels, henc'⟩ :=
      restoreModels_spec hrecovered mutated hrange.modelGeneration models
    refine ⟨h', ?_, henc'⟩
    rw [hdel_cons]
    simp only [hincrement]
    exact hmodels
  | false => exact restoreModels_spec henc mutated hrange.modelGeneration models

theorem clearCooldownIfMatchOp_spec {n : Nat} (hn : n ≤ 2 ^ 53) :
    clearCooldownIfMatchOp h mutated (digits n) =
        (if s.cooldown ≠ n then (.ok (reject mutated), h)
          else (.ok (accept mutated true), h.erase cd)) := by
  unfold clearCooldownIfMatchOp
  rw [henc.num_cooldown hrange, tonumber_digits hn]
  simp only [ne_eq, Option.some.injEq, Nat.cast_inj]
  rfl

theorem cooldown_mismatch_iff {cooldown : Option Time}
    (hcooldown : ∀ deadline ∈ cooldown, IsDeadline deadline) :
    (formatCooldown cooldown ≠ [] ∧ num h cd ≠ tonumber (formatCooldown cooldown)) ↔
      s.cooledUntil cooldown = false := by
  cases cooldown with
  | none => exact iff_of_false (fun hand => hand.1 rfl) Bool.noConfusion
  | some deadline =>
    have hdeadline := hcooldown deadline rfl
    change formatHealthMS deadline ≠ [] ∧ num h cd ≠ tonumber (formatHealthMS deadline) ↔
      decide (s.cooldown = deadlineMS deadline) = false
    rw [hdeadline.format, tonumber_digits hdeadline.le, henc.num_cooldown hrange]
    simp [digits_ne_nil]

theorem recoverIfMatchOp_spec {generation : Nat} {cooldown : Option Time}
    (hcooldown : ∀ deadline ∈ cooldown, IsDeadline deadline) :
    ∃ h', recoverIfMatchOp h mutated (digits generation) (formatCooldown cooldown) =
        (.ok (if s.blacklisted && decide (s.failureGeneration = generation) &&
          s.cooledUntil cooldown then accept mutated true else reject mutated), h') ∧
      Encodes h' (if s.blacklisted && decide (s.failureGeneration = generation) &&
        s.cooledUntil cooldown then s.recoverFrom cooldown else s) := by
  have hgeneration := hrange.failureGeneration
  have hguard : (h.lookup bl ≠ some one ∨ h.lookup fg ≠ some (digits generation) ∨
      (formatCooldown cooldown ≠ [] ∧ num h cd ≠ tonumber (formatCooldown cooldown))) ↔
      (s.blacklisted && decide (s.failureGeneration = generation) &&
        s.cooledUntil cooldown) = false := by
    have hbl : h.lookup bl = some one ↔ s.blacklisted = true := henc .bl
    have hfg : h.lookup fg = some (digits s.failureGeneration) := henc .fg
    rw [cooldown_mismatch_iff henc hrange hcooldown, ne_eq, hbl, hfg, Bool.and_eq_false_iff,
      Bool.and_eq_false_iff, decide_eq_false_iff_not, or_assoc, Bool.not_eq_true, ne_eq,
      Option.some.injEq, digits_inj]
  unfold recoverIfMatchOp
  cases hmatch : s.blacklisted && decide (s.failureGeneration = generation) &&
      s.cooledUntil cooldown with
  | false => exact ⟨h, if_pos (hguard.mpr hmatch), henc⟩
  | true =>
    rw [if_neg (fun hor => by rw [hguard.mp hor] at hmatch; cases hmatch)]
    cases cooldown with
    | none =>
      obtain ⟨n, h', hincrement, henc'⟩ := henc.recovered (by omega)
      refine ⟨h', ?_, henc'⟩
      rw [if_neg (not_not.mpr (show formatCooldown none = [] from rfl))]
      simp only [hincrement]
      rfl
    | some deadline =>
      obtain ⟨n, h', hincrement, henc'⟩ :=
        henc.dropCooldown.recovered (by dsimp only [HealthState.clearCooldown]; omega)
      refine ⟨h', ?_, henc'⟩
      have hne : formatCooldown (some deadline) ≠ [] := by
        change formatHealthMS deadline ≠ []
        rw [(hcooldown deadline rfl).format]
        exact digits_ne_nil _
      rw [if_pos hne]
      simp only [hdel_singleton, hincrement]
      rfl

def expiredFields (now : Int) (items : List (Text × Text)) : List Text :=
  (items.filter fun item =>
    Field.isModel item.1 && (tonumber item.2).any fun deadline => decide (deadline ≤ now)).map
    Prod.fst

omit henc hrange in
theorem pruneLoop_spec (now : Int) (items : List (Text × Text))
    (hitems : ∀ item ∈ items, Field.isModel item.1 = true → (tonumber item.2).isSome = true)
    (h : Hash) (mutated : Bool) :
    ∃ mutated', pruneLoop (some now) h mutated items =
      (.ok mutated', hdel h (expiredFields now items)) := by
  induction items generalizing h mutated with
  | nil => exact ⟨mutated, rfl⟩
  | cons item rest ih =>
    have hrest := ih fun other hother => hitems other (.tail _ hother)
    obtain ⟨field, value⟩ := item
    unfold pruneLoop
    cases hmodel : Field.isModel field with
    | false =>
      obtain ⟨mutated', hrun⟩ := hrest h mutated
      exact ⟨mutated', by rw [hrun]; simp [expiredFields, hmodel]⟩
    | true =>
      obtain ⟨deadline, hdeadline⟩ := Option.isSome_iff_exists.mp (hitems _ (.head _) hmodel)
      rcases le_or_gt deadline now with hle | hgt
      · obtain ⟨mutated', hrun⟩ := hrest (h.erase field) true
        refine ⟨mutated', ?_⟩
        rw [hrun]
        simp [expiredFields, hmodel, hdeadline, hle, hdel]
      · obtain ⟨mutated', hrun⟩ := hrest h mutated
        refine ⟨mutated', ?_⟩
        rw [hrun]
        simp [expiredFields, hdeadline, not_le.mpr hgt]

omit henc hrange in
theorem mem_hgetall {field value : Text} :
    (field, value) ∈ hgetall h ↔ h.lookup field = some value := by
  unfold hgetall
  rw [mem_map]
  constructor
  · rintro ⟨item, hitem, heq⟩
    obtain ⟨rfl, rfl⟩ := Prod.mk.inj heq
    exact AList.mem_lookup_iff.mpr hitem
  · intro hlookup
    exact ⟨⟨field, value⟩, AList.mem_lookup_iff.mp hlookup, rfl⟩

variable {name : String}

theorem Encodes.tonumber_model {value : Text}
    (hvalue : h.lookup (Field.model name.toList) = some value) :
    ∃ n : Nat, s.models name = some n ∧ 0 < n ∧ tonumber value = some (n : Int) := by
  have hlookup := henc.model name
  rw [hlookup] at hvalue
  obtain ⟨n, hname, rfl⟩ := Option.map_eq_some_iff.mp hvalue
  obtain ⟨hpos, hle⟩ := hrange.models name n hname
  exact ⟨n, hname, hpos, tonumber_digits hle⟩

theorem Encodes.mem_expiredFields {z : Int} :
    Field.model name.toList ∈ expiredFields z (hgetall h) ↔
      ∃ n : Nat, s.models name = some n ∧ (n : Int) ≤ z := by
  have hlookup := henc.model name
  constructor
  · intro hmem
    obtain ⟨⟨field, value⟩, hitem, rfl⟩ := mem_map.mp hmem
    obtain ⟨hget, hexpired⟩ := mem_filter.mp hitem
    obtain ⟨n, hname, hpos, hnumber⟩ := henc.tonumber_model hrange (mem_hgetall.mp hget)
    simp only [hnumber, Option.any_some, Bool.and_eq_true, decide_eq_true_eq] at hexpired
    exact ⟨n, hname, hexpired.2⟩
  · rintro ⟨n, hname, hle⟩
    have hvalue : h.lookup (Field.model name.toList) = some (digits n) := by
      rw [hlookup, hname]
      rfl
    refine mem_map.mpr ⟨(Field.model name.toList, digits n), ?_, rfl⟩
    refine mem_filter.mpr ⟨mem_hgetall.mpr hvalue, ?_⟩
    have hmodel : Field.isModel (Field.model name.toList) = true := rfl
    simp [hmodel, tonumber_digits (hrange.models name n hname).2, hle]

theorem Encodes.pruned {now : Time} {z : Int}
    (hnow : ∀ n : Nat, 0 < n → (z < n ↔ now < parseHealthMS n)) :
    ∃ mutated' h', pruneLoop (some z) h mutated (hgetall h) = (.ok mutated', h') ∧
      Encodes h' (s.pruneModels now) := by
  have hitems : ∀ item ∈ hgetall h, Field.isModel item.1 = true →
      (tonumber item.2).isSome = true := by
    rintro ⟨field, value⟩ hitem hmodel
    obtain ⟨name, rfl⟩ := Field.isModel_iff.mp hmodel
    obtain ⟨n, hname, hpos, hnumber⟩ := henc.tonumber_model hrange (mem_hgetall.mp hitem)
    rw [hnumber]
    rfl
  obtain ⟨mutated', hrun⟩ := pruneLoop_spec z (hgetall h) hitems h mutated
  refine ⟨mutated', _, hrun, henc.dropModels ?_ ?_⟩
  · intro field hfield
    obtain ⟨item, hitem, rfl⟩ := mem_map.mp hfield
    exact (Bool.and_eq_true_iff.mp (mem_filter.mp hitem).2).1
  · intro name
    rw [if_congr (henc.mem_expiredFields hrange) rfl rfl]
    cases hname : s.models name with
    | none => simp
    | some n =>
      have hafter : after (parseHealthMS n) now = true ↔ ¬ (n : Int) ≤ z := by
        rw [after_iff, ← hnow n (hrange.models name n hname).1, not_le]
      simp only [Option.filter, Option.some.injEq, exists_eq_left']
      split
      · rename_i hpast
        rw [if_neg (hafter.mp hpast)]
      · rename_i hpast
        rw [if_pos (not_not.mp fun hnot => hpast (hafter.mpr hnot))]

omit hrange in
theorem Encodes.num_model (name : String) (hle : ∀ n, s.models name = some n → n ≤ 2 ^ 53) :
    num h (Field.model name.toList) = some ((s.modelUntil name : Nat) : Int) := by
  have hlookup := henc.model name
  unfold num counter HealthState.modelUntil
  rw [hlookup]
  cases hname : s.models name with
  | none => exact tonumber_digits (Nat.zero_le _)
  | some n => exact tonumber_digits (hle n hname)

omit henc in
theorem HealthState.InRange.pruned (now : Time) {n : Nat}
    (hname : (s.pruneModels now).models name = some n) : 0 < n ∧ n ≤ 2 ^ 53 :=
  hrange.models name n (Option.filter_eq_some_iff.mp hname).1

theorem modelCooldownOp_spec {n generation : Nat} {now : Time} (hn : n ≤ 2 ^ 53)
    (hnow : now < parseHealthMS n) :
    ∃ mutated' h', modelCooldownOp h mutated name.toList (digits n) (formatHealthMS now)
        (digits generation) =
        (.ok (if s.modelGeneration = generation then
          accept mutated' (decide ((s.pruneModels now).modelUntil name < n)) else
          reject mutated'), h') ∧
      Encodes h' (if s.modelGeneration = generation then (s.pruneModels now).extendModel name n
        else s) := by
  have hmg : h.lookup mg = some (digits s.modelGeneration) := henc .mg
  unfold modelCooldownOp
  rw [hmg]
  rcases eq_or_ne s.modelGeneration generation with heq | hne
  · obtain ⟨z, hz, hcompare⟩ := tonumber_formatHealthMS hn hnow
    obtain ⟨mutated', h₁, hloop, hpruned⟩ := henc.pruned hrange mutated hcompare
    have hcurrent := hpruned.num_model name fun m hm => (hrange.pruned now hm).2
    rw [if_neg (by simpa using heq), hz, hloop]
    simp only [tonumber_digits hn, hcurrent, if_pos heq, HealthState.extendModel]
    rcases Nat.lt_or_ge ((s.pruneModels now).modelUntil name) n with hlt | hge
    · refine ⟨mutated', _, ?_, by rw [if_pos hlt]; exact hpruned.setModel name n⟩
      rw [if_pos (Int.ofNat_lt.mpr hlt), decide_eq_true hlt]
    · refine ⟨mutated', h₁, ?_, by rwa [if_neg (Nat.not_lt.mpr hge)]⟩
      rw [if_neg (by omega), decide_eq_false (Nat.not_lt.mpr hge)]
  · refine ⟨mutated, h, ?_, ?_⟩
    · rw [if_pos (by simpa using hne), if_neg hne]
    · rwa [if_neg hne]

end Operations

/-- The script has answered and left the record of the state, under some version. -/
def Leaves (outcome : Except ScriptError SharedHealthResult × Hash)
    (answer : SharedHealthResult × HealthState) : Prop :=
  ∃ h version, outcome = (.ok answer.1, h) ∧ Encodes h { answer.2 with version := version } ∧
    version < 2 ^ 63

section Script

variable {h : Hash} {s : HealthState} (henc : Encodes h s) (hrange : s.InRange)

include henc hrange

omit hrange in
theorem Encodes.openRecord (epoch : Text) :
    Health.openRecord h (digits s.identityGeneration) epoch = (h, false) := by
  have hep : h.lookup Field.ep = some s.epoch := henc .ep
  have hidg : h.lookup Field.idg = some (digits s.identityGeneration) := henc .idg
  unfold Health.openRecord
  rw [hep, hidg]
  exact if_neg fun hne => hne rfl

variable {verdict : Verdict} {s' : HealthState}

/-- The script answers what the operation answers, and counts the version up if
anything was written. -/
theorem credentialHealthScript_spec (epoch : Text) {op : HealthOp} {h' : Hash}
    (hrun : runOp h false op = (.ok verdict, h')) (henc' : Encodes h' s')
    (hversion : s'.version = s.version) :
    ∃ h'' version, credentialHealthScript h (digits s.identityGeneration) epoch op =
        (.ok verdict, h'') ∧
      Encodes h'' { s' with version := version } ∧ version < 2 ^ 63 := by
  have hbound := hrange.version
  unfold credentialHealthScript
  rw [henc.openRecord, hrun]
  cases hwritten : verdict.changed || verdict.mutated with
  | true =>
    refine ⟨_, s'.version + 1, ?_, henc'.setVersion _, by omega⟩
    simp only [hwritten, if_true, henc'.incrementVersion (by omega)]
  | false =>
    refine ⟨h', s'.version, ?_, henc', by omega⟩
    simp only [hwritten, Bool.false_eq_true, if_false]

variable {ref : CredentialRef} (hidentity : s.identityGeneration = ref.identityGeneration)
  (r : CredentialRegistry) (epoch : Text)

include hidentity

variable {call : HealthCall}

open HealthCall (clearCooldownIfMatch cooldownModel recoverIfMatch shared)

theorem shared_of_runOp (op : HealthOp) {h' : Hash} (hop : call.op r ref = some op)
    (hrun : runOp h false op = (.ok verdict, h')) (henc' : Encodes h' s')
    (hversion : s'.version = s.version) :
    Leaves (call.shared h r ref epoch)
      (⟨verdict.accepted, verdict.changed, verdict.became⟩, s') := by
  obtain ⟨h'', version, hscript, henc'', hbound⟩ :=
    credentialHealthScript_spec henc hrange epoch hrun henc' hversion
  refine ⟨h'', version, ?_, henc'', hbound⟩
  unfold shared
  rw [hop, ← hidentity]
  simp only [hscript]

omit hidentity in
theorem shared_of_no_op (hop : call.op r ref = none) :
    Leaves (call.shared h r ref epoch) (refusal, s) := by
  have hbound := hrange.version
  refine ⟨h, s.version, ?_, henc, by omega⟩
  unfold shared
  rw [hop]
  rfl

theorem shared_cooldownModel {model : String} {deadline now : Time}
    (hdeadline : IsDeadline deadline) :
    Leaves ((cooldownModel model deadline now).shared h r ref epoch)
      ((cooldownModel model deadline now).effect (credentialMatchesRef r ref) ref s) := by
  by_cases hguard : model = "" ∨ trimSpace model ≠ model ∨ after deadline now = false
  · simp only [HealthCall.effect, if_pos hguard]
    exact shared_of_no_op henc hrange r epoch (if_pos hguard)
  · have hnow : now < deadline := by
      rw [← after_iff, ← Bool.not_eq_false]
      exact fun hafter => hguard (.inr (.inr hafter))
    rw [← hdeadline.parse] at hnow
    obtain ⟨mutated', h', hrun, henc'⟩ :=
      @modelCooldownOp_spec h s henc hrange false model _ ref.modelCooldownGeneration now
        hdeadline.le hnow
    rw [← hdeadline.format] at hrun
    have hop : (cooldownModel model deadline now).op r ref =
        some (.modelCooldown model.toList (formatHealthMS deadline) (formatHealthMS now)
          (digits ref.modelCooldownGeneration)) := if_neg hguard
    have hshared := shared_of_runOp henc hrange hidentity r epoch _ hop hrun henc' (by
      split
      · unfold HealthState.extendModel
        split <;> rfl
      · rfl)
    simp only [HealthCall.effect, if_neg hguard]
    rcases eq_or_ne s.modelGeneration ref.modelCooldownGeneration with heq | hne
    · rw [if_pos heq, if_pos heq] at hshared
      rw [if_neg (not_not.mpr heq)]
      exact hshared
    · rw [if_neg hne, if_neg hne] at hshared
      rw [if_pos hne]
      exact hshared

theorem shared_recoverIfMatch {cooldownUntil : Option Time}
    (hdeadline : ∀ deadline ∈ cooldownUntil, IsDeadline deadline) :
    Leaves ((recoverIfMatch cooldownUntil).shared h r ref epoch)
      ((recoverIfMatch cooldownUntil).effect (credentialMatchesRef r ref) ref s) := by
  cases hcurrent : credentialMatchesRef r ref with
  | false => exact shared_of_no_op henc hrange r epoch (if_pos hcurrent)
  | true =>
    obtain ⟨h', hrun, henc'⟩ := @recoverIfMatchOp_spec h s henc hrange false
      ref.failureGeneration cooldownUntil hdeadline
    have hop : (recoverIfMatch cooldownUntil).op r ref =
        some (.recoverIfMatch (digits ref.failureGeneration) (formatCooldown cooldownUntil)) :=
      if_neg (by rw [hcurrent]; exact Bool.noConfusion)
    have hshared := shared_of_runOp henc hrange hidentity r epoch _ hop hrun henc' (by
      split
      · unfold HealthState.recoverFrom
        split <;> rfl
      · rfl)
    simp only [HealthCall.effect, Bool.true_and]
    cases hmatch : s.blacklisted && decide (s.failureGeneration = ref.failureGeneration) &&
        s.cooledUntil cooldownUntil with
    | false =>
      rw [hmatch] at hshared
      exact hshared
    | true =>
      rw [hmatch] at hshared
      exact hshared

theorem shared_clearCooldownIfMatch {expected : Time} (hdeadline : IsDeadline expected) :
    Leaves ((clearCooldownIfMatch expected).shared h r ref epoch)
      ((clearCooldownIfMatch expected).effect (credentialMatchesRef r ref) ref s) := by
  cases hzero : isZero expected with
  | true =>
    simp only [HealthCall.effect, hzero]
    exact shared_of_no_op henc hrange r epoch (if_pos hzero)
  | false =>
    have hop : (clearCooldownIfMatch expected).op r ref =
        some (.clearCooldownIfMatch (formatHealthMS expected)) :=
      if_neg (by rw [hzero]; exact Bool.noConfusion)
    have hrun := clearCooldownIfMatchOp_spec henc hrange false hdeadline.le
    rw [← hdeadline.format] at hrun
    simp only [HealthCall.effect, hzero]
    rcases eq_or_ne s.cooldown (deadlineMS expected) with heq | hne
    · rw [if_neg (not_not.mpr heq)] at hrun ⊢
      exact shared_of_runOp henc hrange hidentity r epoch _ hop hrun henc.dropCooldown rfl
    · rw [if_pos hne] at hrun ⊢
      exact shared_of_runOp henc hrange hidentity r epoch _ hop hrun henc rfl

theorem shared_refines (hdeadlines : call.Deadlines) :
    Leaves (call.shared h r ref epoch) (call.effect (credentialMatchesRef r ref) ref s) := by
  cases call with
  | cooldownCredential deadline =>
    obtain ⟨h', hrun, henc'⟩ := cooldownOp_spec henc hrange false (IsDeadline.le hdeadlines)
    rw [← IsDeadline.format hdeadlines] at hrun
    exact shared_of_runOp henc hrange hidentity r epoch (.cooldown _ []) rfl hrun henc' rfl
  | recordFailure threshold =>
    obtain ⟨h', hrun, henc'⟩ := failOp_spec henc hrange false threshold
    refine shared_of_runOp henc hrange hidentity r epoch (.fail _) rfl hrun henc' ?_
    unfold HealthState.recordFailure
    split <;> rfl
  | clearFailure =>
    obtain ⟨h', hrun, henc'⟩ := clearFailureOp_spec henc hrange false
    refine shared_of_runOp henc hrange hidentity r epoch .clearFailure rfl hrun henc' ?_
    unfold HealthState.forgetFailures
    split <;> rfl
  | cooldownModel model deadline now =>
    exact shared_cooldownModel henc hrange hidentity r epoch hdeadlines
  | restore runtime modelCooldowns =>
    obtain ⟨h', hrun, henc'⟩ := restoreOp_spec henc hrange false runtime modelCooldowns
    refine shared_of_runOp henc hrange hidentity r epoch (.restore _ _) rfl hrun henc' ?_
    cases runtime <;> cases modelCooldowns <;> rfl
  | recoverIfMatch cooldownUntil =>
    exact shared_recoverIfMatch henc hrange hidentity r epoch hdeadlines
  | clearCooldownIfMatch expected =>
    exact shared_clearCooldownIfMatch henc hrange hidentity r epoch hdeadlines

end Script

end EchoJoyGateway.Health
