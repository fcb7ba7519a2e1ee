import EchoJoyGateway.Health.Record

/-!
# Runs of the health script

Which fields an operation can write, and what the generations and the version of
a record tell about a whole run: a field that decides about the blacklist never
changes without the failure generation, and nothing changes without the version.
-/

namespace EchoJoyGateway.Health

open Clock Decimal LuaNumber Redis State List

structure ScriptCall where
  idg : Text
  epoch : Text
  op : HealthOp

def ScriptCall.run (call : ScriptCall) (h : Hash) : Outcome :=
  credentialHealthScript h call.idg call.epoch call.op

def afterCalls (h : Hash) (calls : List ScriptCall) : Hash :=
  calls.foldl (fun h call => (call.run h).2) h

/-- The fields of a record, apart from those of the models, that an operation
writes. -/
def HealthOp.fields : HealthOp → List Text
  | .cooldown _ _ => [Field.cd]
  | .fail _ => [Field.fc, Field.fg, Field.bl]
  | .clearFailure => [Field.fc, Field.fg]
  | .modelCooldown _ _ _ _ => []
  | .restore _ _ => [Field.cd, Field.bl, Field.fc, Field.fg, Field.mg]
  | .recoverIfMatch _ _ => [Field.cd, Field.bl, Field.fc, Field.fg]
  | .clearCooldownIfMatch _ => [Field.cd]
  | .auth _ _ _ _ => [Field.auth, Field.asv]

open Health.Field (asv bl cd ep fc fg isModel mg)

theorem HealthOp.fields_subset (op : HealthOp) :
    op.fields ⊆ [cd, bl, fc, fg, mg, Field.auth, asv] := by
  cases op <;> simp only [HealthOp.fields] <;> decide

section Frames

variable {h : Hash} {mutated : Bool} {field : Text}

theorem lookup_clearModelCooldowns (hmodel : isModel field = false) :
    (clearModelCooldowns h).lookup field = h.lookup field := by
  unfold clearModelCooldowns
  rw [lookup_hdel, if_neg]
  intro hmem
  rw [(mem_filter.mp hmem).2] at hmodel
  cases hmodel

theorem lookup_cooldownOp (hne : field ≠ cd) (deadline expected : Text) :
    (cooldownOp h mutated deadline expected).2.lookup field = h.lookup field := by
  unfold cooldownOp
  split
  · rfl
  · split
    · split
      · exact AList.lookup_insert_ne hne
      · rfl
    · rfl

theorem lookup_failOp (hfc : field ≠ fc) (hfg : field ≠ fg) (hbl : field ≠ bl)
    (threshold : Text) : (failOp h mutated threshold).2.lookup field = h.lookup field := by
  unfold failOp
  cases hcount : increment h fc with
  | none => rfl
  | some pair =>
    obtain ⟨count, h₁⟩ := pair
    have h₁_same := increment_lookup hcount hfc
    dsimp only
    cases hgeneration : increment h₁ fg with
    | none => exact h₁_same
    | some pair =>
      obtain ⟨generation, h₂⟩ := pair
      have h₂_same := (increment_lookup hgeneration hfg).trans h₁_same
      dsimp only
      split
      · exact h₂_same
      · split
        · have h₃_same : (h₂.insert bl one).lookup field = h.lookup field :=
            (AList.lookup_insert_ne hbl).trans h₂_same
          cases hagain : increment (h₂.insert bl one) fg with
          | none => exact h₃_same
          | some pair => exact (increment_lookup hagain hfg).trans h₃_same
        · exact h₂_same

theorem lookup_clearFailureOp (hfc : field ≠ fc) (hfg : field ≠ fg) :
    (clearFailureOp h mutated).2.lookup field = h.lookup field := by
  have hdropped : (hdel h [fc]).lookup field = h.lookup field := AList.lookup_erase_ne hfc
  unfold clearFailureOp
  split
  · cases hgeneration : increment (hdel h [fc]) fg with
    | none => exact hdropped
    | some pair => exact (increment_lookup hgeneration hfg).trans hdropped
  · rfl

theorem lookup_pruneLoop (hmodel : isModel field = false) (now : Option Int)
    (items : List (Text × Text)) :
    (pruneLoop now h mutated items).2.lookup field = h.lookup field := by
  induction items generalizing h mutated with
  | nil => rfl
  | cons item rest ih =>
    unfold pruneLoop
    split
    · rename_i hf
      split
      · split
        · refine ih.trans (AList.lookup_erase_ne ?_)
          rintro rfl
          rw [hf] at hmodel
          cases hmodel
        · exact ih
      · rfl
    · exact ih

theorem lookup_modelCooldownOp (hmodel : isModel field = false)
    (model deadline now generation : Text) :
    (modelCooldownOp h mutated model deadline now generation).2.lookup field =
      h.lookup field := by
  have hne : field ≠ Field.model model := by
    rintro rfl
    cases hmodel
  unfold modelCooldownOp
  split
  · rfl
  · have hpruned := @lookup_pruneLoop h mutated field hmodel (tonumber now) (hgetall h)
    cases hloop : pruneLoop (tonumber now) h mutated (hgetall h) with
    | mk result h₁ =>
      rw [hloop] at hpruned
      cases result with
      | error e => exact hpruned
      | ok pruned =>
        dsimp only
        split
        · split
          · exact (AList.lookup_insert_ne hne).trans hpruned
          · exact hpruned
        · exact hpruned

theorem lookup_restoreModels (hmodel : isModel field = false) (hmg : field ≠ mg)
    (models : Text) : (restoreModels h mutated models).2.lookup field = h.lookup field := by
  unfold restoreModels
  split
  · have hcleared := @lookup_clearModelCooldowns h field hmodel
    cases hgeneration : increment (clearModelCooldowns h) mg with
    | none => exact hcleared
    | some pair => exact (increment_lookup hgeneration hmg).trans hcleared
  · rfl

theorem lookup_restoreOp (hmodel : isModel field = false)
    (hfields : field ∉ [cd, bl, fc, fg, mg]) (runtime models : Text) :
    (restoreOp h mutated runtime models).2.lookup field = h.lookup field := by
  simp only [mem_cons, not_mem_nil, or_false, not_or] at hfields
  obtain ⟨hcd, hbl, hfc, hfg, hmg⟩ := hfields
  unfold restoreOp
  split
  · have hdropped : (hdel h [cd, bl, fc]).lookup field = h.lookup field := by
      rw [lookup_hdel, if_neg (by simp [hcd, hbl, hfc])]
    dsimp only
    cases hgeneration : increment (hdel h [cd, bl, fc]) fg with
    | none => exact hdropped
    | some pair =>
      exact (lookup_restoreModels hmodel hmg models).trans
        ((increment_lookup hgeneration hfg).trans hdropped)
  · exact lookup_restoreModels hmodel hmg models

theorem lookup_recoverIfMatchOp
    (hfields : field ∉ [cd, bl, fc, fg]) (generation cooldown : Text) :
    (recoverIfMatchOp h mutated generation cooldown).2.lookup field = h.lookup field := by
  simp only [mem_cons, not_mem_nil, or_false, not_or] at hfields
  obtain ⟨hcd, hbl, hfc, hfg⟩ := hfields
  unfold recoverIfMatchOp
  split
  · rfl
  · generalize hcooled : (if cooldown ≠ [] then hdel h [cd] else h) = h₁
    have h₁_same : h₁.lookup field = h.lookup field := by
      rw [← hcooled]
      split
      · exact AList.lookup_erase_ne hcd
      · rfl
    have hdropped : (hdel h₁ [bl, fc]).lookup field = h.lookup field := by
      rw [lookup_hdel, if_neg (by simp [hbl, hfc]), h₁_same]
    dsimp only
    cases hgeneration : increment (hdel h₁ [bl, fc]) fg with
    | none => exact hdropped
    | some pair => exact (increment_lookup hgeneration hfg).trans hdropped

theorem lookup_authOp (hauth : field ≠ Field.auth) (hasv : field ≠ asv)
    (state secretVersion epoch version : Text) :
    (authOp h mutated state secretVersion epoch version).2.lookup field = h.lookup field := by
  have hwrite : (writeAuth h state secretVersion).2.lookup field = h.lookup field := by
    unfold writeAuth
    split
    · exact (AList.lookup_insert_ne hasv).trans (AList.lookup_insert_ne hauth)
    · rfl
  unfold authOp
  split
  · rfl
  · split
    · exact hwrite
    · split
      · split
        · rfl
        · exact hwrite
      · rfl

theorem lookup_runOp (op : HealthOp) (hmodel : isModel field = false)
    (hfields : field ∉ op.fields) : (runOp h mutated op).2.lookup field = h.lookup field := by
  cases op with
  | cooldown deadline expected =>
    exact lookup_cooldownOp (fun heq => hfields (mem_singleton.mpr heq)) deadline expected
  | fail threshold =>
    simp only [HealthOp.fields, mem_cons, not_mem_nil, or_false, not_or] at hfields
    exact lookup_failOp hfields.1 hfields.2.1 hfields.2.2 threshold
  | clearFailure =>
    simp only [HealthOp.fields, mem_cons, not_mem_nil, or_false, not_or] at hfields
    exact lookup_clearFailureOp hfields.1 hfields.2
  | modelCooldown model deadline now generation =>
    exact lookup_modelCooldownOp hmodel model deadline now generation
  | restore runtime models => exact lookup_restoreOp hmodel hfields runtime models
  | recoverIfMatch generation cooldown =>
    exact lookup_recoverIfMatchOp hfields generation cooldown
  | clearCooldownIfMatch deadline =>
    change (clearCooldownIfMatchOp h mutated deadline).2.lookup field = _
    unfold clearCooldownIfMatchOp
    split
    · rfl
    · exact AList.lookup_erase_ne fun heq => hfields (mem_singleton.mpr heq)
  | auth state secretVersion epoch version =>
    simp only [HealthOp.fields, mem_cons, not_mem_nil, or_false, not_or] at hfields
    exact lookup_authOp hfields.1 hfields.2 state secretVersion epoch version

theorem lookup_runOp_fixed (op : HealthOp) (hfield : field ∈ [ep, Field.ver, Field.idg]) :
    (runOp h mutated op).2.lookup field = h.lookup field := by
  have hother : field ∉ [cd, bl, fc, fg, mg, Field.auth, asv] := by
    revert field
    decide
  have hmodel : isModel field = false := by
    revert field
    decide
  exact lookup_runOp op hmodel fun hmem => hother (op.fields_subset hmem)

theorem credentialHealthScript_runOp (idg epoch : Text) (op : HealthOp) :
    (∀ field ≠ Field.ver, (credentialHealthScript h idg epoch op).2.lookup field =
      (runOp (openRecord h idg epoch).1 (openRecord h idg epoch).2 op).2.lookup field) ∧
    ∀ verdict, (credentialHealthScript h idg epoch op).1 = .ok verdict →
      (runOp (openRecord h idg epoch).1 (openRecord h idg epoch).2 op).1 = .ok verdict := by
  unfold credentialHealthScript
  cases hrun : runOp (openRecord h idg epoch).1 (openRecord h idg epoch).2 op with
  | mk result h₁ =>
    cases result with
    | error e => exact ⟨fun _ _ => rfl, nofun⟩
    | ok verdict =>
      dsimp only
      split
      · cases hversion : increment h₁ Field.ver with
        | none => exact ⟨fun _ _ => rfl, nofun⟩
        | some pair => exact ⟨fun _ hne => increment_lookup hversion hne, fun _ hok => hok⟩
      · exact ⟨fun _ _ => rfl, fun _ hok => hok⟩

structure Opened (h : Hash) (idg : Text) : Prop where
  epoch : (h.lookup Field.ep).isSome = true
  identity : h.lookup Field.idg = some idg

theorem Opened.openRecord {idg : Text} (hopened : Opened h idg) (epoch : Text) :
    openRecord h idg epoch = (h, false) := by
  obtain ⟨stored, hstored⟩ := Option.isSome_iff_exists.mp hopened.epoch
  unfold Health.openRecord
  rw [hstored, hopened.identity]
  exact if_neg fun hne => hne rfl

theorem Opened.run {idg : Text} (hopened : Opened h idg) (epoch : Text) (op : HealthOp) :
    Opened (credentialHealthScript h idg epoch op).2 idg := by
  have hscript := (@credentialHealthScript_runOp h idg epoch op).1
  rw [hopened.openRecord] at hscript
  constructor
  · rw [hscript ep (by decide), lookup_runOp_fixed op (by decide)]
    exact hopened.epoch
  · rw [hscript Field.idg (by decide), lookup_runOp_fixed op (by decide)]
    exact hopened.identity

end Frames

section Reading

variable {h h' : Hash} {field : Text}

theorem parseUint_formatInt {bits n : Nat} {z : Int} (h : parseUint bits (formatInt z) = some n) :
    z = n := by
  unfold parseUint at h
  split at h
  · rename_i hdigits
    cases z with
    | ofNat m =>
      rw [Int.ofNat_eq_natCast, formatInt_natCast, ofDigits_digits] at h
      rw [Option.some.inj h]
      rfl
    | negSucc m => exact absurd hdigits.1 (by simp [formatInt, isDigits])
  · cases h

theorem uintField_of_redisInteger {z : Int} {n : Nat}
    (hz : redisInteger (counter h field) = some z) (hn : uintField h field = some n) : z = n := by
  unfold counter at hz
  unfold uintField at hn
  cases hlookup : h.lookup field with
  | none =>
    rw [hlookup] at hz
    rw [hlookup] at hn
    cases hn
    exact formatInt_injective (formatInt_of_redisInteger hz)
  | some value =>
    rw [hlookup, Option.getD_some] at hz
    rw [hlookup] at hn
    rw [← formatInt_of_redisInteger hz] at hn
    exact parseUint_formatInt hn

theorem uintField_lt {n : Nat} (hn : uintField h field = some n) : n < 2 ^ 64 := by
  unfold uintField at hn
  split at hn
  · cases hn
    decide
  · unfold parseUint at hn
    split at hn
    · rename_i hfits
      cases hn
      exact hfits.2
    · cases hn

theorem uintField_lt_of_climbs {m n : Nat} (hclimb : Climbs field h h')
    (hm : uintField h field = some m) (hn : uintField h' field = some n) : m < n := by
  obtain ⟨z, z', hz, hz', hlt⟩ := hclimb
  rw [uintField_of_redisInteger hz hm, uintField_of_redisInteger hz' hn] at hlt
  exact Int.ofNat_lt.mp hlt

theorem uintField_of_decode {record : CredentialRegistry.SharedCredentialHealth}
    (hep : (h.lookup ep).isSome = true) (hread : decodeCredentialHealth h = .ok record) :
    uintField h fg = some record.failureGeneration ∧
      uintField h Field.ver = some record.version := by
  have hkeys : h.keys ≠ [] := by
    intro hnil
    have hmem : ep ∈ h.keys := AList.lookup_isSome.mp hep
    rw [hnil] at hmem
    cases hmem
  unfold decodeCredentialHealth at hread
  rw [if_neg hkeys] at hread
  split at hread
  · cases hread
  · split at hread
    · cases hread
    · rename_i hgood
      rw [not_not] at hgood
      obtain rfl := Except.ok.inj hread
      have hsome : ∀ f, f ∈ [Field.ver, fg] → ∃ n, uintField h f = some n := by
        intro f hf
        rw [← Option.isSome_iff_exists]
        by_contra hnone
        have hbad : f ∈ badFields h := by
          simp only [mem_cons, not_mem_nil, or_false] at hf
          rcases hf with rfl | rfl <;> simp_all [badFields]
        rw [hgood] at hbad
        cases hbad
      obtain ⟨g, hg⟩ := hsome fg (by decide)
      obtain ⟨v, hv⟩ := hsome Field.ver (by decide)
      exact ⟨by rw [hg]; rfl, by rw [hv]; rfl⟩

end Reading

section Failures

variable {h : Hash} {mutated : Bool}

/-- The operations that count, forget or forgive failures when they answer so. -/
def HealthOp.settles : HealthOp → Verdict → Bool
  | .fail _, _ => true
  | .clearFailure, verdict => verdict.changed
  | .restore runtime _, _ => runtime == one
  | .recoverIfMatch _ _, verdict => verdict.accepted
  | _, _ => false

structure Steady (h : Hash) (op : HealthOp) (outcome : Outcome) : Prop where
  generation : outcome.2.lookup Field.fg = h.lookup Field.fg
  failures : outcome.2.lookup Field.fc = h.lookup Field.fc
  blacklisted : outcome.2.lookup Field.bl = h.lookup Field.bl
  idle : ∀ verdict, outcome.1 = .ok verdict → op.settles verdict = false

/-- An operation leaves the failures alone, counts the generation up, or could not
count it. -/
def Accounts (h : Hash) (op : HealthOp) (outcome : Outcome) : Prop :=
  Steady h op outcome ∨ Climbs Field.fg h outcome.2 ∨
    (increment h Field.fg = none ∧ outcome.2.lookup Field.fg = h.lookup Field.fg)

theorem failOp_accounts (threshold : Text) :
    Accounts h (.fail threshold) (failOp h mutated threshold) := by
  unfold failOp
  cases hcount : increment h fc with
  | none => exact .inl ⟨rfl, rfl, rfl, nofun⟩
  | some pair =>
    obtain ⟨count, h₁⟩ := pair
    have h₁_same : h₁.lookup fg = h.lookup fg := increment_lookup hcount (by decide)
    dsimp only
    cases hgeneration : increment h₁ fg with
    | none => exact .inr (.inr ⟨(increment_eq_none_congr h₁_same).mp hgeneration, h₁_same⟩)
    | some pair =>
      obtain ⟨generation, h₂⟩ := pair
      have hclimb : Climbs fg h h₂ := (increment_eq_some hgeneration).2.of_lookup h₁_same.symm rfl
      refine .inr (.inl ?_)
      dsimp only
      split
      · exact hclimb
      · split
        · have h₃_same : (h₂.insert bl one).lookup fg = h₂.lookup fg :=
            AList.lookup_insert_ne (by decide)
          cases hagain : increment (h₂.insert bl one) fg with
          | none => exact hclimb.of_lookup rfl h₃_same
          | some pair =>
            exact (hclimb.of_lookup rfl h₃_same).trans (increment_eq_some hagain).2
        · exact hclimb

theorem clearFailureOp_accounts : Accounts h .clearFailure (clearFailureOp h mutated) := by
  have hdropped : (hdel h [fc]).lookup fg = h.lookup fg := AList.lookup_erase_ne (by decide)
  unfold clearFailureOp
  split
  · cases hgeneration : increment (hdel h [fc]) fg with
    | none => exact .inr (.inr ⟨(increment_eq_none_congr hdropped).mp hgeneration, hdropped⟩)
    | some pair =>
      exact .inr (.inl ((increment_eq_some hgeneration).2.of_lookup hdropped.symm rfl))
  · refine .inl ⟨rfl, rfl, rfl, ?_⟩
    rintro verdict hok
    obtain rfl := Except.ok.inj hok
    rfl

theorem restoreOp_accounts (runtime models : Text) :
    Accounts h (.restore runtime models) (restoreOp h mutated runtime models) := by
  unfold restoreOp
  split
  · have hdropped : (hdel h [cd, bl, fc]).lookup fg =
        h.lookup fg := by
      rw [lookup_hdel, if_neg (by decide)]
    dsimp only
    cases hgeneration : increment (hdel h [cd, bl, fc]) fg with
    | none => exact .inr (.inr ⟨(increment_eq_none_congr hdropped).mp hgeneration, hdropped⟩)
    | some pair =>
      refine .inr (.inl ?_)
      exact (increment_eq_some hgeneration).2.of_lookup hdropped.symm
        (lookup_restoreModels (by decide) (by decide) models)
  · rename_i hruntime
    refine .inl ⟨?_, ?_, ?_, fun verdict _ => beq_eq_false_iff_ne.mpr hruntime⟩
    · exact lookup_restoreModels (by decide) (by decide) models
    · exact lookup_restoreModels (by decide) (by decide) models
    · exact lookup_restoreModels (by decide) (by decide) models

theorem recoverIfMatchOp_accounts (generation cooldown : Text) :
    Accounts h (.recoverIfMatch generation cooldown)
      (recoverIfMatchOp h mutated generation cooldown) := by
  unfold recoverIfMatchOp
  split
  · refine .inl ⟨rfl, rfl, rfl, ?_⟩
    rintro verdict hok
    obtain rfl := Except.ok.inj hok
    rfl
  · generalize hcooled : (if cooldown ≠ [] then hdel h [cd] else h) = h₁
    have hdropped : (hdel h₁ [bl, fc]).lookup fg = h.lookup fg := by
      rw [lookup_hdel, if_neg (by decide), ← hcooled]
      split
      · exact AList.lookup_erase_ne (by decide)
      · rfl
    dsimp only
    cases hgeneration : increment (hdel h₁ [bl, fc]) fg with
    | none => exact .inr (.inr ⟨(increment_eq_none_congr hdropped).mp hgeneration, hdropped⟩)
    | some pair =>
      exact .inr (.inl ((increment_eq_some hgeneration).2.of_lookup hdropped.symm rfl))

theorem runOp_accounts (op : HealthOp) : Accounts h op (runOp h mutated op) := by
  have hother : fg ∉ op.fields → fc ∉ op.fields → bl ∉ op.fields →
      (∀ verdict, op.settles verdict = false) → Accounts h op (runOp h mutated op) :=
    fun hfg hfc hbl hidle => .inl ⟨lookup_runOp op (by decide) hfg,
      lookup_runOp op (by decide) hfc, lookup_runOp op (by decide) hbl,
      fun verdict _ => hidle verdict⟩
  cases op with
  | fail threshold => exact failOp_accounts threshold
  | clearFailure => exact clearFailureOp_accounts
  | restore runtime models => exact restoreOp_accounts runtime models
  | recoverIfMatch generation cooldown => exact recoverIfMatchOp_accounts generation cooldown
  | modelCooldown model deadline now generation =>
    exact hother not_mem_nil not_mem_nil not_mem_nil fun _ => rfl
  | _ =>
    exact hother (by simp only [HealthOp.fields]; decide) (by simp only [HealthOp.fields]; decide)
      (by simp only [HealthOp.fields]; decide) fun _ => rfl

theorem Opened.accounts {idg : Text} (hopened : Opened h idg) (epoch : Text) (op : HealthOp) :
    Accounts h op (credentialHealthScript h idg epoch op) := by
  obtain ⟨hfield, hanswer⟩ := @credentialHealthScript_runOp h idg epoch op
  rw [hopened.openRecord] at hfield hanswer
  have hfg := hfield fg (by decide)
  rcases @runOp_accounts h false op with hsteady | hclimb | ⟨hstuck, hsame⟩
  · refine .inl ⟨hfg.trans hsteady.generation, ?_, ?_, fun verdict hok => ?_⟩
    · exact (hfield fc (by decide)).trans hsteady.failures
    · exact (hfield bl (by decide)).trans hsteady.blacklisted
    · exact hsteady.idle verdict (hanswer verdict hok)
  · exact .inr (.inl (hclimb.of_lookup rfl hfg))
  · exact .inr (.inr ⟨hstuck, hfg.trans hsame⟩)

theorem Opened.afterCalls {idg : Text} {calls : List ScriptCall} (hopened : Opened h idg)
    (hidentity : ∀ call ∈ calls, call.idg = idg) : Opened (Health.afterCalls h calls) idg := by
  induction calls generalizing h with
  | nil => exact hopened
  | cons first calls ih =>
    have hfirst : first.idg = idg := hidentity first (.head _)
    refine ih ?_ fun call hcall => hidentity call (.tail _ hcall)
    rw [← hfirst] at hopened ⊢
    exact hopened.run first.epoch first.op

theorem run_steady {idg : Text} (calls : List ScriptCall) (hopened : Opened h idg)
    (hidentity : ∀ call ∈ calls, call.idg = idg) :
    Rises fg h (afterCalls h calls) ∧
      ((afterCalls h calls).lookup fg = h.lookup fg → increment h fg ≠ none →
        ∀ before call rest, calls = before ++ call :: rest →
          Steady (afterCalls h before) call.op (call.run (afterCalls h before))) := by
  induction calls generalizing h with
  | nil =>
    refine ⟨.inl rfl, fun _ _ before call rest hsplit => ?_⟩
    cases before <;> cases hsplit
  | cons first calls ih =>
    have hfirst : first.idg = idg := hidentity first (.head _)
    have hopened₁ : Opened (first.run h).2 idg :=
      @Opened.afterCalls h idg [first] hopened fun call hcall => by
        rw [mem_singleton.mp hcall, hfirst]
    have haccounts : Accounts h first.op (first.run h) := by
      unfold ScriptCall.run
      rw [hfirst]
      exact hopened.accounts first.epoch first.op
    obtain ⟨hrises, hrest⟩ := ih hopened₁ fun call hcall =>
      hidentity call (.tail _ hcall)
    rcases haccounts with hsteady | hclimb | ⟨hstuck, hsame⟩
    · refine ⟨.trans (.inl hsteady.generation) hrises, ?_⟩
      intro hsame hcounts before call rest hsplit
      cases before with
      | nil =>
        obtain ⟨rfl, rfl⟩ := List.cons.inj hsplit
        exact hsteady
      | cons head before =>
        obtain ⟨rfl, htail⟩ := List.cons.inj hsplit
        refine hrest (hsame.trans hsteady.generation.symm) ?_ before call rest htail
        exact fun hnone => hcounts ((increment_eq_none_congr hsteady.generation).mp hnone)
    · refine ⟨.trans (.inr hclimb) hrises, fun hsame => ?_⟩
      have hall : Climbs fg h (afterCalls (first.run h).2 calls) := by
        rcases hrises with hequal | hclimb'
        · exact hclimb.of_lookup rfl hequal
        · exact hclimb.trans hclimb'
      exact absurd hsame hall.lookup_ne
    · exact ⟨.trans (.inl hsame) hrises, fun _ hcounts => absurd hstuck hcounts⟩

theorem recovery_accepted {idg epoch generation cooldown : Text} {verdict : Verdict}
    (hopened : Opened h idg)
    (hok : (credentialHealthScript h idg epoch (.recoverIfMatch generation cooldown)).1 =
      .ok verdict) (haccepted : verdict.accepted = true) :
    h.lookup fg = some generation ∧ increment h fg ≠ none := by
  have hrun := (credentialHealthScript_runOp idg epoch _).2 verdict hok
  rw [hopened.openRecord] at hrun
  change (recoverIfMatchOp h false generation cooldown).1 = .ok verdict at hrun
  unfold recoverIfMatchOp at hrun
  split at hrun
  · obtain rfl := Except.ok.inj hrun
    cases haccepted
  · rename_i hmatch
    simp only [not_or, not_not] at hmatch
    refine ⟨hmatch.2.1, fun hnone => ?_⟩
    generalize hcooled : (if cooldown ≠ [] then hdel h [cd] else h) = h₁ at hrun
    have hdropped : (hdel h₁ [bl, fc]).lookup fg = h.lookup fg := by
      rw [lookup_hdel, if_neg (by decide), ← hcooled]
      split
      · exact AList.lookup_erase_ne (by decide)
      · rfl
    dsimp only at hrun
    rw [(increment_eq_none_congr hdropped).mpr hnone] at hrun
    cases hrun

/-- A recovery that is accepted with a failure generation read earlier in the run
comes after calls that all left the failures and the blacklist alone. -/
theorem recovery_observes {idg epoch cooldown : Text} {calls : List ScriptCall}
    {record : CredentialRegistry.SharedCredentialHealth} {verdict : Verdict}
    (hopened : Opened h idg) (hidentity : ∀ call ∈ calls, call.idg = idg)
    (hread : decodeCredentialHealth h = .ok record)
    (hok : (credentialHealthScript (afterCalls h calls) idg epoch
      (.recoverIfMatch (digits record.failureGeneration) cooldown)).1 = .ok verdict)
    (haccepted : verdict.accepted = true) :
    ∀ before call rest, calls = before ++ call :: rest →
      Steady (afterCalls h before) call.op (call.run (afterCalls h before)) := by
  obtain ⟨hrises, hsteady⟩ := run_steady calls hopened hidentity
  obtain ⟨hlookup, hcounts⟩ := recovery_accepted (hopened.afterCalls hidentity) hok haccepted
  obtain ⟨hgeneration, -⟩ := uintField_of_decode hopened.epoch hread
  rcases hrises with hsame | hclimb
  · refine hsteady hsame fun hnone => hcounts ?_
    exact (increment_eq_none_congr hsame).mpr hnone
  · have hlater := uintField_of_lookup (uintField_lt hgeneration) hlookup
    exact absurd (uintField_lt_of_climbs hclimb hgeneration hlater) (Nat.lt_irrefl _)

/-- A record that one failure has blacklisted. -/
def blockedRecord : Hash := (credentialHealthScript ∅ (digits 5) "e".toList (.fail (digits 1))).2

def coolingCall : ScriptCall := ⟨digits 5, "f".toList, .cooldown (digits 7) []⟩

theorem recovery_observes_cooling :
    ∃ record, decodeCredentialHealth blockedRecord = .ok record ∧
      (credentialHealthScript (afterCalls blockedRecord [coolingCall]) (digits 5) "g".toList
        (.recoverIfMatch (digits record.failureGeneration) [])).1 = .ok ⟨true, true, false, false⟩ ∧
      Steady blockedRecord coolingCall.op (coolingCall.run blockedRecord) := by
  have hopened : Opened blockedRecord (digits 5) := ⟨by decide +kernel, by decide +kernel⟩
  have hgeneration : (match decodeCredentialHealth blockedRecord with
      | .ok record => some record.failureGeneration
      | .error _ => none) = some 2 := by decide +kernel
  cases hread : decodeCredentialHealth blockedRecord with
  | error e => rw [hread] at hgeneration; cases hgeneration
  | ok record =>
    rw [hread] at hgeneration
    have hok : (credentialHealthScript (afterCalls blockedRecord [coolingCall]) (digits 5)
        "g".toList (.recoverIfMatch (digits record.failureGeneration) [])).1 =
          .ok ⟨true, true, false, false⟩ := by
      rw [Option.some.inj hgeneration]
      decide +kernel
    refine ⟨record, rfl, hok, ?_⟩
    exact recovery_observes hopened (fun call hcall => by rw [mem_singleton.mp hcall]; rfl)
      hread hok rfl [] coolingCall [] rfl

end Failures

end EchoJoyGateway.Health
