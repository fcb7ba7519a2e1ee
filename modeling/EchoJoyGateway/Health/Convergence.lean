import EchoJoyGateway.Health.Refinement
import EchoJoyGateway.Health.Runs
import EchoJoyGateway.Lib.LatestWins
import Mathlib.Data.List.Induction

/-!
# Mirrors of one epoch converge

No field of a record changes without its version, so a version determines the record,
and a registry entry that takes records of its identity in any order ends with the
latest one.
-/

namespace EchoJoyGateway.Health

open Clock Decimal LatestWins LuaNumber Redis State CredentialRegistry List Option

variable {shown : CredentialEntry}

section Versions

variable {h : Hash} {mutated : Bool}

variable {h₁ : Hash}

theorem pruneLoop_idle {now : Option Int} {items : List (Text × Text)}
    (hloop : pruneLoop now h mutated items = (.ok false, h₁)) : mutated = false ∧ h₁ = h := by
  induction items generalizing h mutated with
  | nil =>
    obtain ⟨hmutated, rfl⟩ := Prod.mk.inj hloop
    exact ⟨Except.ok.inj hmutated, rfl⟩
  | cons item rest ih =>
    unfold pruneLoop at hloop
    split at hloop
    · split at hloop
      · split at hloop
        · cases (ih hloop).1
        · exact ih hloop
      · cases hloop
    · exact ih hloop

/-- An outcome that reports no change comes with the hash as it was. -/
def Truthful (h : Hash) (mutated : Bool) (outcome : Outcome) : Prop :=
  ∀ verdict, outcome.1 = .ok verdict → verdict.changed = false → verdict.mutated = false →
    mutated = false ∧ outcome.2 = h

theorem Truthful.of_error {e : ScriptError} : Truthful h mutated (.error e, h₁) := nofun

theorem Truthful.of_changed {accepted became mutated' : Bool} :
    Truthful h mutated (.ok ⟨accepted, true, became, mutated'⟩, h₁) := by
  intro verdict hok hchanged
  obtain rfl := Except.ok.inj hok
  cases hchanged

theorem Truthful.of_mutated {accepted changed became : Bool} :
    Truthful h mutated (.ok ⟨accepted, changed, became, true⟩, h₁) := by
  intro verdict hok _ hmutated
  obtain rfl := Except.ok.inj hok
  cases hmutated

theorem Truthful.of_kept {accepted changed became : Bool} :
    Truthful h mutated (.ok ⟨accepted, changed, became, mutated⟩, h) := by
  intro verdict hok _ hmutated
  obtain rfl := Except.ok.inj hok
  exact ⟨hmutated, rfl⟩

theorem modelCooldownOp_truthful (model deadline now generation : Text) :
    Truthful h mutated (modelCooldownOp h mutated model deadline now generation) := by
  unfold modelCooldownOp
  split
  · exact .of_kept
  · split
    · exact .of_error
    · rename_i pruned h₁ hloop
      split
      · split
        · exact .of_changed
        · intro verdict hok _ hmutated
          obtain rfl := Except.ok.inj hok
          obtain rfl : pruned = false := hmutated
          exact pruneLoop_idle hloop
      · exact .of_error

theorem restoreModels_truthful (h₁ : Hash) (models : Text) :
    Truthful h mutated (restoreModels h₁ mutated models) := by
  unfold restoreModels
  split
  · split
    · exact .of_error
    · exact .of_changed
  · exact .of_changed

theorem authOp_truthful (state secretVersion epoch version : Text) :
    Truthful h mutated (authOp h mutated state secretVersion epoch version) := by
  have hwrite : Truthful h mutated (writeAuth h state secretVersion) := by
    unfold writeAuth
    split
    · exact .of_changed
    · exact .of_mutated
  unfold authOp
  split
  · exact .of_kept
  · split
    · exact hwrite
    · split
      · split
        · exact .of_kept
        · exact hwrite
      · exact .of_error

theorem runOp_truthful (op : HealthOp) : Truthful h mutated (runOp h mutated op) := by
  cases op with
  | cooldown deadline expected =>
    change Truthful h mutated (cooldownOp h mutated deadline expected)
    unfold cooldownOp
    split
    · exact .of_kept
    · split
      · split
        · exact .of_changed
        · exact .of_kept
      · exact .of_error
  | fail threshold =>
    change Truthful h mutated (failOp h mutated threshold)
    unfold failOp
    split
    · exact .of_error
    · split
      · exact .of_error
      · split
        · exact .of_error
        · split
          · split
            · exact .of_error
            · exact .of_changed
          · exact .of_changed
  | clearFailure =>
    change Truthful h mutated (clearFailureOp h mutated)
    unfold clearFailureOp
    split
    · split
      · exact .of_error
      · exact .of_changed
    · exact .of_kept
  | modelCooldown model deadline now generation =>
    exact modelCooldownOp_truthful model deadline now generation
  | restore runtime models =>
    change Truthful h mutated (restoreOp h mutated runtime models)
    unfold restoreOp
    split
    · dsimp only
      split
      · exact .of_error
      · exact restoreModels_truthful _ models
    · exact restoreModels_truthful _ models
  | recoverIfMatch generation cooldown =>
    change Truthful h mutated (recoverIfMatchOp h mutated generation cooldown)
    unfold recoverIfMatchOp
    split
    · exact .of_kept
    · dsimp only
      split
      · exact .of_error
      · exact .of_changed
  | clearCooldownIfMatch deadline =>
    change Truthful h mutated (clearCooldownIfMatchOp h mutated deadline)
    unfold clearCooldownIfMatchOp
    split
    · exact .of_kept
    · exact .of_changed
  | auth state secretVersion epoch version =>
    exact authOp_truthful state secretVersion epoch version

open Health.Field (asv auth bl fc fg mg)

theorem openRecord_stored (hep : (h.lookup Field.ep).isSome = true) (idg epoch : Text) :
    (openRecord h idg epoch).1.lookup Field.ep = h.lookup Field.ep ∧
      (openRecord h idg epoch).1.lookup Field.ver = h.lookup Field.ver ∧
      ((openRecord h idg epoch).2 = false → (openRecord h idg epoch).1 = h) := by
  obtain ⟨stored, hstored⟩ := isSome_iff_exists.mp hep
  have hreset : ∀ field ∈ [Field.ep, Field.ver],
      ((((hdel (clearModelCooldowns h) [Field.cd, bl, fc, auth,
        asv]).insert Field.idg idg).insert fg (digits 0)).insert mg
          (digits 0)).lookup field = h.lookup field := by
    intro field hfield
    have hne : field ≠ Field.idg ∧ field ≠ fg ∧ field ≠ mg ∧
        field ∉ [Field.cd, bl, fc, auth, asv] ∧
        Field.isModel field = false := by
      revert field
      decide
    obtain ⟨hidg, hfg, hmg, hdropped, hmodel⟩ := hne
    rw [AList.lookup_insert_ne hmg, AList.lookup_insert_ne hfg, AList.lookup_insert_ne hidg,
      lookup_hdel, if_neg hdropped, lookup_clearModelCooldowns hmodel]
  unfold openRecord
  rw [hstored]
  dsimp only
  split
  · exact ⟨(hreset Field.ep (by decide)).trans hstored, hreset Field.ver (by decide), nofun⟩
  · exact ⟨hstored, rfl, fun _ => rfl⟩

theorem ScriptCall.version {call : ScriptCall} {verdict : Verdict}
    (hep : (h.lookup Field.ep).isSome = true) (hok : (call.run h).1 = .ok verdict) :
    (call.run h).2.lookup Field.ep = h.lookup Field.ep ∧
      ((call.run h).2 = h ∨ Climbs Field.ver h (call.run h).2) := by
  obtain ⟨hepoch, hversion, hsame⟩ := openRecord_stored hep call.idg call.epoch
  have hfields := @credentialHealthScript_runOp h call.idg call.epoch call.op
  refine ⟨?_, ?_⟩
  · exact (hfields.1 Field.ep (by decide)).trans
      ((lookup_runOp_fixed call.op (by decide)).trans hepoch)
  · have htruthful := @runOp_truthful (openRecord h call.idg call.epoch).1
      (openRecord h call.idg call.epoch).2 call.op
    have hver := @lookup_runOp_fixed (openRecord h call.idg call.epoch).1
      (openRecord h call.idg call.epoch).2 Field.ver call.op (by decide)
    unfold ScriptCall.run credentialHealthScript at hok ⊢
    cases hrun : runOp (openRecord h call.idg call.epoch).1 (openRecord h call.idg call.epoch).2
        call.op with
    | mk result h₁ =>
      rw [hrun] at hok hver htruthful
      cases result with
      | error e => cases hok
      | ok answer =>
        dsimp only at hok hver ⊢
        split
        · cases hnext : increment h₁ Field.ver with
          | none =>
            rename_i hbump
            rw [if_pos hbump, hnext] at hok
            cases hok
          | some pair =>
            exact .inr ((increment_eq_some hnext).2.of_lookup (hversion.symm.trans hver.symm) rfl)
        · rename_i hbump
          rw [Bool.or_eq_true, not_or, Bool.not_eq_true, Bool.not_eq_true] at hbump
          obtain ⟨hmutated, hkept⟩ := htruthful answer rfl hbump.1 hbump.2
          exact .inl (hkept.trans (hsame hmutated))

end Versions

section Runs

variable {h : Hash} {calls : List ScriptCall}

def Replies (h : Hash) (calls : List ScriptCall) : Prop :=
  ∀ before call rest, calls = before ++ call :: rest →
    ∃ verdict, (call.run (afterCalls h before)).1 = .ok verdict

theorem afterCalls_append (x y : List ScriptCall) :
    afterCalls h (x ++ y) = afterCalls (afterCalls h x) y := foldl_append

theorem Replies.nil : Replies h [] := by
  intro before call rest hsplit
  cases before <;> cases hsplit

theorem Replies.cons {call : ScriptCall} {verdict : Verdict} (hok : (call.run h).1 = .ok verdict)
    (hrest : Replies (call.run h).2 calls) : Replies h (call :: calls) := by
  intro before next rest hsplit
  cases before with
  | nil =>
    obtain ⟨rfl, -⟩ := List.cons.inj hsplit
    exact ⟨verdict, hok⟩
  | cons head before =>
    obtain ⟨rfl, htail⟩ := List.cons.inj hsplit
    exact hrest before next rest htail

theorem Replies.after {x y : List ScriptCall} (hreplies : Replies h (x ++ y)) :
    Replies (afterCalls h x) y := by
  intro before call rest hsplit
  have hwhole := hreplies (x ++ before) call rest (by rw [hsplit, append_assoc])
  rwa [afterCalls_append] at hwhole

theorem Replies.before {x y : List ScriptCall} (hreplies : Replies h (x ++ y)) : Replies h x :=
  fun before call rest hsplit =>
    hreplies before call (rest ++ y) (by rw [hsplit, append_assoc, cons_append])

theorem Replies.version (hep : (h.lookup Field.ep).isSome = true) (hreplies : Replies h calls) :
    afterCalls h calls = h ∨ Climbs Field.ver h (afterCalls h calls) := by
  induction calls generalizing h with
  | nil => exact .inl rfl
  | cons call calls ih =>
    obtain ⟨verdict, hok⟩ := hreplies [] call calls rfl
    obtain ⟨hepoch, hstep⟩ := call.version hep hok
    have hrest := @ih (call.run h).2 (by rw [hepoch]; exact hep) (hreplies.after (x := [call]))
    change afterCalls (call.run h).2 calls = h ∨
      Climbs Field.ver h (afterCalls (call.run h).2 calls)
    rcases hstep with hsame | hclimb
    · rw [hsame] at hrest ⊢
      exact hrest
    · rcases hrest with hsame | hclimb'
      · exact .inr (hsame.symm ▸ hclimb)
      · exact .inr (hclimb.trans hclimb')

/-- A record of the epoch that was published or read at some point of the run. -/
def Recorded (h : Hash) (calls : List ScriptCall) (epoch : Text)
    (record : SharedCredentialHealth) : Prop :=
  ∃ before rest, calls = before ++ rest ∧ (afterCalls h before).lookup Field.ep = some epoch ∧
    decodeCredentialHealth (afterCalls h before) = .ok record

variable {epoch : Text} {record : SharedCredentialHealth}

theorem Recorded.epoch_eq (hrecorded : Recorded h calls epoch record) :
    record.epoch = String.ofList epoch ∧ String.ofList epoch ≠ "" := by
  obtain ⟨before, rest, -, hep, hread⟩ := hrecorded
  have hkeys : (afterCalls h before).keys ≠ [] := by
    intro hnil
    have hmem : Field.ep ∈ (afterCalls h before).keys := AList.lookup_isSome.mp (by rw [hep]; rfl)
    rw [hnil] at hmem
    cases hmem
  unfold decodeCredentialHealth at hread
  rw [if_neg hkeys, hep] at hread
  split at hread
  · cases hread
  · rename_i hepoch
    split at hread
    · cases hread
    · obtain rfl := Except.ok.inj hread
      refine ⟨rfl, fun hnil => hepoch ?_⟩
      rw [← String.toList_ofList (l := epoch), hnil]
      rfl

theorem Replies.same_record {before mid : List ScriptCall} {record' : SharedCredentialHealth}
    (hreplies : Replies h (before ++ mid))
    (hep : ((afterCalls h before).lookup Field.ep).isSome = true)
    (hep' : ((afterCalls h (before ++ mid)).lookup Field.ep).isSome = true)
    (hread : decodeCredentialHealth (afterCalls h before) = .ok record)
    (hread' : decodeCredentialHealth (afterCalls h (before ++ mid)) = .ok record')
    (hversion : record.version = record'.version) : record = record' := by
  obtain ⟨-, hver⟩ := uintField_of_decode hep hread
  obtain ⟨-, hver'⟩ := uintField_of_decode hep' hread'
  rw [afterCalls_append] at hread' hver'
  rcases hreplies.after.version hep with hsame | hclimb
  · rw [hsame, hread] at hread'
    exact Except.ok.inj hread'
  · exact absurd hversion (ne_of_lt (uintField_lt_of_climbs hclimb hver hver'))

theorem Recorded.unique {record' : SharedCredentialHealth} (hreplies : Replies h calls)
    (hrecorded : Recorded h calls epoch record) (hrecorded' : Recorded h calls epoch record')
    (hversion : record.version = record'.version) :
    record = record' := by
  obtain ⟨before, rest, hsplit, hep, hread⟩ := hrecorded
  obtain ⟨before', rest', hsplit', hep', hread'⟩ := hrecorded'
  have hsome : ((afterCalls h before).lookup Field.ep).isSome = true := by rw [hep]; rfl
  have hsome' : ((afterCalls h before').lookup Field.ep).isSome = true := by rw [hep']; rfl
  rcases prefix_or_prefix_of_prefix ⟨rest, hsplit.symm⟩ ⟨rest', hsplit'.symm⟩ with
    ⟨mid, rfl⟩ | ⟨mid, rfl⟩
  · exact (hsplit' ▸ hreplies).before.same_record hsome hsome' hread hread' hversion
  · exact ((hsplit ▸ hreplies).before.same_record hsome' hsome hread' hread hversion.symm).symm

end Runs

section Mirroring

variable {entry : CredentialEntry} {health : SharedCredentialHealth}

def receive (entry : CredentialEntry) (health : SharedCredentialHealth) : CredentialEntry :=
  if health.epoch = "" then
    if entry.sharedEpoch = "" then entry
    else mirrorHealth entry (SharedCredentialHealth.empty entry.identityGeneration)
  else if health.identityGeneration ≠ entry.identityGeneration ∨
      (health.epoch = entry.sharedEpoch ∧ health.version < entry.sharedVersion) then entry
  else mirrorHealth entry health

def deliver (r : CredentialRegistry) (id : Nat)
    (deliveries : List (Time × SharedCredentialHealth)) : CredentialRegistry :=
  deliveries.foldl (fun r delivery => (r.applySharedHealth delivery.1 id delivery.2).2) r

theorem mirrorHealth_fixed :
    (mirrorHealth entry health).groupID = entry.groupID ∧
      (mirrorHealth entry health).identityGeneration = entry.identityGeneration ∧
      (mirrorHealth entry health).sharedEpoch = health.epoch ∧
      (mirrorHealth entry health).sharedVersion = health.version ∧
      Agrees health (mirrorHealth entry health) := by
  unfold mirrorHealth
  split
  · exact ⟨rfl, rfl, rfl, rfl, rfl, rfl, rfl, rfl, rfl, rfl⟩
  · exact ⟨rfl, rfl, rfl, rfl, rfl, rfl, rfl, rfl, rfl, rfl⟩

theorem mirrorHealth_again :
    mirrorHealth (mirrorHealth entry health) health = mirrorHealth entry health := by
  unfold mirrorHealth
  by_cases hauth : health.authState ≠ .unset ∧ health.authSecretVersion = entry.version ∧
      health.authState.valid = true
  · rw [if_pos hauth]
    refine (if_pos hauth).trans ?_
    unfold setEntryAuthStateLocked
    split <;> rfl
  · rw [if_neg hauth]
    exact if_neg hauth

variable {r : CredentialRegistry}

theorem Holds.receive {id : Nat} (h : Holds r id entry) (clock : Time)
    (health : SharedCredentialHealth) :
    Holds (r.applySharedHealth clock id health).2 id (Health.receive entry health) := by
  have hkeep : ∀ body : CredentialEntry → Bool × Edit, body entry = (false, .keep) →
      Holds (r.withEntry clock id false body).2 id entry := by
    intro body hbody
    obtain ⟨r', hr', hholds⟩ := h.withEntry clock .keep hbody rfl
    rw [hr']
    exact hholds
  have hsync : ∀ (body : CredentialEntry → Bool × Edit) (shown : SharedCredentialHealth),
      body entry = (true, .sync (mirrorHealth entry shown)) →
      Holds (r.withEntry clock id false body).2 id (mirrorHealth entry shown) := by
    intro body shown hbody
    obtain ⟨r', hr', hholds⟩ := h.withEntry clock (.sync (mirrorHealth entry shown)) hbody
      mirrorHealth_fixed.1
    rw [hr']
    exact hholds
  unfold CredentialRegistry.applySharedHealth Health.receive
  split
  · split
    · rename_i hlocal
      exact hkeep _ (if_pos hlocal)
    · rename_i hmirrored
      exact hsync _ _ (if_neg hmirrored)
  · split
    · rename_i hold
      exact hkeep _ (if_pos hold)
    · rename_i hnew
      exact hsync _ _ (if_neg hnew)

theorem Holds.deliver {id : Nat} (deliveries : List (Time × SharedCredentialHealth))
    (h : Holds r id entry) :
    Holds (Health.deliver r id deliveries) id
      ((deliveries.map Prod.snd).foldl Health.receive entry) := by
  induction deliveries generalizing r entry with
  | nil => exact h
  | cons delivery deliveries ih => exact ih (h.receive delivery.1 delivery.2)

/-- An entry that has taken the records: the first entry if none was for it, else one
that shows the latest of them. -/
def Tracks (entry shown : CredentialEntry) : Option SharedCredentialHealth → Prop
  | none => shown = entry
  | some health => shown.identityGeneration = entry.identityGeneration ∧
      ∃ before, shown = mirrorHealth before health

variable {epoch : String} {records : List SharedCredentialHealth}

theorem receive_eq (hepoch : epoch ≠ "") (hhealth : health.epoch = epoch) :
    receive shown health =
      if health.identityGeneration ≠ shown.identityGeneration ∨
        (health.epoch = shown.sharedEpoch ∧ health.version < shown.sharedVersion) then shown
      else mirrorHealth shown health := by
  unfold receive
  rw [if_neg (by rw [hhealth]; exact hepoch)]

def ofIdentity (generation : Nat) (records : List SharedCredentialHealth) :
    List SharedCredentialHealth :=
  records.filter fun health => decide (health.identityGeneration = generation)

theorem ofIdentity_append (generation : Nat) (records : List SharedCredentialHealth)
    (health : SharedCredentialHealth) :
    ofIdentity generation (records ++ [health]) =
      if health.identityGeneration = generation then ofIdentity generation records ++ [health]
      else ofIdentity generation records := by
  unfold ofIdentity
  rw [filter_append, filter_singleton]
  by_cases hsame : health.identityGeneration = generation
  · rw [if_pos hsame, decide_eq_true hsame, cond_true]
  · rw [if_neg hsame, decide_eq_false hsame, cond_false, append_nil]

theorem Tracks.receive {current : Option SharedCredentialHealth}
    (htracks : Tracks entry shown current) (hnew : entry.sharedEpoch ≠ epoch) (hepoch : epoch ≠ "")
    (hcurrent : ∀ other ∈ current, other.epoch = epoch) (hhealth : health.epoch = epoch) :
    Tracks entry (Health.receive shown health)
      (if health.identityGeneration = entry.identityGeneration then
        adopt SharedCredentialHealth.version current health else current) := by
  rw [receive_eq hepoch hhealth]
  have hidentity : shown.identityGeneration = entry.identityGeneration := by
    cases current with
    | none => rw [show shown = entry from htracks]
    | some other => exact htracks.1
  rw [hidentity]
  by_cases hsame : health.identityGeneration = entry.identityGeneration
  · rw [if_pos hsame]
    have hshows : Tracks entry (mirrorHealth shown health) (some health) :=
      ⟨mirrorHealth_fixed.2.1.trans hidentity, shown, rfl⟩
    cases current with
    | none =>
      obtain rfl : shown = entry := htracks
      rw [if_neg]
      · exact hshows
      · rintro (hother | hold)
        · exact hother hsame
        · exact hnew (hold.1.symm.trans hhealth)
    | some other =>
      obtain ⟨-, before, rfl⟩ := htracks
      have hother := hcurrent other rfl
      rw [mirrorHealth_fixed.2.2.1, mirrorHealth_fixed.2.2.2.1]
      unfold adopt
      dsimp only
      by_cases hold : health.version < other.version
      · rw [if_pos (.inr ⟨hhealth.trans hother.symm, hold⟩), if_pos hold]
        exact ⟨hidentity, before, rfl⟩
      · rw [if_neg hold, if_neg]
        · exact hshows
        · rintro (hdifferent | hless)
          · exact hdifferent hsame
          · exact hold hless.2
  · rw [if_neg hsame, if_pos (.inl hsame)]
    exact htracks

theorem receive_tracks (hepoch : epoch ≠ "") (hnew : entry.sharedEpoch ≠ epoch)
    (hrecords : ∀ health ∈ records, health.epoch = epoch) :
    Tracks entry (records.foldl receive entry)
      (latest SharedCredentialHealth.version (ofIdentity entry.identityGeneration records)) := by
  induction records using List.reverseRecOn with
  | nil => rfl
  | append_singleton records health ih =>
    have hhealth := hrecords health (mem_append_right _ (mem_singleton_self _))
    have htracks := ih fun other hother => hrecords other (mem_append_left _ hother)
    have hcurrent : ∀ other ∈ latest SharedCredentialHealth.version
        (ofIdentity entry.identityGeneration records), other.epoch = epoch := by
      intro other hother
      have hmem := (mem_filter.mp (latest_eq_some hother).1).1
      exact hrecords other (mem_append_left _ hmem)
    have hstep := htracks.receive hnew hepoch hcurrent hhealth
    rw [foldl_append, ofIdentity_append]
    split
    · rename_i hsame
      rw [if_pos hsame] at hstep
      rwa [latest_append]
    · rename_i hother
      rwa [if_neg hother] at hstep

theorem receive_identity :
    (receive shown health).identityGeneration = shown.identityGeneration := by
  unfold receive
  split
  · split
    · rfl
    · exact mirrorHealth_fixed.2.1
  · split
    · rfl
    · exact mirrorHealth_fixed.2.1

theorem foldl_receive_identity (records : List SharedCredentialHealth) :
    (records.foldl receive entry).identityGeneration = entry.identityGeneration := by
  induction records generalizing entry with
  | nil => rfl
  | cons health records ih => exact ih.trans receive_identity

theorem foldl_receive_foreign
    (hforeign : ∀ health ∈ records, health.epoch ≠ "" ∧
      health.identityGeneration ≠ entry.identityGeneration) :
    records.foldl receive entry = entry := by
  induction records with
  | nil => rfl
  | cons health records ih =>
    obtain ⟨hepoch, hother⟩ := hforeign health (.head _)
    have hfirst : receive entry health = entry := by
      rw [receive_eq hepoch rfl, if_pos (.inl hother)]
    rw [foldl_cons, hfirst]
    exact ih fun other hmem => hforeign other (.tail _ hmem)

theorem receive_version (hepoch : epoch ≠ "") (hhealth : health.epoch = epoch)
    (hshown : shown.sharedEpoch = epoch) :
    (receive shown health).sharedEpoch = epoch ∧
      shown.sharedVersion ≤ (receive shown health).sharedVersion := by
  rw [receive_eq hepoch hhealth]
  split
  · exact ⟨hshown, le_rfl⟩
  · rename_i happlies
    rw [mirrorHealth_fixed.2.2.1, mirrorHealth_fixed.2.2.2.1]
    refine ⟨hhealth, Nat.le_of_not_lt fun hold => happlies (.inr ⟨?_, hold⟩)⟩
    rw [hhealth, hshown]

end Mirroring

section Converging

variable {h : Hash} {calls : List ScriptCall} {epoch : Text} {r : CredentialRegistry} {id : Nat}
  {entry : CredentialEntry} {deliveries : List (Time × SharedCredentialHealth)}

/-- What a registry entry ends with that takes records of a run in some order. -/
structure Converges (h : Hash) (calls : List ScriptCall) (epoch : Text) (r : CredentialRegistry)
    (id : Nat) (entry : CredentialEntry) (deliveries : List (Time × SharedCredentialHealth)) :
    Prop where
  unique : ∀ record record', Recorded h calls epoch record → Recorded h calls epoch record' →
    record.version = record'.version → record = record'
  climbs : ∀ front delivery back, deliveries = front ++ delivery :: back →
    ∃ shown shown', Holds (deliver r id front) id shown ∧
      Holds (deliver r id (front ++ [delivery])) id shown' ∧
      (shown.sharedEpoch = String.ofList epoch → shown'.sharedEpoch = String.ofList epoch ∧
        shown.sharedVersion ≤ shown'.sharedVersion)
  latest : ∃ shown, Holds (deliver r id deliveries) id shown ∧
    shown.identityGeneration = entry.identityGeneration ∧
    ((∀ delivery ∈ deliveries, delivery.2.identityGeneration ≠ entry.identityGeneration) →
      shown = entry) ∧
    ∀ delivery ∈ deliveries, delivery.2.identityGeneration = entry.identityGeneration →
      (∀ other ∈ deliveries, other.2.identityGeneration = entry.identityGeneration →
        other.2.version ≤ delivery.2.version) → Agrees delivery.2 shown
  settled : ∀ front last back later rest,
    deliveries = front ++ last :: (back ++ later :: rest) →
    last.2.identityGeneration = entry.identityGeneration →
    (∀ record, Recorded h calls epoch record →
      record.identityGeneration = entry.identityGeneration → record.version ≤ last.2.version) →
    ∃ shown, Holds (deliver r id (front ++ last :: back)) id shown ∧
      Holds (deliver r id (front ++ last :: (back ++ [later]))) id shown

theorem shows_greatest {records : List SharedCredentialHealth} {last : SharedCredentialHealth}
    (hreplies : Replies h calls) (hnew : entry.sharedEpoch ≠ String.ofList epoch)
    (hrecords : ∀ health ∈ records, Recorded h calls epoch health) (hlast : last ∈ records)
    (hidentity : last.identityGeneration = entry.identityGeneration)
    (hgreatest : ∀ health ∈ records, health.identityGeneration = entry.identityGeneration →
      health.version ≤ last.version) :
    Tracks entry (records.foldl receive entry) (some last) := by
  have hepoch := (hrecords last hlast).epoch_eq.2
  have htracks := receive_tracks hepoch hnew fun health hhealth =>
    (hrecords health hhealth).epoch_eq.1
  have hmem : last ∈ ofIdentity entry.identityGeneration records :=
    mem_filter.mpr ⟨hlast, decide_eq_true hidentity⟩
  rwa [latest_eq_of_greatest hmem] at htracks
  · intro health hhealth
    obtain ⟨hin, hsame⟩ := mem_filter.mp hhealth
    exact hgreatest health hin (of_decide_eq_true hsame)
  · intro health hhealth hversion
    obtain ⟨hin, -⟩ := mem_filter.mp hhealth
    exact (hrecords health hin).unique hreplies (hrecords last hlast) hversion

theorem receive_settled {last later : SharedCredentialHealth} (hreplies : Replies h calls)
    (hlast : Recorded h calls epoch last) (hlater : Recorded h calls epoch later)
    (htracks : Tracks entry shown (some last))
    (hversion : later.identityGeneration = entry.identityGeneration →
      later.version ≤ last.version) : receive shown later = shown := by
  obtain ⟨hidentity, before, rfl⟩ := htracks
  rw [receive_eq hlater.epoch_eq.2 hlater.epoch_eq.1]
  split
  · rfl
  · rename_i happlies
    rw [not_or, not_not] at happlies
    obtain ⟨hsame, hnotOld⟩ := happlies
    rw [mirrorHealth_fixed.2.2.1, mirrorHealth_fixed.2.2.2.1, hlater.epoch_eq.1,
      hlast.epoch_eq.1] at hnotOld
    have hequal : later.version = last.version :=
      le_antisymm (hversion (hsame.trans hidentity))
        (Nat.le_of_not_lt fun hold => hnotOld ⟨rfl, hold⟩)
    rw [hlater.unique hreplies hlast hequal, mirrorHealth_again]

/-- The records of a run in which every call answers, delivered to an entry in any
order, repeated or lost, converge. -/
theorem mirrors_converge (hreplies : Replies h calls) (hholds : Holds r id entry)
    (hnew : entry.sharedEpoch ≠ String.ofList epoch)
    (hrecorded : ∀ delivery ∈ deliveries, Recorded h calls epoch delivery.2) :
    Converges h calls epoch r id entry deliveries := by
  have hrecords : ∀ part : List (Time × SharedCredentialHealth), part ⊆ deliveries →
      ∀ health ∈ part.map Prod.snd, Recorded h calls epoch health := by
    intro part hpart health hhealth
    obtain ⟨delivery, hdelivery, rfl⟩ := mem_map.mp hhealth
    exact hrecorded delivery (hpart hdelivery)
  constructor
  · exact fun record record' hrecord hrecord' => hrecord.unique hreplies hrecord'
  · intro front delivery back hsplit
    refine ⟨_, _, hholds.deliver front, hholds.deliver (front ++ [delivery]), fun hshown => ?_⟩
    have hdelivery := (hrecorded delivery (by
      rw [hsplit]
      exact mem_append_right _ (.head _))).epoch_eq
    rw [map_append, foldl_append]
    exact receive_version hdelivery.2 hdelivery.1 hshown
  · refine ⟨_, hholds.deliver deliveries, ?_, ?_, ?_⟩
    · exact foldl_receive_identity _
    · intro hforeign
      refine foldl_receive_foreign fun health hhealth => ?_
      obtain ⟨hsame, hepoch⟩ := (hrecords deliveries (fun _ h => h) health hhealth).epoch_eq
      obtain ⟨delivery, hdelivery, rfl⟩ := mem_map.mp hhealth
      exact ⟨hsame ▸ hepoch, hforeign delivery hdelivery⟩
    · intro delivery hdelivery hidentity hgreatest
      obtain ⟨-, before, hshown⟩ := shows_greatest hreplies hnew (hrecords deliveries fun _ h => h)
        (mem_map_of_mem hdelivery) hidentity (by
          intro health hhealth hsame
          obtain ⟨other, hother, rfl⟩ := mem_map.mp hhealth
          exact hgreatest other hother hsame)
      rw [hshown]
      exact mirrorHealth_fixed.2.2.2.2
  · intro front last back later rest hsplit hidentity hgreatest
    have hpart : front ++ last :: back ⊆ deliveries := by
      rw [hsplit]
      intro delivery hdelivery
      simp only [mem_append, mem_cons] at hdelivery ⊢
      rcases hdelivery with hfront | hlast | hback
      · exact .inl hfront
      · exact .inr (.inl hlast)
      · exact .inr (.inr (.inl hback))
    have hlater : Recorded h calls epoch later.2 := hrecorded later (by rw [hsplit]; simp)
    have hlast : Recorded h calls epoch last.2 := hrecorded last (by rw [hsplit]; simp)
    have htracks := shows_greatest hreplies hnew (hrecords _ hpart)
      (mem_map_of_mem (mem_append_right _ (.head _))) hidentity
      fun health hhealth => hgreatest health (hrecords _ hpart health hhealth)
    refine ⟨_, hholds.deliver (front ++ last :: back), ?_⟩
    have hholds' := hholds.deliver ((front ++ last :: back) ++ [later])
    rw [map_append, foldl_append] at hholds'
    generalize ((front ++ last :: back).map Prod.snd).foldl receive entry = shown at *
    have hkept : receive shown later.2 = shown := receive_settled hreplies hlast hlater htracks
      (hgreatest later.2 hlater)
    change Holds _ id (receive shown later.2) at hholds'
    rw [hkept, append_assoc] at hholds'
    exact hholds'

def cooledCalls : List ScriptCall := [coolingCall, ⟨digits 5, "f".toList, .fail (digits 2)⟩]

theorem cooledCalls_recorded (n : Fin 3) :
    ∃ record, Recorded blockedRecord cooledCalls "e".toList record ∧ record.version = n.val + 1 ∧
      record.identityGeneration = idleEntry.identityGeneration := by
  have hreads : ∀ n : Fin 3,
      (afterCalls blockedRecord (cooledCalls.take n)).lookup Field.ep = some "e".toList ∧
      (match decodeCredentialHealth (afterCalls blockedRecord (cooledCalls.take n)) with
        | .ok record => some (record.version, record.identityGeneration)
        | .error _ => none) = some (n.val + 1, 5) := by decide +kernel
  obtain ⟨hep, hversion⟩ := hreads n
  cases hread : decodeCredentialHealth (afterCalls blockedRecord (cooledCalls.take n)) with
  | error e => rw [hread] at hversion; cases hversion
  | ok record =>
    rw [hread] at hversion
    obtain ⟨hversion, hidentity⟩ := Prod.mk.inj (Option.some.inj hversion)
    exact ⟨record, ⟨_, _, (take_append_drop n _).symm, hep, hread⟩, hversion, hidentity⟩

/-- The last record comes first, again after the oldest, and then the one between them. -/
theorem mirrors_converge_cooling :
    ∃ oldest cooled last, oldest.version < cooled.version ∧ cooled.version < last.version ∧
      last.identityGeneration = idleEntry.identityGeneration ∧
      Converges blockedRecord cooledCalls "e".toList idleRegistry 7 idleEntry
        [(0, last), (1, oldest), (2, last), (3, cooled)] := by
  obtain ⟨oldest, holdest, hversion₀, -⟩ := cooledCalls_recorded 0
  obtain ⟨cooled, hcooled, hversion₁, -⟩ := cooledCalls_recorded 1
  obtain ⟨last, hlast, hversion₂, hidentity⟩ := cooledCalls_recorded 2
  have hreplies : Replies blockedRecord cooledCalls :=
    .cons (show _ = Except.ok ⟨true, true, false, false⟩ by decide +kernel)
      (.cons (show _ = Except.ok ⟨true, true, false, false⟩ by decide +kernel) .nil)
  refine ⟨oldest, cooled, last, by rw [hversion₀, hversion₁]; decide,
    by rw [hversion₁, hversion₂]; decide, hidentity,
    mirrors_converge hreplies idleRegistry_holds (by decide) ?_⟩
  simp only [forall_mem_cons]
  exact ⟨hlast, holdest, hlast, hcooled, nofun⟩

end Converging

section Overflow

def versionCall : ScriptCall := ⟨digits 5, "e".toList, .restore (digits 0) (digits 0)⟩

def versioned (n : Nat) : HealthState := { HealthState.fresh "e".toList 5 with version := n }

theorem versionCall_counts {h : Hash} {n : Nat} (hn : n + 1 < 2 ^ 63)
    (hopened : Encodes (openRecord h (digits 5) "e".toList).1 (versioned n)) :
    Encodes (versionCall.run h).2 (versioned (n + 1)) := by
  have hrun : ∀ (h : Hash) (mutated : Bool),
      runOp h mutated (.restore (digits 0) (digits 0)) = (.ok (accept mutated true), h) :=
    fun _ _ => rfl
  unfold ScriptCall.run credentialHealthScript versionCall
  rw [hrun]
  simp only [hopened.incrementVersion hn]
  exact hopened.setVersion (n + 1)

theorem encodes_versioned {n : Nat} (hn : n + 1 < 2 ^ 63) :
    Encodes (afterCalls ∅ (List.replicate (n + 1) versionCall)) (versioned (n + 1)) := by
  induction n with
  | zero => exact versionCall_counts hn (openRecord_fresh "e".toList 5)
  | succ n ih =>
    rw [replicate_succ', afterCalls_append]
    refine versionCall_counts hn ?_
    have henc := ih (by omega)
    have hopened := henc.openRecord "e".toList
    change openRecord _ (digits 5) _ = _ at hopened
    rw [hopened]
    exact henc

theorem versioned_readable {n cooldown : Nat} (hn : n < 2 ^ 63) (hcooldown : cooldown < 2 ^ 63) :
    { versioned n with cooldown := cooldown }.Readable where
  epoch := by
    change "e".toList ≠ []
    decide
  version := by
    change n < 2 ^ 64
    omega
  identity := by norm_num [versioned, HealthState.fresh]
  cooldown := hcooldown
  failures := by norm_num [versioned, HealthState.fresh]
  failureGeneration := by norm_num [versioned, HealthState.fresh]
  modelGeneration := by norm_num [versioned, HealthState.fresh]
  models := fun _ _ h => nomatch h

/-- At the greatest version a cooldown is written and its version is not. -/
theorem cooldown_at_greatest_version :
    ∃ record record' : SharedCredentialHealth,
      Recorded ∅ (List.replicate (2 ^ 63 - 1) versionCall ++ [coolingCall]) "e".toList record ∧
      Recorded ∅ (List.replicate (2 ^ 63 - 1) versionCall ++ [coolingCall]) "e".toList record' ∧
      record.version = record'.version ∧ record ≠ record' := by
  obtain ⟨n, hn⟩ : ∃ n : Nat, 2 ^ 63 - 1 = n + 1 := ⟨2 ^ 63 - 2, by norm_num⟩
  have henc := @encodes_versioned n (by omega)
  rw [hn]
  generalize hcalls : List.replicate (n + 1) versionCall = calls at henc
  have hcooled : (coolingCall.run (afterCalls ∅ calls)).2 =
      (afterCalls ∅ calls).insert Field.cd (digits 7) := by
    have hopened := henc.openRecord "f".toList
    change openRecord _ (digits 5) _ = _ at hopened
    have hcd : num (afterCalls ∅ calls) Field.cd = some 0 := by
      have hcounter : counter (afterCalls ∅ calls) Field.cd = digits 0 := henc .cd
      rw [num, hcounter]
      decide
    have hfull : increment ((afterCalls ∅ calls).insert Field.cd (digits 7)) Field.ver = none := by
      have hver : (afterCalls ∅ calls).lookup Field.ver = some (digits (n + 1)) := henc .ver
      have hgreatest : hincrby (digits (2 ^ 63 - 1)) (digits 1) = none := by decide +kernel
      rw [increment, counter, AList.lookup_insert_ne (by decide), hver, getD_some, ← hn, hgreatest]
    have hrun : runOp (afterCalls ∅ calls) false (.cooldown (digits 7) []) =
        (.ok (accept false true), (afterCalls ∅ calls).insert Field.cd (digits 7)) := by
      change cooldownOp _ _ _ _ = _
      rw [cooldownOp, if_neg (fun hand => hand.1 rfl), hcd]
      exact if_pos (by decide)
    unfold ScriptCall.run credentialHealthScript coolingCall
    rw [hopened]
    rw [hrun]
    simp only [accept, Bool.true_or, if_true, hfull]
  have henc' := henc.setCooldown 7
  rw [← hcooled] at henc'
  obtain ⟨record, hread, hdescribes⟩ :=
    henc.decode (@versioned_readable (n + 1) 0 (by omega) (by norm_num))
  obtain ⟨record', hread', hdescribes'⟩ :=
    henc'.decode (@versioned_readable (n + 1) 7 (by omega) (by norm_num))
  refine ⟨record, record', ⟨calls, [coolingCall], rfl, henc .ep, hread⟩,
    ⟨calls ++ [coolingCall], [], (append_nil _).symm, ?_, ?_⟩, ?_, ?_⟩
  · rw [afterCalls_append]
    exact henc' .ep
  · rw [afterCalls_append]
    exact hread'
  · have hver := (henc.uint_fields (@versioned_readable (n + 1) 0 (by omega) (by norm_num))).1
    have hver' := (henc'.uint_fields (@versioned_readable (n + 1) 7 (by omega) (by norm_num))).1
    have hep := isSome_iff_exists.mpr ⟨_, henc .ep⟩
    have hep' := isSome_iff_exists.mpr ⟨_, henc' .ep⟩
    rw [(uintField_of_decode hep hread).2] at hver
    rw [(uintField_of_decode hep' hread').2] at hver'
    exact (Option.some.inj hver).trans (Option.some.inj hver').symm
  · rintro rfl
    have hsame := hdescribes.cooldown.symm.trans hdescribes'.cooldown
    have hzero : (0 : Nat) = 7 := parseHealthMS_inj.mp hsame
    exact absurd hzero (by decide)

end Overflow

end EchoJoyGateway.Health
