import EchoJoyGateway.Lib.LuaNumber
import EchoJoyGateway.Lib.Redis
import EchoJoyGateway.State.Registry

/-!
# Credential health in Redis

One hash a credential, changed only by `credentialHealthScript`, and the Go side
of `internal/cluster/credential_health.go` that calls it and decodes the hash it
returns. The lifetime of the key and the event published to the peers have no
part in the record.
-/

namespace EchoJoyGateway.Health

open Clock Decimal LuaNumber Redis State

namespace Field

def ep : Text := "ep".toList
def ver : Text := "ver".toList
def idg : Text := "idg".toList
def cd : Text := "cd".toList
def bl : Text := "bl".toList
def fc : Text := "fc".toList
def fg : Text := "fg".toList
def mg : Text := "mg".toList
def auth : Text := "auth".toList
def asv : Text := "asv".toList

def model (name : Text) : Text := 'm' :: ':' :: name

/-- `string.sub(field, 1, 2) == 'm:'`. -/
def isModel : Text → Bool
  | 'm' :: ':' :: _ => true
  | _ => false

end Field

def one : Text := digits 1

inductive HealthOp where
  | cooldown (deadline expected : Text)
  | fail (threshold : Text)
  | clearFailure
  | modelCooldown (model deadline now generation : Text)
  | restore (runtime models : Text)
  | recoverIfMatch (generation cooldown : Text)
  | clearCooldownIfMatch (deadline : Text)
  | auth (state secretVersion epoch version : Text)

structure Verdict where
  accepted : Bool
  changed : Bool
  became : Bool
  mutated : Bool
  deriving DecidableEq

def accept (mutated changed : Bool) : Verdict := ⟨true, changed, false, mutated⟩

variable (h : Hash) (mutated : Bool)

def reject : Verdict := ⟨false, false, false, mutated⟩

abbrev Outcome := Except ScriptError Verdict × Hash

variable (field : Text) (r : CredentialRegistry)

/-- The Lua function `num`. -/
def num : Option Int := tonumber (counter h field)

def clearModelCooldowns : Hash := hdel h (h.keys.filter Field.isModel)

/-- The record that the operation finds: a new one, one reset for another
identity, or the stored one. -/
def openRecord (idg epoch : Text) : Hash × Bool :=
  match h.lookup Field.ep with
  | none =>
    (((((h.insert Field.ep epoch).insert Field.ver (digits 0)).insert Field.idg idg).insert
      Field.fg (digits 0)).insert Field.mg (digits 0), true)
  | some _ =>
    if h.lookup Field.idg ≠ some idg then
      let h := hdel (clearModelCooldowns h) [Field.cd, Field.bl, Field.fc, Field.auth, Field.asv]
      (((h.insert Field.idg idg).insert Field.fg (digits 0)).insert Field.mg (digits 0), true)
    else (h, false)

def cooldownOp (deadline expected : Text) : Outcome :=
  if expected ≠ [] ∧ (h.lookup Field.asv).isSome ∧ h.lookup Field.asv ≠ some expected then
    (.ok (reject mutated), h)
  else
    match tonumber deadline, num h Field.cd with
    | some deadlineMS, some current =>
      if current < deadlineMS then (.ok (accept mutated true), h.insert Field.cd deadline)
      else (.ok (accept mutated false), h)
    | _, _ => (.error .compareWithNil, h)

def failOp (threshold : Text) : Outcome :=
  match increment h Field.fc with
  | none => (.error .increment, h)
  | some (count, h) =>
    match increment h Field.fg with
    | none => (.error .increment, h)
    | some (_, h) =>
      match tonumber threshold with
      | none => (.error .compareWithNil, h)
      | some threshold =>
        if 0 < threshold ∧ threshold ≤ LuaNumber.round count ∧ h.lookup Field.bl ≠ some one then
          match increment (h.insert Field.bl one) Field.fg with
          | none => (.error .increment, h.insert Field.bl one)
          | some (_, h) => (.ok ⟨true, true, true, mutated⟩, h)
        else (.ok (accept mutated true), h)

def clearFailureOp : Outcome :=
  if num h Field.fc ≠ some 0 then
    match increment (hdel h [Field.fc]) Field.fg with
    | none => (.error .increment, hdel h [Field.fc])
    | some (_, h) => (.ok (accept mutated true), h)
  else (.ok (accept mutated false), h)

def pruneLoop (now : Option Int) (h : Hash) (mutated : Bool) :
    List (Text × Text) → Except ScriptError Bool × Hash
  | [] => (.ok mutated, h)
  | (field, value) :: rest =>
    if Field.isModel field then
      match tonumber value, now with
      | some deadline, some nowMS =>
        if deadline ≤ nowMS then pruneLoop now (h.erase field) true rest
        else pruneLoop now h mutated rest
      | _, _ => (.error .compareWithNil, h)
    else pruneLoop now h mutated rest

def hgetall : List (Text × Text) := h.entries.map fun item => (item.1, item.2)

def modelCooldownOp (model deadline now generation : Text) :
    Outcome :=
  if h.lookup Field.mg ≠ some generation then (.ok (reject mutated), h)
  else
    match pruneLoop (tonumber now) h mutated (hgetall h) with
    | (.error e, h) => (.error e, h)
    | (.ok mutated, h) =>
      match tonumber deadline, num h (Field.model model) with
      | some deadlineMS, some current =>
        if current < deadlineMS then
          (.ok (accept mutated true), h.insert (Field.model model) deadline)
        else (.ok (accept mutated false), h)
      | _, _ => (.error .compareWithNil, h)

def restoreModels (models : Text) : Outcome :=
  if models = one then
    match increment (clearModelCooldowns h) Field.mg with
    | none => (.error .increment, clearModelCooldowns h)
    | some (_, h) => (.ok (accept mutated true), h)
  else (.ok (accept mutated true), h)

def restoreOp (runtime models : Text) : Outcome :=
  if runtime = one then
    let h := hdel h [Field.cd, Field.bl, Field.fc]
    match increment h Field.fg with
    | none => (.error .increment, h)
    | some (_, h) => restoreModels h mutated models
  else restoreModels h mutated models

def recoverIfMatchOp (generation cooldown : Text) : Outcome :=
  if h.lookup Field.bl ≠ some one ∨ h.lookup Field.fg ≠ some generation ∨
      (cooldown ≠ [] ∧ num h Field.cd ≠ tonumber cooldown) then (.ok (reject mutated), h)
  else
    let h := if cooldown ≠ [] then hdel h [Field.cd] else h
    let h := hdel h [Field.bl, Field.fc]
    match increment h Field.fg with
    | none => (.error .increment, h)
    | some (_, h) => (.ok (accept mutated true), h)

def clearCooldownIfMatchOp (deadline : Text) : Outcome :=
  if num h Field.cd ≠ tonumber deadline then (.ok (reject mutated), h)
  else (.ok (accept mutated true), hdel h [Field.cd])

def writeAuth (state secretVersion : Text) : Outcome :=
  if h.lookup Field.auth ≠ some state ∨ h.lookup Field.asv ≠ some secretVersion then
    (.ok (accept true true), (h.insert Field.auth state).insert Field.asv secretVersion)
  else (.ok (accept true false), h)

def authOp (state secretVersion epoch version : Text) : Outcome :=
  if epoch ≠ [] ∧ (h.lookup Field.ep ≠ some epoch ∨ h.lookup Field.ver ≠ some version) then
    (.ok (reject mutated), h)
  else
    match h.lookup Field.asv with
    | none => writeAuth h state secretVersion
    | some stored =>
      match tonumber stored, tonumber secretVersion with
      | some current, some next =>
        if next < current then (.ok (reject mutated), h) else writeAuth h state secretVersion
      | _, _ => (.error .compareWithNil, h)

def runOp : HealthOp → Outcome
  | .cooldown deadline expected => cooldownOp h mutated deadline expected
  | .fail threshold => failOp h mutated threshold
  | .clearFailure => clearFailureOp h mutated
  | .modelCooldown model deadline now generation =>
    modelCooldownOp h mutated model deadline now generation
  | .restore runtime models => restoreOp h mutated runtime models
  | .recoverIfMatch generation cooldown => recoverIfMatchOp h mutated generation cooldown
  | .clearCooldownIfMatch deadline => clearCooldownIfMatchOp h mutated deadline
  | .auth state secretVersion epoch version => authOp h mutated state secretVersion epoch version

/-- The answer of the script and the hash it leaves; the answer carries the hash
too. -/
def credentialHealthScript (idg epoch : Text) (op : HealthOp) : Outcome :=
  match runOp (openRecord h idg epoch).1 (openRecord h idg epoch).2 op with
  | (.error e, h) => (.error e, h)
  | (.ok verdict, h) =>
    if verdict.changed || verdict.mutated then
      match increment h Field.ver with
      | none => (.error .increment, h)
      | some (_, h) => (.ok verdict, h)
    else (.ok verdict, h)

def formatHealthMS (t : Time) : Text := if isZero t then digits 0 else formatInt (unixMilli t)

def parseHealthMS (ms : Int) : Time := if ms = 0 then zeroTime else ofUnixMilli ms

def authStateOf (t : Text) : CredentialAuthState :=
  if t = [] then .unset
  else if t = "ready".toList then .ready
  else if t = "refreshing".toList then .refreshing
  else if t = "reauthorization_required".toList then .reauthorizationRequired
  else if t = "outcome_unknown".toList then .outcomeUnknown
  else .other (String.ofList t)

inductive DecodeError where
  | noEpoch
  | fields (names : List Text)
  deriving DecidableEq

def uintField : Option Nat :=
  match h.lookup field with
  | none => some 0
  | some value => parseUint 64 value

def msField : Option Time :=
  match h.lookup field with
  | none => some zeroTime
  | some value => (parseInt64 value).map parseHealthMS

def badFields : List Text :=
  ([Field.ver, Field.idg].filter fun field => (uintField h field).isNone) ++
    ([Field.cd].filter fun field => (msField h field).isNone) ++
    ([Field.fc, Field.fg, Field.mg, Field.asv].filter fun field => (uintField h field).isNone) ++
    ((h.keys.filter Field.isModel).filter fun field => (msField h field).isNone)

def decodeCredentialHealth :
    Except DecodeError CredentialRegistry.SharedCredentialHealth :=
  if h.keys = [] then .ok (.empty 0)
  else if (h.lookup Field.ep).getD [] = [] then .error .noEpoch
  else if badFields h ≠ [] then .error (.fields (badFields h))
  else .ok
    { epoch := String.ofList ((h.lookup Field.ep).getD [])
      version := (uintField h Field.ver).getD 0
      identityGeneration := (uintField h Field.idg).getD 0
      cooldownUntil := (msField h Field.cd).getD zeroTime
      blacklisted := h.lookup Field.bl == some one
      failureCount := Int.bmod ((uintField h Field.fc).getD 0) (2 ^ 64)
      failureGeneration := (uintField h Field.fg).getD 0
      modelCooldownGeneration := (uintField h Field.mg).getD 0
      modelCooldowns := fun name =>
        if (h.lookup (Field.model name.toList)).isSome then msField h (Field.model name.toList)
        else none
      authState := authStateOf ((h.lookup Field.auth).getD [])
      authSecretVersion := (uintField h Field.asv).getD 0 }

inductive HealthCall where
  | cooldownCredential (deadline : Time)
  | recordFailure (threshold : Int)
  | clearFailure
  | cooldownModel (model : String) (deadline now : Time)
  | restore (runtime modelCooldowns : Bool)
  | recoverIfMatch (cooldownUntil : Option Time)
  | clearCooldownIfMatch (expected : Time)

def formatFlag (flag : Bool) : Text := if flag then one else digits 0

/-- The deadline that a recovery asks for; no text for none. -/
def formatCooldown (cooldownUntil : Option Time) : Text :=
  match cooldownUntil with
  | none => []
  | some deadline => formatHealthMS deadline

def credentialMatchesRef (ref : CredentialRef) : Bool :=
  match r.entryLocked ref.id with
  | none => false
  | some entry => entry.status == .active && sameCredentialIdentity entry ref

/-- The operation that a call sends, or nothing if it answers by itself. -/
def HealthCall.op (ref : CredentialRef) : HealthCall → Option HealthOp
  | .cooldownCredential deadline => some (.cooldown (formatHealthMS deadline) [])
  | .recordFailure threshold => some (.fail (formatInt threshold))
  | .clearFailure => some .clearFailure
  | .cooldownModel model deadline now =>
    if model = "" ∨ trimSpace model ≠ model ∨ after deadline now = false then none
    else some (.modelCooldown model.toList (formatHealthMS deadline) (formatHealthMS now)
      (digits ref.modelCooldownGeneration))
  | .restore runtime modelCooldowns =>
    some (.restore (formatFlag runtime) (formatFlag modelCooldowns))
  | .recoverIfMatch cooldownUntil =>
    if credentialMatchesRef r ref = false then none
    else some (.recoverIfMatch (digits ref.failureGeneration) (formatCooldown cooldownUntil))
  | .clearCooldownIfMatch expected =>
    if isZero expected then none
    else some (.clearCooldownIfMatch (formatHealthMS expected))

structure SharedHealthResult where
  accepted : Bool
  changed : Bool
  becameBlacklisted : Bool
  deriving DecidableEq

/-- What a call answers, and the hash that it leaves. -/
def HealthCall.shared (ref : CredentialRef) (epoch : Text) (call : HealthCall) :
    Except ScriptError SharedHealthResult × Hash :=
  match call.op r ref with
  | none => (.ok ⟨false, false, false⟩, h)
  | some op =>
    match credentialHealthScript h (digits ref.identityGeneration) epoch op with
    | (.error e, h) => (.error e, h)
    | (.ok verdict, h) => (.ok ⟨verdict.accepted, verdict.changed, verdict.became⟩, h)

end EchoJoyGateway.Health
