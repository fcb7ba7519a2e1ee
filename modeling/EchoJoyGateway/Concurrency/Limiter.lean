import EchoJoyGateway.Concurrency.Slots

/-!
# The limiters of all instances on one Redis

A slot runs through the calls of `acquire` and its release; `AcquireRequest` drives two
of them. A call that fails on the instance may still reach the server, before or after
the failure is noticed. Renewals are computed from the held tokens and run later, or
never.
-/

namespace EchoJoyGateway.Concurrency

inductive Scope where
  | credential (id : Nat)
  | accessKey (id : Nat)
  | group (id : Nat)
  | global
  | proxyTest
  deriving DecidableEq

/-- Where a slot stands. A `pending` call has failed on the instance and not yet reached
the server. -/
inductive Phase where
  | asked
  | answered (taken : Bool)
  | full
  | failed (pending : Bool)
  | holding
  | dropped
  | removed
  | released
  | unreleased (pending : Bool)
  deriving DecidableEq

inductive Event where
  | proceed
  | lose
  deriving DecidableEq

/-- One step of a slot and what it does to the key of its scope. -/
def Phase.move (t : Instant) (limit : Int) (token : Token) (key : Option SlotKey) :
    Event → Phase → Option (Phase × Option SlotKey)
  | .proceed, .asked =>
    let (key', taken) := acquireSlot t limit token key
    some (.answered taken, key')
  | .proceed, .answered true => some (.holding, key)
  | .proceed, .answered false => some (.full, key)
  | .proceed, .failed true => some (.failed false, (acquireSlot t limit token key).1)
  | .proceed, .holding => some (.dropped, key)
  | .proceed, .dropped => some (.removed, releaseSlot t token key)
  | .proceed, .removed => some (.released, key)
  | .proceed, .unreleased true => some (.unreleased false, releaseSlot t token key)
  | .lose, .asked => some (.failed true, key)
  | .lose, .answered _ => some (.failed false, key)
  | .lose, .dropped => some (.unreleased true, key)
  | .lose, .removed => some (.unreleased false, key)
  | _, _ => none

structure Slot where
  node : Nat
  scope : Scope
  limit : Int
  phase : Phase

/-- The state of a `Concurrency` value: the held tokens by key, and whether the renewal
loop runs. -/
structure Limiter where
  held : List (Scope × List Token)
  renewing : Bool

namespace Limiter

variable (limiter : Limiter) (scope : Scope) (tokens : List Token)

def heldAt : List Token := (limiter.held.lookup scope).getD []

def put (held : List (Scope × List Token)) (scope : Scope) (tokens : List Token) :
    List (Scope × List Token) :=
  let rest := held.filter fun entry => entry.1 ≠ scope
  if tokens = [] then rest else (scope, tokens) :: rest

def hold (token : Token) : Limiter where
  held := put limiter.held scope (token :: (limiter.heldAt scope).erase token)
  renewing := true

def drop (token : Token) : Limiter :=
  { limiter with held := put limiter.held scope ((limiter.heldAt scope).erase token) }

/-- The first half of `renewHeld`: the scripts to run, or the end of the loop. -/
def renewHeld : Limiter × List (Scope × List Token) :=
  if limiter.held = [] then ({ limiter with renewing := false }, []) else (limiter, limiter.held)

def stillHeld : Nat := tokens.countP fun token => token ∈ limiter.heldAt scope

/-- The warning of `renewHeld` after its script replied. -/
def leaseLost (renewed : Nat) : Bool :=
  decide (renewed < limiter.stillHeld scope tokens)

end Limiter

inductive Stage where
  | start
  | awaitGlobal (global : Token)
  | startKey (global : Option Token)
  | awaitKey (global : Option Token) (key : Token)
  | giveBack (global key : Token)
  | rejected (global key : Option Token)
  | admitted (global key : Option Token)
  deriving DecidableEq

structure Request where
  node : Nat
  accessKeyID : Nat
  globalLimit : Int
  keyLimit : Int
  stage : Stage

inductive Action where
  | wait
  | goto (stage : Stage)
  | ask (scope : Scope) (limit : Int) (next : Token → Stage)
  | release (token : Token) (stage : Stage)

def Phase.acquired : Phase → Option Bool
  | .holding => some true
  | .full => some false
  | .failed _ => some false
  | _ => none

def Phase.releaseReturned : Phase → Bool
  | .released => true
  | .unreleased _ => true
  | _ => false

def Request.action (request : Request) (phase : Token → Option Phase) : Action :=
  match request.stage with
  | .start =>
    if request.globalLimit ≤ 0 then .goto (.startKey none)
    else .ask .global request.globalLimit .awaitGlobal
  | .awaitGlobal global =>
    match (phase global).bind Phase.acquired with
    | none => .wait
    | some true => .goto (.startKey (some global))
    | some false => .goto (.rejected (some global) none)
  | .startKey global =>
    if request.keyLimit ≤ 0 then .goto (.admitted global none)
    else .ask (.accessKey request.accessKeyID) request.keyLimit (.awaitKey global)
  | .awaitKey global key =>
    match (phase key).bind Phase.acquired, global with
    | none, _ => .wait
    | some true, _ => .goto (.admitted global (some key))
    | some false, none => .goto (.rejected none (some key))
    | some false, some global => .release global (.giveBack global key)
  | .giveBack global key =>
    if ((phase global).map Phase.releaseReturned) = some true then
      .goto (.rejected (some global) (some key))
    else .wait
  | .rejected _ _ => .wait
  | .admitted _ _ => .wait

def Stage.inUse : Stage → List Token
  | .start => []
  | .awaitGlobal global => [global]
  | .startKey global => global.toList
  | .awaitKey global key => key :: global.toList
  | .giveBack global key => [global, key]
  | .rejected _ _ => []
  | .admitted _ _ => []

structure Renewal where
  node : Nat
  scope : Scope
  tokens : List Token

/-- Every key lives on a server with a clock of its own. -/
structure System where
  clock : Scope → Instant
  keys : Scope → Option SlotKey
  slots : Token → Option Slot
  limiters : Nat → Limiter
  renewals : List Renewal
  requests : List Request

inductive Command where
  | tick (scope : Scope) (later : Instant)
  | ask (node : Nat) (scope : Scope) (limit : Int) (token : Token)
  | slot (token : Token) (event : Event)
  | renewHeld (node : Nat)
  | renew (renewal : Nat)
  | abandon (renewal : Nat)
  | acquireRequest (node accessKeyID : Nat) (globalLimit keyLimit : Int)
  | advance (request : Nat) (token : Token)

namespace System

variable (s : System) (token : Token)

def draw (node : Nat) (scope : Scope) (limit : Int) (token : Token) : System :=
  { s with slots := Function.update s.slots token (some ⟨node, scope, limit, .asked⟩) }

/-- A slot reaches a phase, with what the instance records under its lock. -/
def settle (slot : Slot) (phase : Phase) : System :=
  { s with
    slots := Function.update s.slots token (some { slot with phase })
    limiters :=
      if phase = .holding then
        Function.update s.limiters slot.node ((s.limiters slot.node).hold slot.scope token)
      else if phase = .dropped then
        Function.update s.limiters slot.node ((s.limiters slot.node).drop slot.scope token)
      else s.limiters }

def write (scope : Scope) (key : Option SlotKey) : System :=
  { s with keys := Function.update s.keys scope key }

def putRequest (i : Nat) (request : Request) (stage : Stage) : System :=
  { s with requests := s.requests.set i { request with stage } }

/-- A slot that no call in progress needs may be released by its caller. -/
def free : Bool := s.requests.all fun request => token ∉ request.stage.inUse

def phaseOf : Option Phase := (s.slots token).map Slot.phase

def moveSlot (event : Event) : Option System :=
  match s.slots token with
  | none => none
  | some slot =>
    match slot.phase.move (s.clock slot.scope) slot.limit token (s.keys slot.scope) event with
    | none => none
    | some (phase, key) =>
      if phase = .dropped ∧ s.free token = false then none
      else some ((s.settle token slot phase).write slot.scope key)

def advance (i : Nat) (token : Token) : Option System :=
  match s.requests[i]? with
  | none => none
  | some request =>
    match request.action s.phaseOf with
    | .wait => none
    | .goto stage => some (s.putRequest i request stage)
    | .ask scope limit next =>
      if (s.slots token).isNone then
        some ((s.draw request.node scope limit token).putRequest i request (next token))
      else none
    | .release global stage =>
      match s.slots global with
      | some slot =>
        if slot.phase = .holding then
          some ((s.settle global slot .dropped).putRequest i request stage)
        else none
      | none => none

def step : Command → Option System
  | .tick scope later =>
    if (s.clock scope).us ≤ later.us then
      some { s with clock := Function.update s.clock scope later }
    else none
  | .ask node scope limit token =>
    -- A limit that is not positive never touches Redis.
    if 0 < limit ∧ (s.slots token).isNone then some (s.draw node scope limit token) else none
  | .slot token event => s.moveSlot token event
  | .renewHeld node =>
    let (limiter, scripts) := (s.limiters node).renewHeld
    some
      { s with
        limiters := Function.update s.limiters node limiter
        renewals := s.renewals ++ scripts.map fun (scope, tokens) => ⟨node, scope, tokens⟩ }
  | .renew i =>
    match s.renewals[i]? with
    | none => none
    | some renewal =>
      some (({ s with renewals := s.renewals.eraseIdx i }).write renewal.scope
        (renewSlots (s.clock renewal.scope) renewal.tokens (s.keys renewal.scope)).1)
  | .abandon i => some { s with renewals := s.renewals.eraseIdx i }
  | .acquireRequest node accessKeyID globalLimit keyLimit =>
    some { s with requests := s.requests ++ [⟨node, accessKeyID, globalLimit, keyLimit, .start⟩] }
  | .advance i token => s.advance i token

def initial (clock : Scope → Instant) : System where
  clock := clock
  keys := fun _ => none
  slots := fun _ => none
  limiters := fun _ => ⟨[], false⟩
  renewals := []
  requests := []

def run (commands : List Command) : Option System := commands.foldlM step s

end System

end EchoJoyGateway.Concurrency
