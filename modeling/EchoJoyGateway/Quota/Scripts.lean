import EchoJoyGateway.Lib.KeyedLoop
import EchoJoyGateway.Lib.LuaNumber
import EchoJoyGateway.Lib.Redis
import EchoJoyGateway.Quota.Rules

/-!
# The shared cost-limit state in Redis

One hash a rule, changed only by three atomic scripts, and the Go calls that
run them. A script that fails keeps the writes it made before the failure. The
sliding lifetime of a key has no part here: losing a key is a separate event.
-/

namespace EchoJoyGateway.Quota

open Decimal LuaNumber Redis

structure QuotaHash where
  rev : Text
  used : Text
  ws : Text
  we : Text
  gen : Text
  ver : Text
  deriving DecidableEq

abbrev RuleKey := Nat × Nat

abbrev QuotaStore := RuleKey → Option QuotaHash

inductive Mode where
  | check
  | admission
  deriving DecidableEq

structure QuotaArg where
  key : RuleKey
  rev : Text
  kind : Kind
  limit : Text
  windowEnd : Text
  deriving DecidableEq

inductive Standing where
  | missing
  | stale
  | current
  deriving DecidableEq, Inhabited

def standing (row : Option QuotaHash) (rev : Text) : Except ScriptError Standing :=
  match row with
  | none => .ok .missing
  | some row =>
    match tonumber row.rev, tonumber rev with
    | some stored, some rev =>
      if rev < stored then .ok .stale
      else if stored < rev then .ok .missing
      else .ok .current
    | _, _ => .error .compareWithNil

def inactive (now : Text) (kind : Kind) (row : QuotaHash) : Except ScriptError Bool :=
  if kind = .periodic then
    if row.ws = [] ∨ row.we = [] then .ok true
    else
      match tonumber now, tonumber row.we with
      | some now, some ends => .ok (decide (ends ≤ now))
      | _, _ => .error .compareWithNil
  else .ok false

variable (ticket : Ticket) (accessKeyID : Nat) (row : QuotaHash) (costNano : Int)

def exhausted (limit : Text) : Bool := decide (Decimal.cmp row.used limit ≠ .lt)

structure Visit where
  arg : QuotaArg
  row : QuotaHash
  inactive : Bool
  deriving DecidableEq

def survey (store : QuotaStore) : List QuotaArg → Except ScriptError (List Standing)
  | [] => .ok []
  | arg :: rest =>
    match standing (store arg.key) arg.rev with
    | .error e => .error e
    | .ok s =>
      match survey store rest with
      | .error e => .error e
      | .ok ss => .ok (s :: ss)

/-- The second loop; it runs only when every rule has a row. -/
def assess (now : Text) (store : QuotaStore) : List QuotaArg → Except ScriptError (List Visit)
  | [] => .ok []
  | arg :: rest =>
    match store arg.key with
    | none => .error .compareWithNil
    | some row =>
      match inactive now arg.kind row with
      | .error e => .error e
      | .ok idle =>
        match assess now store rest with
        | .error e => .error e
        | .ok visits => .ok ({ arg := arg, row := row, inactive := idle } :: visits)

def allAllowed (visits : List Visit) : Bool :=
  visits.all fun v => v.inactive || !exhausted v.row v.arg.limit

structure QuotaRow where
  used : Text
  ws : Text
  we : Text
  gen : Text
  ver : Text
  opened : Bool
  deriving DecidableEq

inductive QuotaReply where
  | stale
  | needInit (indexes : List Nat)
  | ok (allowed : Bool) (rows : List QuotaRow)
  deriving DecidableEq

def openWindow (now windowEnd : Text) (row : QuotaHash) :
    Option QuotaHash × Except ScriptError QuotaRow :=
  let row := { row with used := digits 0, ws := now, we := windowEnd }
  match hincrby row.gen (digits 1) with
  | none => (some row, .error .increment)
  | some gen =>
    let row := { row with gen := formatInt gen }
    match hincrby row.ver (digits 1) with
    | none => (some row, .error .increment)
    | some ver =>
      (some { row with ver := formatInt ver },
        .ok { used := row.used, ws := row.ws, we := row.we, gen := tostring gen,
              ver := tostring ver, opened := true })

def rowOf : QuotaRow where
  used := row.used
  ws := row.ws
  we := row.we
  gen := row.gen
  ver := row.ver
  opened := false

def quotaBody (mode : Mode) (now : Text) (allowed : Bool) (v : Visit) (stored : Option QuotaHash) :
    Option QuotaHash × Except ScriptError QuotaRow :=
  if mode = .admission ∧ allowed = true ∧ v.inactive = true then
    openWindow now v.arg.windowEnd (stored.getD v.row)
  else (stored, .ok (rowOf v.row))

def missingIndexes (standings : List Standing) : List Nat :=
  (standings.zipIdx 1).filterMap fun p => if p.1 = .missing then some p.2 else none

def quotaScript (mode : Mode) (now : Text) (args : List QuotaArg) (store : QuotaStore) :
    QuotaStore × Except ScriptError QuotaReply :=
  match survey store args with
  | .error e => (store, .error e)
  | .ok standings =>
    if .stale ∈ standings then (store, .ok .stale)
    else if .missing ∈ standings then (store, .ok (.needInit (missingIndexes standings)))
    else
      match assess now store args with
      | .error e => (store, .error e)
      | .ok visits =>
        let allowed := allAllowed visits
        match KeyedLoop.run (fun v => v.arg.key) (quotaBody mode now allowed) visits store with
        | (store', .error e) => (store', .error e)
        | (store', .ok rows) => (store', .ok (.ok allowed rows))

structure InitArg where
  key : RuleKey
  hash : QuotaHash
  deriving DecidableEq

def initBody (arg : InitArg) (stored : Option QuotaHash) :
    Option QuotaHash × Except ScriptError Unit :=
  match stored with
  | none => (some arg.hash, .ok ())
  | some row =>
    match tonumber row.rev, tonumber arg.hash.rev with
    | some old, some new => (some (if old < new then arg.hash else row), .ok ())
    | _, _ => (some row, .error .compareWithNil)

def initScript (args : List InitArg) (store : QuotaStore) :
    QuotaStore × Except ScriptError (List Unit) :=
  KeyedLoop.run InitArg.key initBody args store

structure CompleteArg where
  key : RuleKey
  rev : Text
  gen : Text
  deriving DecidableEq

def maxUsed : Text := digits (2 ^ 63 - 1)

/-- What the loop of `completeScript` notes for one rule: whether the amount
was saturated, and the revision and new version of a changed record. -/
structure Settlement where
  saturated : Bool
  change : Option (Text × Text)
  deriving DecidableEq, Inhabited

def bumpVersion (saturated : Bool) :
    Option QuotaHash × Except ScriptError Settlement :=
  match hincrby row.ver (digits 1) with
  | none => (some row, .error .increment)
  | some ver =>
    (some { row with ver := formatInt ver },
      .ok { saturated := saturated, change := some (row.rev, tostring ver) })

def isNegative (cost : Text) : Bool := decide (cost.head? = some '-')

def completeBody (cost headroom : Text) (arg : CompleteArg) (stored : Option QuotaHash) :
    Option QuotaHash × Except ScriptError Settlement :=
  match stored with
  | none => (none, .ok { saturated := false, change := none })
  | some row =>
    if tonumber row.rev = tonumber arg.rev ∧ row.gen = arg.gen then
      if isNegative cost = true ∨ Decimal.cmp row.used headroom = .gt then
        if row.used ≠ maxUsed then bumpVersion { row with used := maxUsed } true
        else (some row, .ok { saturated := true, change := none })
      else
        match hincrby row.used cost with
        | none => (some row, .error .increment)
        | some used => bumpVersion { row with used := formatInt used } false
    else (some row, .ok { saturated := false, change := none })

inductive CompletionFault where
  | none
  | negativeEstimate
  | overflow
  deriving DecidableEq

structure CompleteReply where
  fault : CompletionFault
  changed : List (Nat × Text × Text)
  deriving DecidableEq

def completeReply (cost : Text) (settled : List Settlement) : CompleteReply where
  fault :=
    if settled.any Settlement.saturated then
      if isNegative cost then .negativeEstimate else .overflow
    else .none
  changed := (settled.zipIdx 1).filterMap fun p => p.1.change.map fun c => (p.2, c)

def completeScript (cost headroom : Text) (args : List CompleteArg) (store : QuotaStore) :
    QuotaStore × Except ScriptError CompleteReply :=
  match KeyedLoop.run CompleteArg.key (completeBody cost headroom) args store with
  | (store', .error e) => (store', .error e)
  | (store', .ok settled) => (store', .ok (completeReply cost settled))

def formatOptionalMS : Option Int → Text
  | none => []
  | some value => formatInt value

def parseOptionalMS (t : Text) : Option (Option Int) :=
  if t = [] then some none else (parseInt64 t).map some

def checkpointHash (checkpoint : RestoredState) : QuotaHash where
  rev := digits checkpoint.ruleRevision
  used := formatInt checkpoint.usedNano
  ws := formatOptionalMS checkpoint.windowStartedAtMS
  we := formatOptionalMS checkpoint.windowEndsAtMS
  gen := digits checkpoint.windowGeneration
  ver := digits checkpoint.snapshotVersion

def stateKey (state : RestoredState) : RuleKey := (state.accessKeyID, state.ruleID)

def parseRuleState (accessKeyID ruleID revision : Nat) (used ws we gen ver : Text) :
    Option RestoredState :=
  match parseInt64 used, parseOptionalMS ws, parseOptionalMS we, parseUint 64 gen,
      parseUint 64 ver with
  | some used, some started, some ends, some generation, some version =>
    some { accessKeyID := accessKeyID, ruleID := ruleID, ruleRevision := revision,
           usedNano := used, windowStartedAtMS := started, windowEndsAtMS := ends,
           windowGeneration := generation, snapshotVersion := version }
  | _, _, _, _, _ => none

/-- The decoding of a stored hash, as the reader of dirty rules does it. -/
def parseHash (key : RuleKey) (row : QuotaHash) : Option RestoredState :=
  match parseUint 64 row.rev with
  | none => none
  | some revision => parseRuleState key.1 key.2 revision row.used row.ws row.we row.gen row.ver

def windowEnd (rule : Rule) (nowMS : Int) : Int := wrapInt64 (nowMS + periodMS rule)

def quotaArg (nowMS : Int) (rule : Rule) : QuotaArg where
  key := (accessKeyID, rule.id)
  rev := digits rule.revision
  kind := rule.kind
  limit := formatInt rule.limitNano
  windowEnd := formatInt (windowEnd rule nowMS)

def runQuota (mode : Mode) (accessKeyID : Nat) (rules : List Rule) (nowMS : Int)
    (store : QuotaStore) : QuotaStore × Except ScriptError QuotaReply :=
  quotaScript mode (formatInt nowMS) (rules.map (quotaArg accessKeyID nowMS)) store

def parseEvaluation (accessKeyID : Nat) : List Rule → List QuotaRow →
    Option (List (RestoredState × Bool))
  | [], [] => some []
  | rule :: rules, row :: rows =>
    match parseRuleState accessKeyID rule.id rule.revision row.used row.ws row.we row.gen row.ver,
        parseEvaluation accessKeyID rules rows with
    | some state, some states => some ((state, row.opened) :: states)
    | _, _ => none
  | _, _ => none

/-- The `(revision, version)` that a call records with `markDirty`. -/
structure Mark where
  accessKeyID : Nat
  ruleID : Nat
  revision : Nat
  version : Nat
  deriving DecidableEq, Inhabited

def ticketRule (state : RestoredState) : TicketRule where
  ruleID := state.ruleID
  ruleRevision := state.ruleRevision
  windowGeneration := state.windowGeneration

def admissionMarks (states : List (RestoredState × Bool)) : List Mark :=
  states.filterMap fun p =>
    if p.2 then some ⟨p.1.accessKeyID, p.1.ruleID, p.1.ruleRevision, p.1.snapshotVersion⟩ else none

/-- `Admit` after hydration: the ticket and the marks of an allowed request. -/
def admitted (rules : List Rule) (reply : Except ScriptError QuotaReply) :
    Option (Ticket × List Mark) :=
  match reply with
  | .ok (.ok true rows) =>
    (parseEvaluation accessKeyID rules rows).map fun states =>
      ({ accessKeyID := accessKeyID, rules := states.map fun p => ticketRule p.1 },
        admissionMarks states)
  | _ => none

def initArg (checkpoint : RestoredState) : InitArg where
  key := stateKey checkpoint
  hash := checkpointHash checkpoint

def completeArg (rule : TicketRule) : CompleteArg where
  key := (accessKeyID, rule.ruleID)
  rev := digits rule.ruleRevision
  gen := digits rule.windowGeneration

def headroom : Int :=
  if 0 < costNano then 2 ^ 63 - 1 - costNano else 2 ^ 63 - 1

/-- The loop over the reply of `completeScript`; it stops at the first entry
that does not parse. -/
def completionMarks (ticket : Ticket) : List (Nat × Text × Text) → List Mark
  | [] => []
  | (index, rev, ver) :: rest =>
    match ticket.rules[index - 1]?, parseUint 64 rev, parseUint 64 ver with
    | some rule, some revision, some version =>
      ⟨ticket.accessKeyID, rule.ruleID, revision, version⟩ :: completionMarks ticket rest
    | _, _, _ => []

def skipsCompletion : Bool :=
  decide (ticket.accessKeyID = 0) || ticket.rules.isEmpty || decide (costNano = 0)

def runComplete (store : QuotaStore) :
    QuotaStore × Except ScriptError CompleteReply :=
  completeScript (formatInt costNano) (formatInt (headroom costNano))
    (ticket.rules.map (completeArg ticket.accessKeyID)) store

/-- `Complete`: the store after it and the marks it records. -/
def complete (store : QuotaStore) : QuotaStore × List Mark :=
  if skipsCompletion ticket costNano then (store, [])
  else
    match runComplete ticket costNano store with
    | (store', .error _) => (store', [])
    | (store', .ok reply) => (store', completionMarks ticket reply.changed)

end EchoJoyGateway.Quota
