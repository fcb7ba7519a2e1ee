import EchoJoyGateway.Quota.Runs
import EchoJoyGateway.Quota.Marks
import EchoJoyGateway.Quota.Checkpoint

/-!
# Instances, Redis and the database

Any number of gateway instances run calls against one Redis and one database.
A call is a sequence of atomic steps: a script, one mark, one read of a hash,
one conditional update, one acknowledgement. Between its steps a call is a
flight. A flush handles its candidates one by one; a batch is an order of such
steps, and a batch that rolls back is a flush that was abandoned.
-/

namespace EchoJoyGateway.Quota

open Decimal LuaNumber Redis List

variable {written : Option RestoredState} {targets : List (Rule × RestoredState)}

inductive Flight where
  | marking (node : Nat) (marks : List Mark)
  | hydrating (node : Nat) (targets : List (Rule × RestoredState))
  | observed (node ruleID : Nat) (entry : DirtyRule)
  | dropping (node ruleID : Nat) (entry : DirtyRule)
  | writing (node : Nat) (s : RestoredState)
  | acking (node : Nat) (s : RestoredState)
  deriving DecidableEq

def Flight.node : Flight → Nat
  | .marking node _ => node
  | .hydrating node _ => node
  | .observed node _ _ => node
  | .dropping node _ _ => node
  | .writing node _ => node
  | .acking node _ => node

/-- `changedBy` is the instance whose script last changed the record of a key, none where there
is no record or the instance never got the reply. -/
structure Cluster where
  store : QuotaStore
  database : Database
  tickets : List Ticket
  dirty : Nat → DirtySet
  flights : List Flight
  changedBy : RuleKey → Option Nat

def touched (node : Nat) (store store' : QuotaStore) (changedBy : RuleKey → Option Nat) :
    RuleKey → Option Nat :=
  fun key => if store' key = store key then changedBy key else some node

/-- One flight makes a step and leaves others in its place. -/
def Takes (flights : List Flight) (f : Flight) (left : List Flight) (flights' : List Flight) :
    Prop :=
  ∃ before after, flights = before ++ f :: after ∧ flights' = before ++ left ++ after

def afterRead (node ruleID : Nat) (entry : DirtyRule) : Reading → List Flight
  | .drop => [.dropping node ruleID entry]
  | .snapshot s => [.writing node s]
  | .failed => []

def Cluster.script (c : Cluster) (node : Nat) (store' : QuotaStore) (marks : List Mark)
    (tickets' : List Ticket) : Cluster :=
  { c with
    store := store'
    tickets := tickets'
    flights := .marking node marks :: c.flights
    changedBy := touched node c.store store' c.changedBy }

def Cluster.setDirty (c : Cluster) (node : Nat) (dirty : DirtySet) (flights' : List Flight) :
    Cluster :=
  { c with dirty := Function.update c.dirty node dirty, flights := flights' }

/-- The rules of a published snapshot come from the rule table. -/
def Published (db : Database) (rules : List Rule) : Prop :=
  validRules rules = true ∧ ∀ rule ∈ rules, ∃ row, db.rules rule.id = some row ∧
    rule.revision ≤ row.ruleRevision

/-- The checks of `hydrate` on the checkpoints it has read. -/
def CheckpointsRead (db : Database) (accessKeyID : Nat) (targets : List (Rule × RestoredState)) :
    Prop :=
  (targets.map fun p => p.1.id).Nodup ∧ ∀ p ∈ targets, readState db p.1.id = some p.2 ∧
    p.2.accessKeyID = accessKeyID ∧ Accepted p.1 p.2

inductive Step (c : Cluster) : Cluster → Prop
  | evaluate (node : Nat) (mode : Mode) (accessKeyID : Nat) (rules : List Rule) (nowMS : Int)
      (hkey : accessKeyID ≠ 0) (hrules : Published c.database rules)
      (hnow : inInt64 nowMS = true) :
      Step c (c.script node (runQuota mode accessKeyID rules nowMS c.store).1
        (evaluationMarks mode
          (admitted accessKeyID rules (runQuota mode accessKeyID rules nowMS c.store).2))
        (issue mode
          (admitted accessKeyID rules (runQuota mode accessKeyID rules nowMS c.store).2) c.tickets))
  | complete (node : Nat) (ticket : Ticket) (costNano : Int) (hticket : ticket ∈ c.tickets)
      (hcost : inInt64 costNano = true) :
      Step c (c.script node (complete ticket costNano c.store).1
        (complete ticket costNano c.store).2 c.tickets)
  | readCheckpoints (node accessKeyID : Nat) (targets : List (Rule × RestoredState))
      (hread : CheckpointsRead c.database accessKeyID targets) :
      Step c { c with flights := .hydrating node targets :: c.flights }
  | hydrate (node : Nat) (targets : List (Rule × RestoredState)) (flights' : List Flight)
      (htakes : Takes c.flights (.hydrating node targets) [] flights') :
      Step c { c with
        store := runInit (targets.map Prod.snd) c.store
        flights := flights'
        changedBy := touched node c.store (runInit (targets.map Prod.snd) c.store) c.changedBy }
  | mark (node : Nat) (m : Mark) (marks : List Mark) (flights' : List Flight)
      (htakes : Takes c.flights (.marking node (m :: marks)) [.marking node marks] flights') :
      Step c (c.setDirty node (markDirty (c.dirty node) m) flights')
  | marked (node : Nat) (flights' : List Flight)
      (htakes : Takes c.flights (.marking node []) [] flights') :
      Step c { c with flights := flights' }
  | observe (node ruleID : Nat) (entry : DirtyRule) (hentry : c.dirty node ruleID = some entry) :
      Step c { c with flights := .observed node ruleID entry :: c.flights }
  | read (node ruleID : Nat) (entry : DirtyRule) (flights' : List Flight)
      (htakes : Takes c.flights (.observed node ruleID entry)
        (afterRead node ruleID entry
          (readCandidate ruleID entry (c.store (entry.accessKeyID, ruleID)))) flights') :
      Step c { c with flights := flights' }
  | drop (node ruleID : Nat) (entry : DirtyRule) (flights' : List Flight)
      (htakes : Takes c.flights (.dropping node ruleID entry) [] flights') :
      Step c (c.setDirty node (dropDirty (c.dirty node) ruleID entry) flights')
  | persist (node : Nat) (s : RestoredState) (db' : Database) (outcome : PersistOutcome)
      (flights' : List Flight) (hpersist : persistAccessQuotaSnapshot c.database s =
        .ok (db', outcome))
      (htakes : Takes c.flights (.writing node s) [.acking node s] flights') :
      Step c { c with database := db', flights := flights' }
  | ack (node : Nat) (s : RestoredState) (flights' : List Flight)
      (htakes : Takes c.flights (.acking node s) [] flights') :
      Step c (c.setDirty node (ack (c.dirty node) s) flights')
  | abandonObserved (node ruleID : Nat) (entry : DirtyRule) (flights' : List Flight)
      (htakes : Takes c.flights (.observed node ruleID entry) [] flights') :
      Step c { c with flights := flights' }
  | abandonWriting (node : Nat) (s : RestoredState) (flights' : List Flight)
      (htakes : Takes c.flights (.writing node s) [] flights') :
      Step c { c with flights := flights' }
  | abandonAcking (node : Nat) (s : RestoredState) (flights' : List Flight)
      (htakes : Takes c.flights (.acking node s) [] flights') :
      Step c { c with flights := flights' }
  | advance (ruleID : Nat) (db' : Database) (hadvance : advanceRule c.database ruleID = .ok db') :
      Step c { c with database := db' }

inductive Loss (c : Cluster) : Cluster → Prop
  | key (key : RuleKey) :
      Loss c { c with
        store := Function.update c.store key none
        changedBy := Function.update c.changedBy key none }

def Cluster.unanswered (c : Cluster) (store' : QuotaStore) : Cluster :=
  { c with
    store := store'
    changedBy := fun key => if store' key = c.store key then c.changedBy key else none }

/-- A script runs and its reply is lost: `Admit` and `Complete` return before they mark anything. -/
inductive Unanswered (c : Cluster) : Cluster → Prop
  | evaluate (mode : Mode) (accessKeyID : Nat) (rules : List Rule) (nowMS : Int)
      (hrules : Published c.database rules) (hnow : inInt64 nowMS = true) :
      Unanswered c (c.unanswered (runQuota mode accessKeyID rules nowMS c.store).1)
  | complete (ticket : Ticket) (costNano : Int) (hticket : ticket ∈ c.tickets)
      (hcost : inInt64 costNano = true) :
      Unanswered c (c.unanswered (complete ticket costNano c.store).1)

def Cluster.initial (db : Database) : Cluster where
  store := fun _ => none
  database := db
  tickets := []
  dirty := fun _ _ => none
  flights := []
  changedBy := fun _ => none

namespace Takes

variable {flights flights' left : List Flight} {f g : Flight}

theorem mem (h : Takes flights f left flights') : f ∈ flights := by
  obtain ⟨before, after, rfl, -⟩ := h
  simp

theorem old_or_left (h : Takes flights f left flights') (hg : g ∈ flights') :
    g ∈ flights ∨ g ∈ left := by
  obtain ⟨before, after, rfl, rfl⟩ := h
  simp only [mem_append] at hg ⊢
  tauto

theorem taken_or_kept (h : Takes flights f left flights') (hg : g ∈ flights) :
    g = f ∨ g ∈ flights' := by
  obtain ⟨before, after, rfl, rfl⟩ := h
  simp only [mem_append, mem_cons] at hg ⊢
  tauto

theorem left_mem (h : Takes flights f left flights') (hg : g ∈ left) : g ∈ flights' := by
  obtain ⟨before, after, rfl, rfl⟩ := h
  simp only [mem_append]
  tauto

end Takes

def Cluster.proceed (c : Cluster) : Cluster :=
  match c.flights with
  | [] => c
  | .marking _ [] :: rest => { c with flights := rest }
  | .marking node (m :: marks) :: rest =>
    c.setDirty node (markDirty (c.dirty node) m) (.marking node marks :: rest)
  | .hydrating node targets :: rest =>
    { c with
      store := runInit (targets.map Prod.snd) c.store
      flights := rest
      changedBy := touched node c.store (runInit (targets.map Prod.snd) c.store) c.changedBy }
  | .observed node ruleID entry :: rest =>
    { c with
      flights := afterRead node ruleID entry
        (readCandidate ruleID entry (c.store (entry.accessKeyID, ruleID))) ++ rest }
  | .dropping node ruleID entry :: rest =>
    c.setDirty node (dropDirty (c.dirty node) ruleID entry) rest
  | .writing node s :: rest =>
    match persistAccessQuotaSnapshot c.database s with
    | .ok (db', _) => { c with database := db', flights := .acking node s :: rest }
    | .error _ => { c with flights := rest }
  | .acking node s :: rest => c.setDirty node (Quota.ack (c.dirty node) s) rest

theorem Takes.head (f : Flight) (left rest : List Flight) :
    Takes (f :: rest) f left (left ++ rest) := ⟨[], rest, rfl, rfl⟩

theorem Cluster.proceed_step {c : Cluster} (h : c.flights ≠ []) : Step c c.proceed := by
  obtain ⟨store, db, tickets, dirty, flights, changedBy⟩ := c
  cases flights with
  | nil => exact absurd rfl h
  | cons f rest =>
    cases f with
    | marking node marks =>
      cases marks with
      | nil => exact .marked node rest (.head _ [] rest)
      | cons m marks => exact .mark node m marks _ (.head _ [.marking node marks] rest)
    | hydrating node targets => exact .hydrate node targets rest (.head _ [] rest)
    | observed node ruleID entry => exact .read node ruleID entry _ (.head _ _ rest)
    | dropping node ruleID entry => exact .drop node ruleID entry rest (.head _ [] rest)
    | writing node s =>
      cases hpersist : persistAccessQuotaSnapshot db s with
      | ok result =>
        obtain ⟨db', outcome⟩ := result
        simp only [Cluster.proceed, hpersist]
        exact .persist node s db' outcome _ hpersist (.head _ [.acking node s] rest)
      | error message =>
        simp only [Cluster.proceed, hpersist]
        exact .abandonWriting node s rest (.head _ [] rest)
    | acking node s => exact .ack node s rest (.head _ [] rest)

/-- The rule is in the database under this access key, at a stamp not before
`t`. -/
def Known (db : Database) (ruleID accessKeyID : Nat) (t : Stamp) : Prop :=
  ∃ row, readState db ruleID = some row ∧ row.accessKeyID = accessKeyID ∧ t ≤ row.stamp

/-- The database after a write that persists at most `written`. -/
def Grows (written : Option RestoredState) (db db' : Database) : Prop :=
  ∀ ruleID, RowChange written db db' ruleID

theorem Grows.refl (db : Database) : Grows none db db := fun _ => .same rfl rfl

variable {db : Database} {ruleID : Nat} {t : Stamp}

theorem Known.mono {db' : Database} {accessKeyID : Nat} (h : Known db ruleID accessKeyID t)
    (hgrows : Grows written db db') :
    Known db' ruleID accessKeyID t := by
  obtain ⟨row, hrow, hkey, hle⟩ := h
  obtain ⟨row', hrow', hchange⟩ := (hgrows ruleID).read hrow
  exact ⟨row', hrow', (congrArg Prod.fst hchange.key).trans hkey, hle.trans hchange.stamp_le⟩

theorem Known.of_le {accessKeyID : Nat} {u : Stamp} (h : Known db ruleID accessKeyID t)
    (hle : u ≤ t) : Known db ruleID accessKeyID u := by
  obtain ⟨row, hrow, hkey, ht⟩ := h
  exact ⟨row, hrow, hkey, hle.trans ht⟩

theorem Known.owner {a a' : Nat} {u : Stamp} (h : Known db ruleID a t) (h' : Known db ruleID a' u) :
    a = a' := by
  obtain ⟨row, hrow, rfl, -⟩ := h
  obtain ⟨row', hrow', rfl, -⟩ := h'
  rw [Option.some.inj (hrow.symm.trans hrow')]

/-- What holds of a flight, whatever else happens. -/
def FlightOk (db : Database) (b : Nat) : Flight → Prop
  | .marking _ marks => ∀ m ∈ marks, Known db m.ruleID m.accessKeyID (stamp 0 0)
  | .hydrating _ targets => (targets.map fun p => stateKey p.2).Nodup ∧
      ∀ p ∈ targets, Fits (2 ^ 53) b p.2 ∧ Known db p.2.ruleID p.2.accessKeyID p.2.stamp
  | .observed _ ruleID entry => Known db ruleID entry.accessKeyID (stamp 0 0)
  | .dropping _ ruleID entry => Known db ruleID entry.accessKeyID (stamp 0 0)
  | .writing _ s => Fits (2 ^ 53) b s ∧ Known db s.ruleID s.accessKeyID (stamp s.ruleRevision 0)
  | .acking _ s => Known db s.ruleID s.accessKeyID s.stamp

theorem FlightOk.mono {db' : Database} {b b' : Nat} {f : Flight} (h : FlightOk db b f)
    (hgrows : Grows written db db') (hb : b ≤ b') : FlightOk db' b' f := by
  cases f with
  | marking node marks => exact fun m hm => (h m hm).mono hgrows
  | hydrating node targets =>
    exact ⟨h.1, fun p hp => ⟨(h.2 p hp).1.mono le_rfl hb, (h.2 p hp).2.mono hgrows⟩⟩
  | writing node s => exact ⟨h.1.mono le_rfl hb, h.2.mono hgrows⟩
  | _ => exact Known.mono h hgrows

structure TicketOk (ticket : Ticket) : Prop where
  key : ticket.accessKeyID ≠ 0
  nodup : (ticket.rules.map TicketRule.ruleID).Nodup
  revisions : ∀ rule ∈ ticket.rules, rule.ruleRevision ≤ 2 ^ 53

/-- The rows are inside the ranges: revisions at most `r`, counters at most
`b`. -/
structure DatabaseOk (r b : Nat) (db : Database) : Prop where
  consistent : db.Consistent
  rules : ∀ ruleID rule, db.rules ruleID = some rule → rule.ruleRevision ≤ r
  states : ∀ ruleID row, readState db ruleID = some row → Representable row ∧
    row.ruleRevision ≤ r ∧ row.windowGeneration ≤ b ∧ row.snapshotVersion ≤ b

/-- What every run keeps, also when keys are lost. -/
structure Base (r b : Nat) (c : Cluster) : Prop where
  database : DatabaseOk r b c.database
  typed : Typed b c.store
  records : ∀ s, c.store (stateKey s) = some (checkpointHash s) →
    Known c.database s.ruleID s.accessKeyID (stamp s.ruleRevision 0)
  tickets : ∀ ticket ∈ c.tickets, TicketOk ticket
  dirty : ∀ node ruleID entry, c.dirty node ruleID = some entry →
    Known c.database ruleID entry.accessKeyID (stamp 0 0)
  flights : ∀ f ∈ c.flights, FlightOk c.database b f

theorem DatabaseOk.grow {r b : Nat} {db' : Database} (h : DatabaseOk r b db)
    (hgrows : Grows written db db') (hwritten : ∀ s, written = some s → Fits (2 ^ 53) b s) :
    DatabaseOk (r + 1) (b + 1) db' where
  consistent := RowChange.consistent h.consistent hgrows
  rules := by
    intro ruleID rule hrule
    cases hgrows ruleID with
    | same hrules _ => exact (h.rules ruleID rule (hrules.symm.trans hrule)).trans (Nat.le_succ r)
    | snapshot s old _ _ hrules =>
      exact (h.rules ruleID rule (hrules.symm.trans hrule)).trans (Nat.le_succ r)
    | reset old oldRow hrule' _ _ hrules _ =>
      obtain rfl := Option.some.inj (hrules.symm.trans hrule)
      exact Nat.succ_le_succ (h.rules ruleID old hrule')
  states := by
    intro ruleID row hrow
    obtain ⟨before, hbefore, hchange⟩ := (hgrows ruleID).read_back hrow
    obtain ⟨hrep, hrev, hgen, hver⟩ := h.states ruleID before hbefore
    cases hchange with
    | same => exact ⟨hrep, by omega, by omega, by omega⟩
    | snapshot s hs hid hrevision hversion =>
      have hfits := hwritten s hs
      have hsgen := hfits.generation
      have hsver := hfits.version
      have hused := hfits.used_nonneg
      refine ⟨⟨inInt64_iff.mpr ⟨?_, hfits.used_lt⟩, hfits.started, hfits.ends⟩, ?_, ?_, ?_⟩
      · change _ ≤ s.usedNano
        omega
      · change s.ruleRevision ≤ r + 1
        omega
      · change s.windowGeneration ≤ b + 1
        omega
      · change s.snapshotVersion ≤ b + 1
        omega
    | reset =>
      refine ⟨⟨rfl, nofun, nofun⟩, ?_, ?_, ?_⟩
      · exact Nat.succ_le_succ hrev
      · exact Nat.zero_le _
      · change 1 ≤ b + 1
        omega

section Script

variable {r b : Nat} {c : Cluster}

variable {store' : QuotaStore} {marks : List Mark}

theorem Base.record_of_changes (hbase : Base r b c) (hchanges : Changes b c.store store' marks)
    {t : RestoredState} (ht : store' (stateKey t) = some (checkpointHash t)) :
    Known c.database t.ruleID t.accessKeyID (stamp t.ruleRevision 0) := by
  rcases hchanges.effect (stateKey t) with hsame | ⟨s, u, hkey, hadv, -⟩
  · exact hbase.records t (hsame.symm.trans ht)
  · have hu := hadv.after
    rw [hkey] at hu
    obtain rfl := checkpointHash_injective hkey (Option.some.inj (hu.symm.trans ht))
    have hs := hbase.records s (by rw [hadv.key]; exact hadv.before)
    obtain ⟨ha, hi⟩ := Prod.mk.inj hadv.key
    rwa [ha, hi, ← hadv.revision] at hs

theorem Base.script (hbase : Base r b c) {tickets' : List Ticket}
    (hchanges : Changes b c.store store' marks) (htickets : ∀ ticket ∈ tickets', TicketOk ticket)
    (node : Nat) :
    Base (r + 1) (b + 1) (c.script node store' marks tickets') where
  database := hbase.database.grow (.refl _) nofun
  typed := by
    intro key row hrow
    rcases hchanges.effect key with hsame | ⟨s, t, hkey, hadv, -⟩
    · exact hbase.typed.mono (Nat.le_succ b) key row (hsame.symm.trans hrow)
    · have ht := hadv.after
      rw [hkey] at ht
      exact ⟨t, hkey, Option.some.inj (hrow.symm.trans ht), hadv.fits⟩
  records _ ht := hbase.record_of_changes hchanges ht
  tickets := htickets
  dirty := hbase.dirty
  flights := by
    intro f hf
    rcases mem_cons.mp hf with rfl | hf
    · intro m hm
      obtain ⟨s, t, hadv, rfl⟩ := hchanges.marks m hm
      exact (hbase.record_of_changes hchanges hadv.after).of_le (stamp_le.mpr (by omega))
    · exact (hbase.flights f hf).mono (.refl _) (Nat.le_succ b)

end Script

theorem runInit_effect {b : Nat} {store : QuotaStore} (htyped : Typed b store)
    (hnodup : (targets.map fun p => stateKey p.2).Nodup)
    (hfits : ∀ p ∈ targets, Fits (2 ^ 53) b p.2) (key : RuleKey) :
    runInit (targets.map Prod.snd) store key = store key ∨
      ∃ p ∈ targets, stateKey p.2 = key ∧
        runInit (targets.map Prod.snd) store key = some (checkpointHash p.2) ∧
        (store key = none ∨ ∃ s, stateKey s = key ∧ store key = some (checkpointHash s) ∧
          s.ruleRevision < p.2.ruleRevision) := by
  cases move_hydrate htyped hnodup hfits key with
  | same hafter => exact .inl hafter
  | seeded targets' rule checkpoint hcall hmem hkey _ hafter hbefore =>
    cases hcall
    exact .inr ⟨(rule, checkpoint), hmem, hkey, hafter, hbefore⟩
  | opened _ _ _ _ hcall => cases hcall
  | settled _ _ _ _ hcall => cases hcall

section BaseStep

variable {r b : Nat} {c c' : Cluster}

variable {rules : List Rule} {nowMS : Int}

theorem Base.evaluateChanges (hbase : Base r b c) (hr : r ≤ 2 ^ 53) (hb : b + 1 < 10 ^ 14)
    (mode : Mode) (a : Nat) (hrules : Published c.database rules) (hnow : inInt64 nowMS = true) :
    Changes b c.store (runQuota mode a rules nowMS c.store).1
      (evaluationMarks mode (admitted a rules (runQuota mode a rules nowMS c.store).2)) := by
  refine evaluate_changes hbase.typed hb mode a (validRules_nodup hrules.1)
    (fun rule hmem => ?_) hnow
  obtain ⟨row, hrow, hle⟩ := hrules.2 rule hmem
  exact hle.trans ((hbase.database.rules rule.id row hrow).trans hr)

theorem Base.completeChanges (hbase : Base r b c) (hb : b + 1 < 10 ^ 14) {ticket : Ticket}
    (hticket : ticket ∈ c.tickets) {cost : Int} (hcost : inInt64 cost = true) :
    Changes b c.store (complete ticket cost c.store).1 (complete ticket cost c.store).2 :=
  complete_changes hbase.typed hb hcost (hbase.tickets ticket hticket).nodup
    (hbase.tickets ticket hticket).revisions

theorem Base.issued (hbase : Base r b c) (hr : r ≤ 2 ^ 53) (hb : b + 1 < 10 ^ 14) {mode : Mode}
    {a : Nat} (hkey : a ≠ 0) (hrules : Published c.database rules) (hnow : inInt64 nowMS = true) :
    ∀ ticket ∈ issue mode (admitted a rules (runQuota mode a rules nowMS c.store).2) c.tickets,
      TicketOk ticket := by
  intro ticket hticket
  rcases mem_issue hticket with hold | ⟨rfl, marks, hanswer⟩
  · exact hbase.tickets ticket hold
  · have hrev : ∀ rule ∈ rules, rule.revision ≤ 2 ^ 53 := by
      intro rule hmem
      obtain ⟨row, hrow, hle⟩ := hrules.2 rule hmem
      exact hle.trans ((hbase.database.rules rule.id row hrow).trans hr)
    have hissued := issued_of_admitted hbase.typed (hb.trans (by norm_num)) hkey
      (validRules_nodup hrules.1) hrev hnow hanswer
    have htyped := (hbase.script (hbase.evaluateChanges hr hb .admission a hrules hnow)
      hbase.tickets 0).typed
    exact ⟨hissued.key, hissued.nodup, hissued.revisions htyped⟩

variable {flights' : List Flight}

theorem Base.locally (hbase : Base r b c) {dirty' : Nat → DirtySet}
    (hdirty : ∀ node ruleID entry, dirty' node ruleID = some entry →
      Known c.database ruleID entry.accessKeyID (stamp 0 0))
    (hflights : ∀ f ∈ flights', FlightOk c.database b f) :
    Base (r + 1) (b + 1) { c with dirty := dirty', flights := flights' } where
  database := hbase.database.grow (.refl _) nofun
  typed := hbase.typed.mono (Nat.le_succ b)
  records := hbase.records
  tickets := hbase.tickets
  dirty := hdirty
  flights f hf := (hflights f hf).mono (.refl _) (Nat.le_succ b)

theorem Base.takes (hbase : Base r b c) {f : Flight} {left : List Flight}
    (htakes : Takes c.flights f left flights') (hleft : ∀ g ∈ left, FlightOk c.database b g) :
    ∀ g ∈ flights', FlightOk c.database b g := by
  intro g hg
  rcases htakes.old_or_left hg with hold | hnew
  · exact hbase.flights g hold
  · exact hleft g hnew

variable {node : Nat}

theorem Base.setDirty (hbase : Base r b c) {dirty : DirtySet}
    (hdirty : ∀ ruleID entry, dirty ruleID = some entry →
      Known c.database ruleID entry.accessKeyID (stamp 0 0)) :
    ∀ other ruleID entry, Function.update c.dirty node dirty other ruleID = some entry →
      Known c.database ruleID entry.accessKeyID (stamp 0 0) := by
  intro other ruleID entry hentry
  rcases eq_or_ne other node with rfl | hne
  · rw [Function.update_self] at hentry
    exact hdirty ruleID entry hentry
  · rw [Function.update_of_ne hne] at hentry
    exact hbase.dirty other ruleID entry hentry

theorem Base.forget (hbase : Base r b c) {target : Nat} :
    ∀ ruleID entry, Function.update (c.dirty node) target none ruleID = some entry →
      Known c.database ruleID entry.accessKeyID (stamp 0 0) := by
  intro ruleID entry hentry
  rcases Update.cases hentry with ⟨rfl, heq⟩ | ⟨-, hentry⟩
  · cases heq
  · exact hbase.dirty node ruleID entry hentry

theorem Base.checkpointsRead (hbase : Base r b c) (hr : r ≤ 2 ^ 53) {a : Nat}
    (hread : CheckpointsRead c.database a targets) (node : Nat) :
    FlightOk c.database b (.hydrating node targets) := by
  obtain ⟨hnodup, htargets⟩ := hread
  constructor
  · have hkeys : (targets.map fun p => stateKey p.2) =
        targets.map fun p => ((a, p.1.id) : RuleKey) := by
      refine map_congr_left fun p hp => ?_
      obtain ⟨hrow, hkey, -⟩ := htargets p hp
      exact Prod.ext hkey (readState_key hrow)
    rw [hkeys]
    exact ruleKeys_nodup a hnodup
  · intro p hp
    obtain ⟨hrow, hkey, haccepted⟩ := htargets p hp
    obtain ⟨hrep, hrev, hgen, hver⟩ := hbase.database.states _ _ hrow
    refine ⟨.of_accepted haccepted hrep (hrev.trans hr) hgen hver, p.2, ?_, rfl, le_rfl⟩
    rw [readState_key hrow]
    exact hrow

theorem Base.readFlights (hbase : Base r b c) (hb : b + 1 < 10 ^ 14) {ruleID : Nat}
    {entry : DirtyRule} (hentry : Known c.database ruleID entry.accessKeyID (stamp 0 0)) :
    ∀ g ∈ afterRead node ruleID entry
      (readCandidate ruleID entry (c.store (entry.accessKeyID, ruleID))),
        FlightOk c.database b g := by
  intro g hg
  cases hrow : c.store (entry.accessKeyID, ruleID) with
  | none =>
    rw [hrow] at hg
    obtain rfl := mem_singleton.mp hg
    exact hentry
  | some row =>
    obtain ⟨s, hkey, rfl, hfits⟩ := hbase.typed _ _ hrow
    have hparse : parseHash (entry.accessKeyID, ruleID) (checkpointHash s) = some s := by
      rw [← hkey]
      exact parseHash_checkpointHash hfits (by norm_num) (by omega)
    rw [hrow] at hg
    simp only [readCandidate, hparse] at hg
    split at hg
    · obtain rfl := mem_singleton.mp hg
      exact ⟨hfits, hbase.records s (by rw [hkey]; exact hrow)⟩
    · obtain rfl := mem_singleton.mp hg
      exact hentry

theorem Base.hydrate (hbase : Base r b c)
    (htakes : Takes c.flights (.hydrating node targets) [] flights')
    (changedBy' : RuleKey → Option Nat) :
    Base (r + 1) (b + 1) { c with
      store := runInit (targets.map Prod.snd) c.store
      flights := flights'
      changedBy := changedBy' } := by
  obtain ⟨hnodup, htargets⟩ := hbase.flights _ htakes.mem
  have heffect := runInit_effect hbase.typed hnodup fun p hp => (htargets p hp).1
  refine ⟨hbase.database.grow (.refl _) nofun, ?_, ?_, hbase.tickets, hbase.dirty, fun f hf => ?_⟩
  · intro key row hrow
    rcases heffect key with hsame | ⟨p, hp, hkey, hval, -⟩
    · exact hbase.typed.mono (Nat.le_succ b) key row (hsame.symm.trans hrow)
    · exact ⟨p.2, hkey, Option.some.inj (hrow.symm.trans hval),
        (htargets p hp).1.mono le_rfl (Nat.le_succ b)⟩
  · intro s hs
    rcases heffect (stateKey s) with hsame | ⟨p, hp, hkey, hval, -⟩
    · exact hbase.records s (hsame.symm.trans hs)
    · obtain rfl := checkpointHash_injective hkey (Option.some.inj (hval.symm.trans hs))
      exact (htargets p hp).2.of_le (stamp_le.mpr (.inr ⟨rfl, Nat.zero_le _⟩))
  · exact ((hbase.takes htakes nofun) f hf).mono (.refl _) (Nat.le_succ b)

variable {db' : Database}

theorem Base.write (hbase : Base r b c) (hgrows : Grows written c.database db')
    (hwritten : ∀ s, written = some s → Fits (2 ^ 53) b s)
    (hflights : ∀ f ∈ flights', FlightOk db' (b + 1) f) :
    Base (r + 1) (b + 1) { c with database := db', flights := flights' } where
  database := hbase.database.grow hgrows hwritten
  typed := hbase.typed.mono (Nat.le_succ b)
  records s hs := (hbase.records s hs).mono hgrows
  tickets := hbase.tickets
  dirty node ruleID entry hentry := (hbase.dirty node ruleID entry hentry).mono hgrows
  flights := hflights

theorem Base.acked (hbase : Base r b c) {s : RestoredState}
    (hflight : FlightOk c.database b (.writing node s)) {outcome : PersistOutcome}
    (hpersist : persistAccessQuotaSnapshot c.database s = .ok (db', outcome)) :
    FlightOk db' (b + 1) (.acking node s) := by
  obtain ⟨-, row, hrow, hkey, hle⟩ := hflight
  obtain ⟨after, hafter, hstamp⟩ := persist_stamp_le hbase.database.consistent hpersist hrow
    (by rcases stamp_le.mp hle with h | ⟨h, -⟩ <;> omega)
  obtain ⟨after', hafter', hchange⟩ := (persist_rowChange hpersist s.ruleID).read hrow
  obtain rfl := Option.some.inj (hafter.symm.trans hafter')
  exact ⟨after, hafter, (congrArg Prod.fst hchange.key).trans hkey, hstamp⟩

theorem Base.step (hbase : Base r b c) (hr : r ≤ 2 ^ 53) (hb : b + 1 < 10 ^ 14)
    (hstep : Step c c') : Base (r + 1) (b + 1) c' := by
  cases hstep with
  | evaluate node mode a rules nowMS hkey hrules hnow =>
    exact hbase.script (hbase.evaluateChanges hr hb mode a hrules hnow)
      (hbase.issued hr hb hkey hrules hnow) node
  | complete node ticket cost hticket hcost =>
    exact hbase.script (hbase.completeChanges hb hticket hcost) hbase.tickets node
  | readCheckpoints node a targets hread =>
    refine hbase.locally hbase.dirty fun f hf => ?_
    rcases mem_cons.mp hf with rfl | hf
    · exact hbase.checkpointsRead hr hread node
    · exact hbase.flights f hf
  | hydrate node targets flights' htakes => exact hbase.hydrate htakes _
  | mark node m marks flights' htakes =>
    have hmarks := hbase.flights _ htakes.mem
    refine hbase.locally (hbase.setDirty fun ruleID entry hentry => ?_) (hbase.takes htakes ?_)
    · rcases markDirty_eq_some hentry with hold | ⟨rfl, rfl⟩
      · exact hbase.dirty node ruleID entry hold
      · exact hmarks m (.head _)
    · intro g hg
      obtain rfl := mem_singleton.mp hg
      exact fun x hx => hmarks x (.tail _ hx)
  | marked node flights' htakes | abandonObserved node ruleID entry flights' htakes
  | abandonWriting node s flights' htakes | abandonAcking node s flights' htakes =>
    exact hbase.locally hbase.dirty (hbase.takes htakes nofun)
  | observe node ruleID entry hentry =>
    refine hbase.locally hbase.dirty fun f hf => ?_
    rcases mem_cons.mp hf with rfl | hf
    · exact hbase.dirty node ruleID entry hentry
    · exact hbase.flights f hf
  | read node ruleID entry flights' htakes =>
    exact hbase.locally hbase.dirty
      (hbase.takes htakes (hbase.readFlights hb (hbase.flights _ htakes.mem)))
  | drop node ruleID entry flights' htakes =>
    refine hbase.locally (hbase.setDirty ?_) (hbase.takes htakes nofun)
    rcases dropDirty_cases (c.dirty node) ruleID entry with h | ⟨-, h⟩
    · rw [h]
      exact hbase.dirty node
    · rw [h]
      exact hbase.forget
  | persist node s db' outcome flights' hpersist htakes =>
    have hflight : FlightOk c.database b (.writing node s) := hbase.flights _ htakes.mem
    refine hbase.write (persist_rowChange hpersist) ?_ fun f hf => ?_
    · rintro _ ⟨⟩
      exact hflight.1
    · rcases htakes.old_or_left hf with hold | hnew
      · exact (hbase.flights f hold).mono (persist_rowChange hpersist) (Nat.le_succ b)
      · obtain rfl := mem_singleton.mp hnew
        exact hbase.acked hflight hpersist
  | ack node s flights' htakes =>
    refine hbase.locally (hbase.setDirty ?_) (hbase.takes htakes nofun)
    rcases ack_cases (c.dirty node) s with h | ⟨_, _, _, h⟩
    · rw [h]
      exact hbase.dirty node
    · rw [h]
      exact hbase.forget
  | advance ruleID db' hadvance =>
    exact hbase.write (advanceRule_rowChange hadvance) nofun fun f hf =>
      (hbase.flights f hf).mono (advanceRule_rowChange hadvance) (Nat.le_succ b)

theorem Unanswered.changes (hbase : Base r b c) (hr : r ≤ 2 ^ 53) (hb : b + 1 < 10 ^ 14)
    (h : Unanswered c c') :
    ∃ store' marks, c' = c.unanswered store' ∧ Changes b c.store store' marks := by
  cases h with
  | evaluate mode a rules nowMS hrules hnow =>
    exact ⟨_, _, rfl, hbase.evaluateChanges hr hb mode a hrules hnow⟩
  | complete ticket cost hticket hcost =>
    exact ⟨_, _, rfl, hbase.completeChanges hb hticket hcost⟩

theorem Base.unanswered (hbase : Base r b c) {store' : QuotaStore} {marks : List Mark}
    (hchanges : Changes b c.store store' marks) : Base (r + 1) (b + 1) (c.unanswered store') :=
  have h := hbase.script hchanges hbase.tickets 0
  ⟨h.database, h.typed, h.records, h.tickets, h.dirty, fun f hf => h.flights f (.tail _ hf)⟩

theorem Base.loss (hbase : Base r b c) (hloss : Loss c c') : Base (r + 1) (b + 1) c' := by
  cases hloss with
  | key key =>
    have hsub : ∀ k row, Function.update c.store key none k = some row → c.store k = some row := by
      intro k row hrow
      rcases Update.cases hrow with ⟨rfl, heq⟩ | ⟨-, hrow⟩
      · cases heq
      · exact hrow
    exact
      { database := hbase.database.grow (.refl _) nofun
        typed := fun k row hrow => hbase.typed.mono (Nat.le_succ b) k row (hsub k row hrow)
        records := fun s hs => hbase.records s (hsub _ _ hs)
        tickets := hbase.tickets
        dirty := hbase.dirty
        flights := fun f hf => (hbase.flights f hf).mono (.refl _) (Nat.le_succ b) }

theorem Base.initial {db : Database} (hdb : DatabaseOk r b db) : Base r b (.initial db) where
  database := hdb
  typed _ _ h := by cases h
  records _ h := by cases h
  tickets _ h := absurd h not_mem_nil
  dirty _ _ _ h := by cases h
  flights _ h := absurd h not_mem_nil

end BaseStep

end EchoJoyGateway.Quota
