import EchoJoyGateway.Quota.Dirty

/-!
# Checkpoints at rest

While no key is lost, whatever the instances remember of a rule is not ahead of
its record, and the database is never ahead of the record at its revision. So
nothing is ever dropped, and once every dirty set is empty and no call is in
flight a record at the revision of its row is the row, unless the reply to its
last change was lost.
-/

namespace EchoJoyGateway.Quota

open Decimal LuaNumber Redis List
open Function (update update_eq_self update_of_ne update_self)

variable {flights' : List Flight}

/-- Runs without a loss, with the states passed through, the last one first. -/
inductive Trace (db : Database) : List Cluster → Cluster → Prop
  | start : Trace db [] (Cluster.initial db)
  | step {past : List Cluster} {c c' : Cluster} (hrun : Trace db past c) (hstep : Step c c') :
      Trace db (c :: past) c'
  | unanswered {past : List Cluster} {c c' : Cluster} (hrun : Trace db past c)
      (hlost : Unanswered c c') : Trace db (c :: past) c'

def Held (c : Cluster) (t : RestoredState) : Prop := c.store (stateKey t) = some (checkpointHash t)

def Reaches (c : Cluster) (ruleID : Nat) (u : Stamp) : Prop :=
  ∃ t, Held c t ∧ t.ruleID = ruleID ∧ u ≤ t.stamp

/-- Some instance is about to mark the state, or has it in its dirty set. -/
def Pending (c : Cluster) (t : RestoredState) : Prop :=
  (∃ node marks, Flight.marking node marks ∈ c.flights ∧
      ∃ m ∈ marks, m.ruleID = t.ruleID ∧ m.stamp = t.stamp) ∨
    ∃ node entry, c.dirty node t.ruleID = some entry ∧ entry.stamp = t.stamp

def FlightSynced (c : Cluster) : Flight → Prop
  | .marking _ marks => ∀ m ∈ marks, Reaches c m.ruleID m.stamp
  | .hydrating _ targets => ∀ p ∈ targets, ∀ row, readState c.database p.2.ruleID = some row →
      p.2.ruleRevision = row.ruleRevision →
        p.2 = row ∨ Reaches c p.2.ruleID (stamp row.ruleRevision 0)
  | .observed _ ruleID entry => Reaches c ruleID entry.stamp
  | .dropping _ _ _ => False
  | .writing _ s => ∃ t, Held c t ∧ t.ruleID = s.ruleID ∧ (s = t ∨ s.stamp < t.stamp)
  | .acking _ _ => True

structure Synced (c : Cluster) : Prop where
  dirty : ∀ node ruleID entry, c.dirty node ruleID = some entry → Reaches c ruleID entry.stamp
  flights : ∀ f ∈ c.flights, FlightSynced c f
  records : ∀ t, Held c t → ∀ row, readState c.database t.ruleID = some row →
    t.ruleRevision = row.ruleRevision →
      row = t ∨ (row.snapshotVersion < t.snapshotVersion ∧
        (c.changedBy (stateKey t) ≠ none → Pending c t))

theorem Synced.initial (db : Database) : Synced (.initial db) where
  dirty _ _ _ h := by cases h
  flights _ h := absurd h not_mem_nil
  records _ h := by cases h

def RecordsGrow (c c' : Cluster) : Prop :=
  ∀ t, Held c t → ∃ t', Held c' t' ∧ t'.ruleID = t.ruleID ∧ (t = t' ∨ t.stamp < t'.stamp)

theorem RecordsGrow.of_store_eq {c c' : Cluster} (h : c'.store = c.store) : RecordsGrow c c' :=
  fun t ht => ⟨t, (congrFun h _).trans ht, rfl, .inl rfl⟩

theorem Reaches.mono {c c' : Cluster} (hgrow : RecordsGrow c c') {ruleID : Nat} {u : Stamp}
    (h : Reaches c ruleID u) : Reaches c' ruleID u := by
  obtain ⟨t, ht, rfl, hle⟩ := h
  obtain ⟨t', ht', hid, heq | hlt⟩ := hgrow t ht
  · exact ⟨t', ht', hid, heq ▸ hle⟩
  · exact ⟨t', ht', hid, hle.trans hlt.le⟩

theorem FlightSynced.mono {c c' : Cluster} (hgrow : RecordsGrow c c')
    (hdb : c'.database = c.database) {f : Flight} (h : FlightSynced c f) : FlightSynced c' f := by
  cases f with
  | marking node marks => exact fun m hm => (h m hm).mono hgrow
  | hydrating node targets =>
    intro p hp row hrow hrev
    rw [hdb] at hrow
    exact (h p hp row hrow hrev).imp id fun hreaches => hreaches.mono hgrow
  | observed node ruleID entry => exact Reaches.mono hgrow h
  | dropping node ruleID entry => exact h
  | writing node s =>
    obtain ⟨t, ht, hid, hs⟩ := h
    obtain ⟨t', ht', hid', hgrown⟩ := hgrow t ht
    refine ⟨t', ht', hid'.trans hid, ?_⟩
    rcases hs with rfl | hlt
    · exact hgrown
    · rcases hgrown with rfl | hlt'
      · exact .inr hlt
      · exact .inr (hlt.trans hlt')
  | acking node s => exact trivial

section Step

variable {r b : Nat} {c c' : Cluster}

variable {s t : RestoredState}

theorem Base.held_unique (hbase : Base r b c) (hs : Held c s) (ht : Held c t)
    (hid : s.ruleID = t.ruleID) : s = t := by
  have hkey := (hbase.records s hs).same_key (hbase.records t ht) hid
  refine checkpointHash_injective hkey (Option.some.inj ?_)
  rw [← hs, ← ht, hkey]

theorem Base.reaches_le (hbase : Base r b c) (ht : Held c t) {u : Stamp}
    (h : Reaches c t.ruleID u) : u ≤ t.stamp := by
  obtain ⟨t', ht', hid, hle⟩ := h
  obtain rfl := hbase.held_unique ht' ht hid
  exact hle

theorem Synced.locally (hsync : Synced c) {dirty' : Nat → DirtySet}
    (hdirty : ∀ node ruleID entry, dirty' node ruleID = some entry →
      Reaches c ruleID entry.stamp) (hflights : ∀ f ∈ flights', FlightSynced c f)
    (hpending : ∀ t, Held c t → Pending c t → ∀ row, readState c.database t.ruleID = some row →
      t.ruleRevision = row.ruleRevision → row.snapshotVersion < t.snapshotVersion →
        Pending { c with dirty := dirty', flights := flights' } t) :
    Synced { c with dirty := dirty', flights := flights' } where
  dirty node ruleID entry hentry := hdirty node ruleID entry hentry
  flights f hf := (hflights f hf).mono (.of_store_eq rfl) rfl
  records t ht row hrow hrev :=
    (hsync.records t ht row hrow hrev).imp id fun ⟨hlt, hpend⟩ =>
      ⟨hlt, fun hby => hpending t ht (hpend hby) row hrow hrev hlt⟩

variable {f : Flight}

theorem Synced.takes (hsync : Synced c) {left : List Flight}
    (htakes : Takes c.flights f left flights') (hleft : ∀ g ∈ left, FlightSynced c g) :
    ∀ g ∈ flights', FlightSynced c g := by
  intro g hg
  rcases htakes.old_or_left hg with hold | hnew
  · exact hsync.flights g hold
  · exact hleft g hnew

theorem Pending.takes (h : Pending c t) {left : List Flight}
    (htakes : Takes c.flights f left flights')
    (hf : ∀ node marks, f = .marking node marks → marks = []) :
    Pending { c with flights := flights' } t := by
  rcases h with ⟨node, marks, hflight, m, hm, hval⟩ | hentry
  · rcases htakes.taken_or_kept hflight with heq | hkept
    · rw [hf node marks heq.symm] at hm
      cases hm
    · exact .inl ⟨node, marks, hkept, m, hm, hval⟩
  · exact .inr hentry

theorem Synced.take (hsync : Synced c) {left : List Flight}
    (htakes : Takes c.flights f left flights')
    (hf : ∀ node marks, f = .marking node marks → marks = [])
    (hleft : ∀ g ∈ left, FlightSynced c g) : Synced { c with flights := flights' } :=
  hsync.locally hsync.dirty (hsync.takes htakes hleft) fun _ _ hpend _ _ _ _ =>
    hpend.takes htakes hf

theorem Synced.launch (hsync : Synced c) (hf : FlightSynced c f) :
    Synced { c with flights := f :: c.flights } := by
  refine hsync.locally hsync.dirty (fun g hg => ?_) fun t _ hpend _ _ _ _ => ?_
  · rcases mem_cons.mp hg with rfl | hg
    · exact hf
    · exact hsync.flights g hg
  · rcases hpend with ⟨node, marks, hflight, hm⟩ | hentry
    · exact .inl ⟨node, marks, .tail _ hflight, hm⟩
    · exact .inr hentry

variable {store' : QuotaStore} {marks : List Mark}

theorem recordsGrow_of_changes (hchanges : Changes b c.store store' marks)
    (hstore : c'.store = store') :
    RecordsGrow c c' := by
  intro t ht
  rcases hchanges.effect (stateKey t) with hsame | ⟨s, u, hkey, hadv, -⟩
  · exact ⟨t, (congrFun hstore _).trans (hsame.trans ht), rfl, .inl rfl⟩
  · have hs := hadv.before
    rw [hkey] at hs
    obtain rfl := checkpointHash_injective (hadv.key.trans hkey)
      (Option.some.inj (hs.symm.trans ht))
    refine ⟨u, (congrFun hstore _).trans hadv.after, congrArg Prod.snd hkey, .inr ?_⟩
    exact stamp_lt.mpr (.inr ⟨hadv.revision.symm, by have h := hadv.version; omega⟩)

theorem Synced.script (hsync : Synced c) {tickets' : List Ticket}
    (hchanges : Changes b c.store store' marks) (node : Nat) :
    Synced (c.script node store' marks tickets') := by
  have hgrow : RecordsGrow c (c.script node store' marks tickets') :=
    recordsGrow_of_changes hchanges rfl
  refine ⟨fun n i e he => (hsync.dirty n i e he).mono hgrow, fun f hf => ?_,
    fun t ht row hrow hrev => ?_⟩
  · rcases mem_cons.mp hf with rfl | hf
    · intro m hm
      obtain ⟨s, u, hadv, rfl⟩ := hchanges.marks m hm
      exact ⟨u, hadv.after, rfl, le_rfl⟩
    · exact (hsync.flights f hf).mono hgrow rfl
  · rcases hchanges.effect (stateKey t) with hsame | ⟨s, u, hkey, hadv, hmem⟩
    · refine (hsync.records t (hsame.symm.trans ht) row hrow hrev).imp id fun ⟨hlt, hpend⟩ =>
        ⟨hlt, fun hby => ?_⟩
      rcases hpend fun hnone => hby ((if_pos hsame).trans hnone) with
        ⟨n, ms, hflight, hm⟩ | hentry
      · exact .inl ⟨n, ms, .tail _ hflight, hm⟩
      · exact .inr hentry
    · have hu := hadv.after
      rw [hkey] at hu
      obtain rfl := checkpointHash_injective hkey (Option.some.inj (hu.symm.trans ht))
      have hid : s.ruleID = u.ruleID := congrArg Prod.snd hadv.key
      have hversion := hadv.version
      refine .inr ⟨?_, fun _ => .inl ⟨node, marks, .head _, markOf u, hmem, rfl, rfl⟩⟩
      have hs : Held c s := by
        unfold Held
        rw [hadv.key]
        exact hadv.before
      rcases hsync.records s hs row (hid ▸ hrow) (hadv.revision.symm.trans hrev) with rfl | ⟨hlt, -⟩
      · omega
      · omega

theorem Synced.unanswered (hsync : Synced c) (hchanges : Changes b c.store store' marks) :
    Synced (c.unanswered store') := by
  have h := @Synced.script _ _ _ _ hsync c.tickets hchanges 0
  refine ⟨h.dirty, fun f hf => (h.flights f (.tail _ hf)).mono (.of_store_eq rfl) rfl,
    fun t ht row hrow hrev => ?_⟩
  rcases h.records t ht row hrow hrev with heq | ⟨hlt, -⟩
  · exact .inl heq
  · refine .inr ⟨hlt, fun hby => ?_⟩
    by_cases hsame : store' (stateKey t) = c.store (stateKey t)
    · rcases hsync.records t (hsame.symm.trans ht) row hrow hrev with rfl | ⟨-, hpend⟩
      · omega
      · exact hpend fun hnone => hby ((if_pos hsame).trans hnone)
    · exact absurd (if_neg hsame) hby

variable {node : Nat}

theorem Synced.hydrate (hbase : Base r b c) (hsync : Synced c)
    {targets : List (Rule × RestoredState)}
    (htakes : Takes c.flights (.hydrating node targets) [] flights') :
    Synced { c with
      store := runInit (targets.map Prod.snd) c.store
      flights := flights'
      changedBy := touched node c.store (runInit (targets.map Prod.snd) c.store) c.changedBy } := by
  obtain ⟨hnodup, htargets⟩ := hbase.flights _ htakes.mem
  have hread : FlightSynced c (.hydrating node targets) := hsync.flights _ htakes.mem
  have heffect := runInit_effect hbase.typed hnodup fun p hp => (htargets p hp).1
  have hgrow : RecordsGrow c { c with
      store := runInit (targets.map Prod.snd) c.store
      flights := flights'
      changedBy := touched node c.store (runInit (targets.map Prod.snd) c.store) c.changedBy } := by
    intro t ht
    rcases heffect (stateKey t) with hsame | ⟨p, hp, hkey, hval, hbefore⟩
    · exact ⟨t, hsame.trans ht, rfl, .inl rfl⟩
    · refine ⟨p.2, (congrArg _ hkey).trans hval, congrArg Prod.snd hkey, .inr ?_⟩
      rcases hbefore with hnone | ⟨s, hskey, hs, hlt⟩
      · cases hnone.symm.trans ht
      · obtain rfl := checkpointHash_injective hskey (Option.some.inj (hs.symm.trans ht))
        exact stamp_lt.mpr (.inl hlt)
  refine ⟨fun n i e he => (hsync.dirty n i e he).mono hgrow, fun f hf => ?_,
    fun t ht row hrow hrev => ?_⟩
  · exact ((hsync.takes htakes fun _ h => no_left h) f hf).mono hgrow rfl
  · rcases heffect (stateKey t) with hsame | ⟨p, hp, hkey, hval, hbefore⟩
    · exact (hsync.records t (hsame.symm.trans ht) row hrow hrev).imp id fun ⟨hlt, hpend⟩ =>
        ⟨hlt, fun hby => (hpend fun hnone => hby ((if_pos hsame).trans hnone)).takes htakes nofun⟩
    · obtain rfl := checkpointHash_injective hkey (Option.some.inj (hval.symm.trans ht))
      rcases hread p hp row hrow hrev with heq | ⟨t', ht', hid, hle⟩
      · exact .inl heq.symm
      · have hknown := hbase.records t' ht'
        have hkey' : stateKey t' = stateKey p.2 := hknown.same_key (htargets p hp).2 hid
        rcases hbefore with hnone | ⟨s, hskey, hs, hlt⟩
        · rw [← hkey'] at hnone
          cases hnone.symm.trans ht'
        · rw [← hkey'] at hs hskey
          obtain rfl := checkpointHash_injective hskey (Option.some.inj (hs.symm.trans ht'))
          rcases stamp_le.mp hle with h | ⟨h, -⟩ <;> omega

theorem Synced.mark (hbase : Base r b c) (hsync : Synced c) {m : Mark}
    (htakes : Takes c.flights (.marking node (m :: marks)) [.marking node marks] flights') :
    Synced (c.setDirty node (markDirty (c.dirty node) m) flights') := by
  have hmarks : FlightSynced c (.marking node (m :: marks)) := hsync.flights _ htakes.mem
  refine hsync.locally (fun other ruleID entry hentry => ?_) (hsync.takes htakes fun g hg => ?_)
    fun t ht hpend _ _ _ _ => ?_
  · rcases eq_or_ne other node with rfl | hne
    · rw [update_self] at hentry
      rcases markDirty_eq_some hentry with hold | ⟨rfl, rfl⟩
      · exact hsync.dirty other ruleID entry hold
      · exact hmarks m (.head _)
    · rw [update_of_ne hne] at hentry
      exact hsync.dirty other ruleID entry hentry
  · obtain rfl := mem_singleton.mp hg
    exact fun x hx => hmarks x (mem_cons_of_mem _ hx)
  · have hentry : ∀ entry, c.dirty node t.ruleID = some entry → entry.stamp ≤ t.stamp :=
      fun entry he => hbase.reaches_le ht (hsync.dirty node t.ruleID entry he)
    have hmark : m.ruleID = t.ruleID → m.stamp ≤ t.stamp := fun hid =>
      hbase.reaches_le ht (hid ▸ hmarks m (.head _))
    have hdirty : (m.ruleID = t.ruleID ∧ m.stamp = t.stamp ∨
        ∃ entry, c.dirty node t.ruleID = some entry ∧ entry.stamp = t.stamp) →
        Pending (c.setDirty node (markDirty (c.dirty node) m) flights') t := by
      intro hreached
      obtain ⟨entry, hval, hstamp⟩ := markDirty_latest hentry hmark hreached
      exact .inr ⟨node, entry, (congrFun (update_self _ _ _) _).trans hval, hstamp⟩
    rcases hpend with ⟨other, ms, hflight, x, hx, hid, hstamp⟩ | ⟨other, entry, hval, hstamp⟩
    · rcases htakes.taken_or_kept hflight with heq | hkept
      · cases heq
        rcases mem_cons.mp hx with rfl | hx
        · exact hdirty (.inl ⟨hid, hstamp⟩)
        · exact .inl ⟨node, marks, htakes.left_mem (mem_singleton.mpr rfl), x, hx, hid, hstamp⟩
      · exact .inl ⟨other, ms, hkept, x, hx, hid, hstamp⟩
    · rcases eq_or_ne other node with rfl | hne
      · exact hdirty (.inr ⟨entry, hval, hstamp⟩)
      · exact .inr ⟨other, entry, (congrFun (update_of_ne hne _ _) _).trans hval, hstamp⟩

theorem Synced.read (hbase : Base r b c) (hb : b + 1 < 10 ^ 14) (hsync : Synced c) {ruleID : Nat}
    {entry : DirtyRule} (htakes : Takes c.flights (.observed node ruleID entry)
      (afterRead node ruleID entry
        (readCandidate ruleID entry (c.store (entry.accessKeyID, ruleID)))) flights') :
    Synced { c with flights := flights' } := by
  obtain ⟨t, ht, rfl, hle⟩ : Reaches c ruleID entry.stamp := hsync.flights _ htakes.mem
  have hentry := hbase.flights _ htakes.mem
  refine hsync.take htakes nofun fun g hg => ?_
  rw [readCandidate_of_record hbase hb ht hentry, if_pos (coveredBy_iff.mpr hle)] at hg
  obtain rfl := mem_singleton.mp hg
  exact ⟨t, ht, rfl, .inl rfl⟩

theorem Synced.ack (hbase : Base r b c) (hsync : Synced c)
    (htakes : Takes c.flights (.acking node s) [] flights') :
    Synced (c.setDirty node (Quota.ack (c.dirty node) s) flights') := by
  have hacking := hbase.flights _ htakes.mem
  have hflights := hsync.takes htakes fun _ h => no_left h
  rcases ack_cases (c.dirty node) s with h | ⟨entry, hentry, hle, h⟩
  · rw [h]
    unfold Cluster.setDirty
    rw [update_eq_self]
    exact hsync.take htakes nofun fun _ h => no_left h
  · rw [h]
    refine hsync.locally (fun other ruleID e he => ?_) hflights
      fun t ht hpend row hrow hrev hlt => ?_
    · rcases eq_or_ne other node with rfl | hne
      · rw [update_self] at he
        rcases Update.cases he with ⟨rfl, heq⟩ | ⟨-, he⟩
        · cases heq
        · exact hsync.dirty other ruleID e he
      · rw [update_of_ne hne] at he
        exact hsync.dirty other ruleID e he
    · rcases hpend.takes htakes nofun with hmarks | ⟨other, e, he, hstamp⟩
      · exact .inl hmarks
      · refine .inr ⟨other, e, ?_, hstamp⟩
        rcases eq_or_ne other node with rfl | hne
        · change update c.dirty other _ other t.ruleID = some e
          rw [update_self]
          rcases eq_or_ne t.ruleID s.ruleID with hid | hne
          · obtain ⟨row', hrow', -, hcovered⟩ := hacking
            rw [← hid] at hrow' hentry
            obtain rfl := Option.some.inj (hrow.symm.trans hrow')
            obtain rfl := Option.some.inj (hentry.symm.trans he)
            rcases stamp_le.mp ((hstamp ▸ hle).trans hcovered) with h | ⟨-, h⟩ <;> omega
          · rw [update_of_ne hne]
            exact he
        · exact (congrFun (update_of_ne hne _ _) _).trans he

theorem Synced.write (hbase : Base r b c) (hsync : Synced c) {written : Option RestoredState}
    {db' : Database} (hgrows : Grows written c.database db') (hwritten : ∀ s, written = some s →
      ∃ t, Held c t ∧ stateKey t = stateKey s ∧ (s = t ∨ s.stamp < t.stamp))
    (hold : ∀ f ∈ flights', f ∈ c.flights ∨ ∃ node s, f = .acking node s)
    (hpending : ∀ t, Pending c t → Pending { c with flights := flights' } t) :
    Synced { c with database := db', flights := flights' } := by
  refine ⟨hsync.dirty, fun f hf => ?_, fun t ht row' hrow' hrev => ?_⟩
  · rcases hold f hf with hmem | ⟨node, s, rfl⟩
    · have hf := hsync.flights f hmem
      cases f with
      | hydrating node targets =>
        intro p hp row' hrow' hrev
        obtain ⟨-, htargets⟩ := hbase.flights _ hmem
        obtain ⟨row, hrow, hchange⟩ := (hgrows p.2.ruleID).read_back hrow'
        cases hchange with
        | same => exact hf p hp row' hrow hrev
        | snapshot s hs hid hrevision hversion =>
          obtain ⟨t, ht, hkey, hst⟩ := hwritten s hs
          refine .inr ⟨t, ht, ?_, ?_⟩
          · exact (congrArg Prod.snd hkey).trans (hid.trans (readState_key hrow))
          · have hle : s.stamp ≤ t.stamp := hst.elim (fun h => h ▸ le_rfl) le_of_lt
            exact (stamp_le.mpr (.inr ⟨rfl, Nat.zero_le _⟩)).trans hle
        | reset =>
          obtain ⟨row₀, hrow₀, -, hle⟩ := (htargets p hp).2
          obtain rfl := Option.some.inj (hrow.symm.trans hrow₀)
          change p.2.ruleRevision = row.ruleRevision + 1 at hrev
          rcases stamp_le.mp hle with h | ⟨h, -⟩ <;> omega
      | _ => exact hf
    · exact trivial
  · obtain ⟨row, hrow, hchange⟩ := (hgrows t.ruleID).read_back hrow'
    have hknown := hbase.records t ht
    cases hchange with
    | same =>
      exact (hsync.records t ht row' hrow hrev).imp id fun ⟨hlt, hpend⟩ =>
        ⟨hlt, fun hby => hpending t (hpend hby)⟩
    | snapshot s hs hid hrevision hversion =>
      obtain ⟨t', ht', hkey, hst⟩ := hwritten s hs
      have hid' : t'.ruleID = t.ruleID :=
        (congrArg Prod.snd hkey).trans (hid.trans (readState_key hrow))
      obtain rfl := hbase.held_unique ht' ht hid'
      obtain ⟨row₀, hrow₀, hown, -⟩ := hknown
      obtain rfl := Option.some.inj (hrow.symm.trans hrow₀)
      have hsame : { s with accessKeyID := row.accessKeyID } = s := by
        rw [hown, show t'.accessKeyID = s.accessKeyID from congrArg Prod.fst hkey]
      rw [hsame]
      rcases hst with rfl | hlt
      · exact .inl rfl
      · have hver : s.snapshotVersion < t'.snapshotVersion := by
          change t'.ruleRevision = s.ruleRevision at hrev
          rcases stamp_lt.mp hlt with h | ⟨-, h⟩ <;> omega
        rcases hsync.records t' ht row hrow (hrev.trans hrevision.symm) with rfl | ⟨-, hpend⟩
        · omega
        · exact .inr ⟨hver, fun hby => hpending t' (hpend hby)⟩
    | reset =>
      obtain ⟨row₀, hrow₀, -, hle⟩ := hknown
      obtain rfl := Option.some.inj (hrow.symm.trans hrow₀)
      change t.ruleRevision = row.ruleRevision + 1 at hrev
      rcases stamp_le.mp hle with h | ⟨h, -⟩ <;> omega

theorem Synced.step (hbase : Base r b c) (hr : r ≤ 2 ^ 53) (hb : b + 1 < 10 ^ 14)
    (hsync : Synced c) (hstep : Step c c') : Synced c' := by
  cases hstep with
  | evaluate node mode a rules nowMS hkey hrules hnow =>
    exact hsync.script (hbase.evaluateChanges hr hb mode a hrules hnow) node
  | complete node ticket cost hticket hcost =>
    exact hsync.script (hbase.completeChanges hb hticket hcost) node
  | readCheckpoints node a targets hread =>
    refine hsync.launch fun p hp row hrow _ => .inl ?_
    obtain ⟨hread, -⟩ := hread.2 p hp
    rw [readState_key hread] at hrow
    exact Option.some.inj (hread.symm.trans hrow)
  | hydrate node targets flights' htakes => exact hsync.hydrate hbase htakes
  | mark node m marks flights' htakes => exact hsync.mark hbase htakes
  | marked node flights' htakes =>
    exact hsync.take htakes (fun _ _ h => (by cases h; rfl)) fun _ h => no_left h
  | observe node ruleID entry hentry => exact hsync.launch (hsync.dirty node ruleID entry hentry)
  | read node ruleID entry flights' htakes => exact hsync.read hbase hb htakes
  | drop node ruleID entry flights' htakes => exact (hsync.flights _ htakes.mem).elim
  | persist node s db' outcome flights' hpersist htakes =>
    obtain ⟨t, ht, hid, hst⟩ : FlightSynced c (.writing node s) := hsync.flights _ htakes.mem
    obtain ⟨-, hknown⟩ : FlightOk c.database b (.writing node s) := hbase.flights _ htakes.mem
    refine hsync.write hbase (persist_rowChange hpersist) ?_ (fun f hf => ?_) fun u hpend => ?_
    · rintro _ ⟨⟩
      exact ⟨t, ht, (hbase.records t ht).same_key hknown hid, hst⟩
    · exact (htakes.old_or_left hf).imp id fun hnew => ⟨node, s, mem_singleton.mp hnew⟩
    · exact hpend.takes htakes nofun
  | ack node s flights' htakes => exact hsync.ack hbase htakes
  | abandonObserved node ruleID entry flights' htakes | abandonWriting node s flights' htakes
  | abandonAcking node s flights' htakes =>
    exact hsync.take htakes nofun fun _ h => no_left h
  | advance ruleID db' hadvance =>
    exact hsync.write hbase (advanceRule_rowChange hadvance) nofun
      (fun f hf => .inl hf) fun _ h => h

theorem Step.grows (hstep : Step c c') : ∃ written, Grows written c.database c'.database ∧
    ∀ s, written = some s → ∃ node, .writing node s ∈ c.flights := by
  have hnone : ∃ written, Grows written c.database c.database ∧
      ∀ s, written = some s → ∃ node, .writing node s ∈ c.flights :=
    ⟨none, .refl _, nofun⟩
  cases hstep with
  | persist node s db' outcome flights' hpersist htakes =>
    refine ⟨some s, persist_rowChange hpersist, ?_⟩
    rintro _ ⟨⟩
    exact ⟨node, htakes.mem⟩
  | advance ruleID db' hadvance =>
    exact ⟨none, advanceRule_rowChange hadvance, nofun⟩
  | _ => exact hnone

theorem Step.snapshots (hbase : Base r b c) (hb : b + 1 < 10 ^ 14) (hsync : Synced c)
    (hstep : Step c c') (hmem : .writing node s ∈ c'.flights) :
    .writing node s ∈ c.flights ∨ Held c s := by
  have hcons : ∀ {f : Flight}, (∀ node s, f ≠ .writing node s) →
      .writing node s ∈ f :: c.flights → .writing node s ∈ c.flights ∨ Held c s :=
    fun hf h => .inl ((mem_cons.mp h).resolve_left fun heq => hf node s heq.symm)
  have htaken : ∀ {f : Flight} {left flights' : List Flight}, Takes c.flights f left flights' →
      (∀ node s, .writing node s ∈ left → Held c s) →
      .writing node s ∈ flights' → .writing node s ∈ c.flights ∨ Held c s :=
    fun htakes hleft h => (htakes.old_or_left h).imp id (hleft node s)
  cases hstep with
  | hydrate _ _ _ htakes | marked _ _ htakes | drop _ _ _ _ htakes | ack _ _ _ htakes
  | abandonObserved _ _ _ _ htakes | abandonWriting _ _ _ htakes | abandonAcking _ _ _ htakes =>
    exact htaken htakes (fun _ _ h => no_left h) hmem
  | mark _ _ _ _ htakes =>
    exact htaken htakes (fun _ _ h => (by cases mem_singleton.mp h)) hmem
  | read other ruleID entry flights' htakes =>
    obtain ⟨t, ht, rfl, hle⟩ : Reaches c ruleID entry.stamp := hsync.flights _ htakes.mem
    refine htaken htakes (fun n u h => ?_) hmem
    rw [readCandidate_of_record hbase hb ht (hbase.flights _ htakes.mem),
      if_pos (coveredBy_iff.mpr hle)] at h
    obtain ⟨-, rfl⟩ := Flight.writing.inj (mem_singleton.mp h)
    exact ht
  | persist _ _ _ _ _ _ htakes =>
    exact htaken htakes (fun _ _ h => (by cases mem_singleton.mp h)) hmem
  | advance => exact .inl hmem
  | _ => exact hcons (fun _ _ h => (by cases h)) hmem

end Step

structure Recorded (db : Database) (past : List Cluster) (c : Cluster) : Prop where
  grown : ∀ c₀ ∈ past, ∀ ruleID row₀, readState c₀.database ruleID = some row₀ →
    ∃ row, readState c.database ruleID = some row ∧ row₀.stamp ≤ row.stamp
  rows : ∀ ruleID row, readState c.database ruleID = some row →
    readState db ruleID = some row ∨ rowFrom row = resetRow row.ruleRevision ∨
      ∃ c₀ ∈ past, Held c₀ row
  writing : ∀ node s, Flight.writing node s ∈ c.flights → ∃ c₀ ∈ past, Held c₀ s

variable {db : Database} {past : List Cluster} {c : Cluster}

theorem Recorded.step {r b : Nat} {c' : Cluster} (hbase : Base r b c) (h : Recorded db past c)
    (hgrows : ∃ written, Grows written c.database c'.database ∧
      ∀ s, written = some s → ∃ node, .writing node s ∈ c.flights)
    (hsnapshots : ∀ node s, .writing node s ∈ c'.flights → .writing node s ∈ c.flights ∨ Held c s) :
    Recorded db (c :: past) c' := by
  obtain ⟨written, hgrows, hwritten⟩ := hgrows
  refine ⟨fun c₀ hc₀ ruleID row₀ hrow₀ => ?_, fun ruleID row' hrow' => ?_, fun node s hmem => ?_⟩
  · have hlast : ∃ row, readState c.database ruleID = some row ∧ row₀.stamp ≤ row.stamp := by
      rcases mem_cons.mp hc₀ with rfl | hc₀
      · exact ⟨row₀, hrow₀, le_rfl⟩
      · exact h.grown c₀ hc₀ ruleID row₀ hrow₀
    obtain ⟨row, hrow, hle⟩ := hlast
    obtain ⟨row', hrow', hchange⟩ := (hgrows ruleID).read hrow
    exact ⟨row', hrow', hle.trans hchange.stamp_le⟩
  · obtain ⟨row, hrow, hchange⟩ := (hgrows ruleID).read_back hrow'
    cases hchange with
    | same =>
      refine (h.rows ruleID row' hrow).imp id (.imp id ?_)
      rintro ⟨c₀, hc₀, hheld⟩
      exact ⟨c₀, .tail _ hc₀, hheld⟩
    | snapshot s hs hid hrevision hversion =>
      obtain ⟨node, hflight⟩ := hwritten s hs
      obtain ⟨-, hknown⟩ : FlightOk c.database _ (.writing node s) := hbase.flights _ hflight
      obtain ⟨row₀, hrow₀, hown, -⟩ := hknown
      rw [hid, readState_key hrow] at hrow₀
      obtain rfl := Option.some.inj (hrow.symm.trans hrow₀)
      obtain ⟨c₀, hc₀, hheld⟩ := h.writing node s hflight
      have hsame : { s with accessKeyID := row.accessKeyID } = s := by rw [hown]
      rw [hsame]
      exact .inr (.inr ⟨c₀, .tail _ hc₀, hheld⟩)
    | reset => exact .inr (.inl rfl)
  · rcases hsnapshots node s hmem with hold | hheld
    · obtain ⟨c₀, hc₀, hheld⟩ := h.writing node s hold
      exact ⟨c₀, .tail _ hc₀, hheld⟩
    · exact ⟨c, .head _, hheld⟩

theorem Trace.invariant {r b : Nat} (hdb : DatabaseOk r b db) (hrun : Trace db past c)
    (hr : r + past.length ≤ 2 ^ 53) (hb : b + past.length < 10 ^ 14) :
    Base (r + past.length) (b + past.length) c ∧ Synced c ∧ Recorded db past c := by
  induction hrun with
  | start =>
    refine ⟨.initial hdb, .initial db, nofun, fun ruleID row hrow => .inl hrow, nofun⟩
  | @step past c c' hrun hstep ih =>
    rw [length_cons] at hr hb
    obtain ⟨hbase, hsync, hrec⟩ := ih (by omega) (by omega)
    exact ⟨hbase.step (by omega) (by omega) hstep, hsync.step hbase (by omega) (by omega) hstep,
      hrec.step hbase hstep.grows fun _ _ => hstep.snapshots hbase (by omega) hsync⟩
  | @unanswered past c c' hrun hlost ih =>
    rw [length_cons] at hr hb
    obtain ⟨hbase, hsync, hrec⟩ := ih (by omega) (by omega)
    obtain ⟨store', marks, rfl, hchanges⟩ := hlost.changes hbase (by omega) (by omega)
    exact ⟨hbase.unanswered hchanges, hsync.unanswered hchanges,
      hrec.step hbase ⟨none, .refl _, nofun⟩ fun _ _ => .inl⟩

theorem Synced.at_rest {r b : Nat} (hbase : Base r b c) (hsync : Synced c)
    (hflights : c.flights = []) (hdirty : ∀ node ruleID, c.dirty node ruleID = none) {ruleID : Nat}
    {row : RestoredState} (hrow : readState c.database ruleID = some row) {hash : QuotaHash}
    (hhash : c.store (stateKey row) = some hash) (hrev : hash.rev = digits row.ruleRevision)
    (hanswered : c.changedBy (stateKey row) ≠ none) : hash = checkpointHash row := by
  obtain ⟨t, hkey, rfl, -⟩ := hbase.typed _ _ hhash
  have ht : Held c t := (congrArg c.store hkey).trans hhash
  have hid : t.ruleID = ruleID := (congrArg Prod.snd hkey).trans (readState_key hrow)
  rcases hsync.records t ht row (hid ▸ hrow) (digits_inj.mp hrev) with rfl | ⟨-, hpending⟩
  · rfl
  · rcases hpending (by rwa [hkey]) with ⟨node, marks, hflight, -⟩ | ⟨node, entry, hentry, -⟩
    · rw [hflights] at hflight
      cases hflight
    · rw [hdirty] at hentry
      cases hentry

/-- The database never goes back, holds only reset rows and states that Redis
had, and at rest agrees with every record whose last change was answered. -/
theorem checkpoints_at_rest {r b : Nat} {db : Database} (hdb : DatabaseOk r b db)
    {past : List Cluster} {c : Cluster} (hrun : Trace db past c)
    (hr : r + past.length ≤ 2 ^ 53) (hb : b + past.length < 10 ^ 14) :
    (∀ c₀ ∈ past, ∀ ruleID row₀, readState c₀.database ruleID = some row₀ →
      ∃ row, readState c.database ruleID = some row ∧ row₀.stamp ≤ row.stamp) ∧
    (∀ ruleID row, readState c.database ruleID = some row →
      readState db ruleID = some row ∨ rowFrom row = resetRow row.ruleRevision ∨
        ∃ c₀ ∈ past, c₀.store (stateKey row) = some (checkpointHash row)) ∧
    (c.flights = [] → (∀ node ruleID, c.dirty node ruleID = none) →
      ∀ ruleID row, readState c.database ruleID = some row → ∀ hash,
        c.store (stateKey row) = some hash → hash.rev = digits row.ruleRevision →
          c.changedBy (stateKey row) ≠ none → hash = checkpointHash row) := by
  obtain ⟨hbase, hsync, hrec⟩ := hrun.invariant hdb hr hb
  refine ⟨hrec.grown, hrec.rows, ?_⟩
  intro hflights hdirty ruleID row hrow hash hhash hrev hanswered
  exact hsync.at_rest hbase hflights hdirty hrow hhash hrev hanswered

section MeterTraces

def admittedCluster (version : Nat) : Cluster :=
  ((Cluster.initial (meterDatabase version)).readMeter version).proceed.admitMeter.proceed

theorem admittedCluster_trace {version : Nat}
    (hversion : Accepted (totalRule 1) (freshState (totalRule 1) 0 version)) :
    ∃ past, past.length = 4 ∧ Trace (meterDatabase version) past (admittedCluster version) := by
  have hread := Trace.step .start (readMeter_step rfl hversion)
  have hhydrated := Trace.step hread (Cluster.proceed_step (cons_ne_nil _ _))
  have hadmitted := Trace.step hhydrated (@admitMeter_step _ version rfl)
  exact ⟨_, rfl, .step hadmitted (Cluster.proceed_step (cons_ne_nil _ _))⟩

def flushedCluster : Cluster :=
  ({ (admittedCluster 1).chargeMeter.proceed.proceed with
      flights := [.observed 0 7 ⟨1, 1, 2⟩] } : Cluster).proceed.proceed.proceed

theorem flushedCluster_trace :
    ∃ past, past.length = 11 ∧ Trace (meterDatabase 1) past flushedCluster := by
  obtain ⟨past, hlength, hadmitted⟩ := @admittedCluster_trace 1 ⟨_, rfl⟩
  have hcharged := Trace.step hadmitted (chargeMeter_step (by decide))
  have hmark := Trace.step hcharged (Cluster.proceed_step (by decide))
  have hmarked := Trace.step hmark (Cluster.proceed_step (by decide))
  have hobserved := Trace.step hmarked (.observe 0 7 ⟨1, 1, 2⟩ (by decide))
  have hread := Trace.step hobserved (Cluster.proceed_step (by decide))
  have hwritten := Trace.step hread (Cluster.proceed_step (by decide))
  exact ⟨_, by simp only [length_cons, hlength], .step hwritten (Cluster.proceed_step (by decide))⟩

theorem flushedCluster_clean (node ruleID : Nat) : flushedCluster.dirty node ruleID = none := by
  rcases eq_or_ne node 0 with rfl | hnode
  · rcases eq_or_ne ruleID 7 with rfl | hrule
    · decide
    · change update (update (fun _ => none) 7 _) 7 none ruleID = none
      rw [update_of_ne hrule, update_of_ne hrule]
  · change update (update (fun _ _ => none) 0 _) 0 _ node ruleID = none
    rw [update_of_ne hnode, update_of_ne hnode]

theorem flushedCluster_at_rest :
    readState flushedCluster.database 7 = some (freshState (totalRule 1) 5 2) ∧
      flushedCluster.store (1, 7) = some (checkpointHash (freshState (totalRule 1) 5 2)) := by
  obtain ⟨past, hlength, hrun⟩ := flushedCluster_trace
  obtain ⟨-, -, hrest⟩ := checkpoints_at_rest (meterDatabase_ok 1) hrun
    (by rw [hlength]; decide) (by rw [hlength]; decide)
  have hrow : readState flushedCluster.database 7 = some (freshState (totalRule 1) 5 2) := by decide
  obtain ⟨hash, hhash, hrev⟩ : ∃ hash, flushedCluster.store (1, 7) = some hash ∧
      hash.rev = digits 1 := ⟨_, rfl, by decide⟩
  refine ⟨hrow, hhash.trans (congrArg some ?_)⟩
  exact hrest (by decide) flushedCluster_clean 7 _ hrow hash hhash hrev (by decide)

/-- The version that the charge produces prints as `1e+14`. -/
def unmarkedCluster : Cluster := (admittedCluster 99999999999999).chargeMeter.proceed

/-- A charge that the database never learns of: its reply was lost, or it cannot be read. -/
theorem unmarked_charge :
    (∃ past c, Trace (meterDatabase 1) past c ∧ c.flights = [] ∧ c.dirty = (fun _ _ => none) ∧
      readState c.database 7 = some (freshState (totalRule 1) 0 1) ∧
      c.store (1, 7) = some (checkpointHash (freshState (totalRule 1) 5 2))) ∧
    ∃ past c, Trace (meterDatabase 99999999999999) past c ∧ c.flights = [] ∧
      c.dirty = (fun _ _ => none) ∧ c.changedBy (1, 7) = some 0 ∧
      readState c.database 7 = some (freshState (totalRule 1) 0 99999999999999) ∧
      c.store (1, 7) = some (checkpointHash (freshState (totalRule 1) 5 100000000000000)) := by
  constructor
  · obtain ⟨past, -, hadmitted⟩ := @admittedCluster_trace 1 ⟨_, rfl⟩
    exact ⟨_, _, hadmitted.unanswered (.complete (meterTicket 1) 5 (by decide) (by decide)), rfl,
      rfl, rfl, by decide⟩
  · obtain ⟨past, -, hadmitted⟩ := @admittedCluster_trace 99999999999999 ⟨_, rfl⟩
    have hcharged := Trace.step hadmitted (chargeMeter_step (by decide))
    exact ⟨_, unmarkedCluster, .step hcharged (Cluster.proceed_step (by decide)), by decide, rfl,
      by decide, rfl, by decide⟩

end MeterTraces

end EchoJoyGateway.Quota
