import EchoJoyGateway.Quota.Charges
import EchoJoyGateway.Quota.Cluster

/-!
# What an instance remembers of its own changes

A change that an instance made last and that the database does not hold yet is
in its dirty set once its calls have ended, as long as each of its changes is
made when nothing the instance still remembers of the rule is ahead of the new
version. A key that was lost and hydrated from an older checkpoint breaks this
condition, and then the change is forgotten.
-/

namespace EchoJoyGateway.Quota

open Decimal LuaNumber Redis List
open Function (update update_of_ne update_self)

variable {c : Cluster}

structure Clear (node : Nat) (c : Cluster) (s : RestoredState) : Prop where
  entry : ∀ entry, c.dirty node s.ruleID = some entry →
    entry.coveredBy s.ruleRevision (s.snapshotVersion + 1) = true
  marks : ∀ marks, Flight.marking node marks ∈ c.flights → ∀ m ∈ marks, m.ruleID = s.ruleID →
    m.stamp ≤ stamp s.ruleRevision (s.snapshotVersion + 1)
  drops : ∀ entry, Flight.dropping node s.ruleID entry ∈ c.flights →
    entry.stamp ≠ stamp s.ruleRevision (s.snapshotVersion + 1)

/-- The condition on a step: when a script of the instance changes a record at
its revision, the record is clear before. -/
def Guarded (node : Nat) (c c' : Cluster) : Prop :=
  ∀ s t, c.store (stateKey s) = some (checkpointHash s) → stateKey t = stateKey s →
    c'.store (stateKey s) = some (checkpointHash t) → t.ruleRevision = s.ruleRevision → t ≠ s →
    c'.changedBy (stateKey s) = some node → Clear node c s

/-- Runs in which keys may be lost, of steps that meet a condition. -/
inductive LossyRun (guard : Cluster → Cluster → Prop) (db : Database) : Nat → Cluster → Prop
  | start : LossyRun guard db 0 (Cluster.initial db)
  | step {n : Nat} {c c' : Cluster} (hrun : LossyRun guard db n c) (hstep : Step c c')
      (hguard : guard c c') : LossyRun guard db (n + 1) c'
  | loss {n : Nat} {c c' : Cluster} (hrun : LossyRun guard db n c) (hloss : Loss c c') :
      LossyRun guard db (n + 1) c'

/-- The last change of a record was made by the instance, the database does
not hold it, and the instance has no call in flight: then the rule is dirty. -/
def NeverForgets (node : Nat) (c : Cluster) : Prop :=
  (∀ f ∈ c.flights, f.node ≠ node) → ∀ t, c.store (stateKey t) = some (checkpointHash t) →
    c.changedBy (stateKey t) = some node → ∀ row, readState c.database t.ruleID = some row →
      row.stamp < t.stamp → ∃ entry, c.dirty node t.ruleID = some entry

/-- The instance still knows of its change, and nothing it remembers can hide
it. -/
structure Tracked (node : Nat) (c : Cluster) (t : RestoredState) : Prop where
  present : (∃ marks, Flight.marking node marks ∈ c.flights ∧
      ∃ m ∈ marks, m.ruleID = t.ruleID ∧ m.stamp = t.stamp) ∨
    ∃ entry, c.dirty node t.ruleID = some entry ∧ entry.stamp = t.stamp
  entry : ∀ entry, c.dirty node t.ruleID = some entry → entry.stamp ≤ t.stamp
  marks : ∀ marks, Flight.marking node marks ∈ c.flights → ∀ m ∈ marks, m.ruleID = t.ruleID →
    m.stamp ≤ t.stamp
  drops : ∀ entry, Flight.dropping node t.ruleID entry ∈ c.flights → entry.stamp ≠ t.stamp

def Covered (node : Nat) (c : Cluster) : Prop :=
  ∀ t, c.store (stateKey t) = some (checkpointHash t) → c.changedBy (stateKey t) = some node →
    Known c.database t.ruleID t.accessKeyID t.stamp ∨ Tracked node c t

theorem Covered.neverForgets {node : Nat} (h : Covered node c) :
    NeverForgets node c := by
  intro hidle t ht hby row hrow hlt
  rcases h t ht hby with ⟨row', hrow', -, hle⟩ | htracked
  · obtain rfl := Option.some.inj (hrow.symm.trans hrow')
    exact absurd hlt (not_lt_of_ge hle)
  · rcases htracked.present with ⟨marks, hflight, -⟩ | ⟨entry, hentry, -⟩
    · exact absurd rfl (hidle _ hflight)
    · exact ⟨entry, hentry⟩

section Step

variable {node r b : Nat} {c c' : Cluster} {t : RestoredState}

theorem Tracked.frame (h : Tracked node c t)
    (hdirty : c'.dirty node t.ruleID = c.dirty node t.ruleID)
    (hold : ∀ marks, .marking node marks ∈ c'.flights → .marking node marks ∈ c.flights)
    (hkept : ∀ marks, .marking node marks ∈ c.flights → marks ≠ [] →
      .marking node marks ∈ c'.flights)
    (hdrops : ∀ entry, .dropping node t.ruleID entry ∈ c'.flights →
      .dropping node t.ruleID entry ∈ c.flights ∨ entry.stamp ≠ t.stamp) :
    Tracked node c' t where
  present := by
    rcases h.present with ⟨marks, hflight, m, hm, hval⟩ | ⟨entry, hentry, hval⟩
    · exact .inl ⟨marks, hkept marks hflight (ne_nil_of_mem hm), m, hm, hval⟩
    · exact .inr ⟨entry, hdirty.trans hentry, hval⟩
  entry entry hentry := h.entry entry (hdirty.symm.trans hentry)
  marks marks hflight := h.marks marks (hold marks hflight)
  drops entry hflight := by
    rcases hdrops entry hflight with hin | hne
    · exact h.drops entry hin
    · exact hne

variable {f : Flight} {flights' : List Flight}

theorem Tracked.takes (h : Tracked node c t) {left : List Flight}
    (htakes : Takes c.flights f left flights') (hflights : c'.flights = flights')
    (hdirty : c'.dirty node t.ruleID = c.dirty node t.ruleID)
    (hf : ∀ marks, f = .marking node marks → marks = [])
    (hleft : ∀ g ∈ left, (∀ marks, g ≠ .marking node marks) ∧
      ∀ entry, g = .dropping node t.ruleID entry → entry.stamp ≠ t.stamp) :
    Tracked node c' t := by
  subst hflights
  refine h.frame hdirty (fun marks hmem => ?_) (fun marks hmem hne => ?_) fun entry hmem => ?_
  · rcases htakes.old_or_left hmem with hold | hnew
    · exact hold
    · exact absurd rfl ((hleft _ hnew).1 marks)
  · rcases htakes.taken_or_kept hmem with heq | hkept
    · exact absurd (hf marks heq.symm) hne
    · exact hkept
  · rcases htakes.old_or_left hmem with hold | hnew
    · exact .inl hold
    · exact .inr ((hleft _ hnew).2 entry rfl)

theorem no_left {g : Flight} {P : Prop} (h : g ∈ ([] : List Flight)) : P := absurd h not_mem_nil

theorem Known.same_key {db : Database} {s t : RestoredState} {u v : Stamp}
    (hs : Known db s.ruleID s.accessKeyID u) (ht : Known db t.ruleID t.accessKeyID v)
    (hid : s.ruleID = t.ruleID) :
    stateKey s = stateKey t := by
  rw [hid] at hs
  exact Prod.ext (hs.owner ht) hid

theorem Advanced.ne {store store' : QuotaStore} {s u : RestoredState}
    (h : Advanced b store store' s u) : store' (stateKey u) ≠ store (stateKey u) := by
  rw [h.before, h.after]
  intro heq
  have hsu := checkpointHash_injective h.key.symm (Option.some.inj heq)
  have hver := h.version
  rw [hsu] at hver
  omega

variable {marks : List Mark}

theorem Covered.script (hbase : Base r b c) (hcov : Covered node c) {store' : QuotaStore}
    {tickets' : List Ticket} (hchanges : Changes b c.store store' marks) (other : Nat)
    (hguarded : Guarded node c (c.script other store' marks tickets')) :
    Covered node (c.script other store' marks tickets') := by
  intro t ht hby
  have hknown := hbase.record_of_changes hchanges ht
  have hmarks : ∀ m ∈ marks, m.ruleID = t.ruleID →
      m.stamp = t.stamp ∧ store' (stateKey t) ≠ c.store (stateKey t) := by
    intro m hm hid
    obtain ⟨s, u, hadv, rfl⟩ := hchanges.marks m hm
    have hkey := (hbase.record_of_changes hchanges hadv.after).same_key hknown hid
    have hu := hadv.after
    have hne := hadv.ne
    rw [hkey] at hu hne
    obtain rfl := checkpointHash_injective hkey (Option.some.inj (hu.symm.trans ht))
    exact ⟨rfl, hne⟩
  rcases hchanges.effect (stateKey t) with hsame | ⟨s, u, hkey, hadv, hmem⟩
  · have hby' : c.changedBy (stateKey t) = some node := by
      have hval : (c.script other store' marks tickets').changedBy (stateKey t) =
          c.changedBy (stateKey t) := if_pos hsame
      exact hval.symm.trans hby
    refine (hcov t (hsame.symm.trans ht) hby').imp id fun htracked => ?_
    have hnew : ∀ m ∈ marks, m.ruleID ≠ t.ruleID := fun m hm hid => (hmarks m hm hid).2 hsame
    refine ⟨?_, htracked.entry, fun ms hflight m hm hid => ?_, fun entry hflight => ?_⟩
    · rcases htracked.present with ⟨ms, hflight, hm⟩ | hentry
      · exact .inl ⟨ms, .tail _ hflight, hm⟩
      · exact .inr hentry
    · rcases mem_cons.mp hflight with heq | hold
      · cases heq
        exact absurd hid (hnew m hm)
      · exact htracked.marks ms hold m hm hid
    · rcases mem_cons.mp hflight with heq | hold
      · cases heq
      · exact htracked.drops entry hold
  · have hu := hadv.after
    have hne := hadv.ne
    rw [hkey] at hu hne
    obtain rfl := checkpointHash_injective hkey (Option.some.inj (hu.symm.trans ht))
    have hother : other = node := by
      have hval : (c.script other store' marks tickets').changedBy (stateKey u) = some other :=
        if_neg hne
      exact Option.some.inj (hval.symm.trans hby)
    subst hother
    have hskey : stateKey u = stateKey s := hadv.key.symm
    have hclear := hguarded s u (by rw [← hskey]; exact hadv.before) hskey
      (by rw [← hskey]; exact ht) hadv.revision
      (fun heq => by have hver := hadv.version; rw [heq] at hver; omega)
      (by rw [← hskey]; exact hby)
    have hid : s.ruleID = u.ruleID := congrArg Prod.snd hadv.key
    have hstamp : stamp s.ruleRevision (s.snapshotVersion + 1) = u.stamp := by
      rw [← hadv.revision, ← hadv.version]
      rfl
    refine .inr ⟨.inl ⟨marks, .head _, markOf u, hmem, rfl, rfl⟩,
      fun entry hentry => ?_, fun ms hflight m hm hmid => ?_, fun entry hflight => ?_⟩
    · rw [← hstamp]
      exact coveredBy_iff.mp (hclear.entry entry (by rw [hid]; exact hentry))
    · rcases mem_cons.mp hflight with heq | hold
      · cases heq
        exact (hmarks m hm hmid).1.le
      · rw [← hstamp]
        exact hclear.marks ms hold m hm (hmid.trans hid.symm)
    · rcases mem_cons.mp hflight with heq | hold
      · cases heq
      · rw [← hstamp]
        exact hclear.drops entry (by rw [hid]; exact hold)

theorem Covered.hydrate (hbase : Base r b c) (hcov : Covered node c) {other : Nat}
    {targets : List (Rule × RestoredState)}
    (htakes : Takes c.flights (.hydrating other targets) [] flights') :
    Covered node { c with
      store := runInit (targets.map Prod.snd) c.store
      flights := flights'
      changedBy := touched other c.store (runInit (targets.map Prod.snd) c.store)
        c.changedBy } := by
  intro t ht hby
  obtain ⟨hnodup, htargets⟩ := hbase.flights _ htakes.mem
  rcases runInit_effect hbase.typed hnodup (fun p hp => (htargets p hp).1) (stateKey t) with
    hsame | ⟨p, hp, hkey, hval, -⟩
  · have hby' : c.changedBy (stateKey t) = some node := by
      have hval : touched other c.store (runInit (targets.map Prod.snd) c.store) c.changedBy
          (stateKey t) = c.changedBy (stateKey t) := if_pos hsame
      exact hval.symm.trans hby
    refine (hcov t (hsame.symm.trans ht) hby').imp id fun htracked => ?_
    exact htracked.takes htakes rfl rfl nofun fun _ h => no_left h
  · obtain rfl := checkpointHash_injective hkey (Option.some.inj (hval.symm.trans ht))
    exact .inl (htargets p hp).2

theorem Tracked.mark (h : Tracked node c t) {m : Mark}
    (htakes : Takes c.flights (.marking node (m :: marks)) [.marking node marks] flights') :
    Tracked node (c.setDirty node (markDirty (c.dirty node) m) flights') t := by
  have hdirty : (c.setDirty node (markDirty (c.dirty node) m) flights').dirty node =
      markDirty (c.dirty node) m := update_self _ _ _
  have hmark : m.ruleID = t.ruleID → m.stamp ≤ t.stamp := h.marks _ htakes.mem m (.head _)
  have hleft : ∀ ms, .marking node ms ∈ flights' → .marking node ms ∈ c.flights ∨ ms = marks := by
    intro ms hms
    rcases htakes.old_or_left hms with hold | hnew
    · exact .inl hold
    · cases mem_singleton.mp hnew
      exact .inr rfl
  refine ⟨?_, fun entry hval => ?_, fun ms hms x hx hid => ?_, fun entry hmem => ?_⟩
  · have hpresent := markDirty_latest h.entry hmark
    rw [← hdirty] at hpresent
    rcases h.present with ⟨ms, hflight, x, hx, hid, hstamp⟩ | ⟨entry, hval, hstamp⟩
    · rcases htakes.taken_or_kept hflight with heq | hkept
      · cases heq
        rcases mem_cons.mp hx with rfl | hx
        · exact .inr (hpresent (.inl ⟨hid, hstamp⟩))
        · exact .inl ⟨marks, htakes.left_mem (mem_singleton.mpr rfl), x, hx, hid, hstamp⟩
      · exact .inl ⟨ms, hkept, x, hx, hid, hstamp⟩
    · exact .inr (hpresent (.inr ⟨entry, hval, hstamp⟩))
  · rw [hdirty] at hval
    rcases markDirty_eq_some hval with hold | ⟨hid, rfl⟩
    · exact h.entry entry hold
    · exact hmark hid.symm
  · rcases hleft ms hms with hold | rfl
    · exact h.marks ms hold x hx hid
    · exact h.marks _ htakes.mem x (.tail _ hx) hid
  · rcases htakes.old_or_left hmem with hold | hnew
    · exact h.drops entry hold
    · cases mem_singleton.mp hnew

theorem Tracked.remove (h : Tracked node c t) (htakes : Takes c.flights f [] flights')
    (hf : ∀ marks, f ≠ .marking node marks) {ruleID : Nat} {dirty' : DirtySet}
    (hcases : dirty' = c.dirty node ∨ ∃ entry, c.dirty node ruleID = some entry ∧
      (t.ruleID = ruleID → entry.stamp ≠ t.stamp) ∧
      dirty' = update (c.dirty node) ruleID none) :
    Tracked node (c.setDirty node dirty' flights') t := by
  have hdirty : (c.setDirty node dirty' flights').dirty node = dirty' := update_self _ _ _
  have hold : ∀ g ∈ flights', g ∈ c.flights := fun g hg =>
    (htakes.old_or_left hg).elim id fun h => no_left h
  have hsame : dirty' t.ruleID = c.dirty node t.ruleID ∨ dirty' t.ruleID = none ∧
      ∀ entry, c.dirty node t.ruleID = some entry → entry.stamp ≠ t.stamp := by
    rcases hcases with rfl | ⟨entry, hentry, hne, rfl⟩
    · exact .inl rfl
    · rcases eq_or_ne t.ruleID ruleID with rfl | hother
      · refine .inr ⟨update_self _ _ _, fun e he => ?_⟩
        obtain rfl := Option.some.inj (hentry.symm.trans he)
        exact hne rfl
      · exact .inl (update_of_ne hother _ _)
  refine ⟨?_, fun entry hval => ?_, fun ms hms => h.marks ms (hold _ hms),
    fun entry hmem => h.drops entry (hold _ hmem)⟩
  · rcases h.present with ⟨ms, hflight, hm⟩ | ⟨entry, hval, hstamp⟩
    · rcases htakes.taken_or_kept hflight with heq | hkept'
      · exact absurd heq.symm (hf ms)
      · exact .inl ⟨ms, hkept', hm⟩
    · rcases hsame with heq | ⟨-, hne⟩
      · exact .inr ⟨entry, by rw [hdirty, heq]; exact hval, hstamp⟩
      · exact absurd hstamp (hne entry hval)
  · rw [hdirty] at hval
    rcases hsame with heq | ⟨hnone, -⟩
    · exact h.entry entry (heq.symm.trans hval)
    · cases hnone.symm.trans hval

theorem Tracked.launch (h : Tracked node c t) (hmarks : ∀ marks, f ≠ .marking node marks)
    (hdrops : ∀ entry, f ≠ .dropping node t.ruleID entry) :
    Tracked node { c with flights := f :: c.flights } t :=
  h.frame rfl (fun marks hmem => (mem_cons.mp hmem).resolve_left (hmarks marks).symm)
    (fun _ hmem _ => .tail _ hmem)
    fun entry hmem => .inl ((mem_cons.mp hmem).resolve_left (hdrops entry).symm)

theorem readCandidate_of_record (hbase : Base r b c) (hb : b + 1 < 10 ^ 14) {entry : DirtyRule}
    (ht : c.store (stateKey t) = some (checkpointHash t))
    (hentry : Known c.database t.ruleID entry.accessKeyID (stamp 0 0)) :
    readCandidate t.ruleID entry (c.store (entry.accessKeyID, t.ruleID)) =
      if entry.coveredBy t.ruleRevision t.snapshotVersion then .snapshot t else .drop := by
  have hkey : ((entry.accessKeyID, t.ruleID) : RuleKey) = stateKey t :=
    Prod.ext (hentry.owner (hbase.records t ht)) rfl
  obtain ⟨t', ht'key, ht', hfits⟩ := hbase.typed _ _ ht
  obtain rfl := checkpointHash_injective ht'key.symm ht'
  have hparse := parseHash_checkpointHash hfits (by norm_num) (by omega)
  unfold readCandidate
  rw [hkey, ht]
  simp only [hparse]

theorem Covered.step (hbase : Base r b c) (hr : r ≤ 2 ^ 53) (hb : b + 1 < 10 ^ 14)
    (hcov : Covered node c) (hstep : Step c c') (hguarded : Guarded node c c') :
    Covered node c' := by
  cases hstep with
  | evaluate other mode a rules nowMS hkey hrules hnow =>
    exact hcov.script hbase (hbase.evaluateChanges hr hb mode a hrules hnow) other hguarded
  | complete other ticket cost hticket hcost =>
    exact hcov.script hbase (hbase.completeChanges hb hticket hcost) other hguarded
  | readCheckpoints other a targets hread | observe other ruleID entry hentry =>
    exact fun t ht hby => (hcov t ht hby).imp id fun htracked =>
      htracked.launch nofun fun _ h => (by cases h)
  | hydrate other targets flights' htakes => exact hcov.hydrate hbase htakes
  | mark other m marks flights' htakes =>
    refine fun t ht hby => (hcov t ht hby).imp id fun htracked => ?_
    rcases eq_or_ne other node with rfl | hne
    · exact htracked.mark htakes
    · refine htracked.takes htakes rfl ?_ (fun _ h => absurd (by cases h; rfl) hne) ?_
      · exact congrFun (update_of_ne hne.symm _ _) _
      · intro g hg
        cases mem_singleton.mp hg
        exact ⟨fun _ h => hne (by cases h; rfl), nofun⟩
  | marked other flights' htakes =>
    exact fun t ht hby => (hcov t ht hby).imp id fun htracked =>
      htracked.takes htakes rfl rfl (fun _ h => (by cases h; rfl)) fun _ h => no_left h
  | read other ruleID entry flights' htakes =>
    refine fun t ht hby => (hcov t ht hby).imp id fun htracked =>
      htracked.takes htakes rfl rfl nofun fun g hg => ?_
    have hentry := hbase.flights _ htakes.mem
    cases hreading : readCandidate ruleID entry (c.store (entry.accessKeyID, ruleID)) with
    | drop =>
      rw [hreading] at hg
      cases mem_singleton.mp hg
      refine ⟨nofun, fun entry' h => ?_⟩
      obtain ⟨-, rfl, rfl⟩ := Flight.dropping.inj h
      rw [readCandidate_of_record hbase hb ht hentry] at hreading
      intro heq
      rw [if_pos (coveredBy_iff.mpr heq.le)] at hreading
      cases hreading
    | snapshot s =>
      rw [hreading] at hg
      cases mem_singleton.mp hg
      exact ⟨nofun, nofun⟩
    | failed =>
      rw [hreading] at hg
      exact no_left hg
  | drop other ruleID entry flights' htakes =>
    refine fun t ht hby => (hcov t ht hby).imp id fun htracked => ?_
    rcases eq_or_ne other node with rfl | hne
    · refine htracked.remove htakes nofun
        ((dropDirty_cases (c.dirty other) ruleID entry).imp id fun ⟨hval, h⟩ =>
          ⟨entry, hval, ?_, h⟩)
      rintro rfl
      exact htracked.drops entry htakes.mem
    · exact htracked.takes htakes rfl (congrFun (update_of_ne hne.symm _ _) _)
        nofun fun _ h => no_left h
  | persist other s db' outcome flights' hpersist htakes =>
    refine fun t ht hby =>
      (hcov t ht hby).imp (fun hknown => hknown.mono (persist_rowChange hpersist))
      fun htracked => htracked.takes htakes rfl rfl nofun fun g hg => ?_
    cases mem_singleton.mp hg
    exact ⟨nofun, nofun⟩
  | ack other s flights' htakes =>
    intro t ht hby
    rcases hcov t ht hby with hknown | htracked
    · exact .inl hknown
    · rcases eq_or_ne other node with rfl | hne
      · by_cases hacked : t.ruleID = s.ruleID ∧ t.stamp ≤ s.stamp
        · have hacking := hbase.flights _ htakes.mem
          have hrecord := hbase.records t ht
          rw [hacked.1] at hrecord ⊢
          rw [hrecord.owner hacking]
          exact .inl (hacking.of_le hacked.2)
        · refine .inr (htracked.remove htakes nofun
            ((ack_cases (c.dirty other) s).imp id fun ⟨entry, hentry, hle, h⟩ =>
              ⟨entry, hentry, fun hid hstamp => hacked ⟨hid, hstamp ▸ hle⟩, h⟩))
      · exact .inr (htracked.takes htakes rfl (congrFun (update_of_ne hne.symm _ _) _)
          nofun fun _ h => no_left h)
  | abandonObserved other ruleID entry flights' htakes | abandonWriting other s flights' htakes
  | abandonAcking other s flights' htakes =>
    exact fun t ht hby => (hcov t ht hby).imp id fun htracked =>
      htracked.takes htakes rfl rfl nofun fun _ h => no_left h
  | advance ruleID db' hadvance =>
    exact fun t ht hby => (hcov t ht hby).imp
      (fun hknown => hknown.mono (advanceRule_rowChange hadvance))
      fun htracked => htracked.frame rfl (fun _ h => h) (fun _ h _ => h) fun _ h => .inl h

theorem Covered.loss (hcov : Covered node c) (hloss : Loss c c') : Covered node c' := by
  cases hloss with
  | key key =>
    intro t ht hby
    rcases eq_or_ne (stateKey t) key with heq | hne
    · have hnone : update c.store key none (stateKey t) = none := by
        rw [heq, update_self]
      cases hnone.symm.trans ht
    · have hstore : update c.store key none (stateKey t) = c.store (stateKey t) :=
        update_of_ne hne _ _
      have hchanged : update c.changedBy key none (stateKey t) =
          c.changedBy (stateKey t) := update_of_ne hne _ _
      exact (hcov t (hstore.symm.trans ht) (hchanged.symm.trans hby)).imp id fun htracked =>
        htracked.frame rfl (fun _ h => h) (fun _ h _ => h) fun _ h => .inl h

end Step

theorem LossyRun.covered {node r b n : Nat} {db : Database} (hdb : DatabaseOk r b db)
    (hrun : LossyRun (Guarded node) db n c) (hr : r + n ≤ 2 ^ 53) (hb : b + n < 10 ^ 14) :
    Base (r + n) (b + n) c ∧ Covered node c := by
  induction hrun with
  | start => exact ⟨.initial hdb, nofun⟩
  | @step n c c' hrun hstep hguarded ih =>
    obtain ⟨hbase, hcov⟩ := ih (by omega) (by omega)
    exact ⟨hbase.step (by omega) (by omega) hstep,
      hcov.step hbase (by omega) (by omega) hstep hguarded⟩
  | @loss n c c' hrun hloss ih =>
    obtain ⟨hbase, hcov⟩ := ih (by omega) (by omega)
    exact ⟨hbase.loss hloss, hcov.loss hloss⟩

/-- In every run whose steps meet the condition, an instance never forgets a
change that the database does not hold. -/
theorem guarded_run_neverForgets {node r b n : Nat} {db : Database} (hdb : DatabaseOk r b db)
    {c : Cluster} (hrun : LossyRun (Guarded node) db n c) (hr : r + n ≤ 2 ^ 53)
    (hb : b + n < 10 ^ 14) : NeverForgets node c :=
  (hrun.covered hdb hr hb).2.neverForgets

section MeterRuns

/-- One total rule of access key 1, with nothing charged. -/
def meterDatabase (version : Nat) : Database where
  rules := fun ruleID => if ruleID = 7 then some ⟨1, 1⟩ else none
  states := fun ruleID => if ruleID = 7 then some ⟨1, 0, none, none, 0, version⟩ else none

theorem meterDatabase_ok (version : Nat) : DatabaseOk 1 version (meterDatabase version) := by
  constructor
  · intro ruleID rule row hrule hrow
    simp only [meterDatabase] at hrule hrow
    split at hrule
    · rw [if_pos ‹_›] at hrow
      cases hrule
      cases hrow
      rfl
    · cases hrule
  · intro ruleID rule hrule
    simp only [meterDatabase] at hrule
    split at hrule
    · cases hrule
      exact le_refl 1
    · cases hrule
  · intro ruleID row hrow
    simp only [readState, meterDatabase] at hrow
    split_ifs at hrow
    · cases hrow
      refine ⟨⟨rfl, ?_, ?_⟩, le_refl 1, Nat.zero_le version, le_refl version⟩ <;>
      · intro x h
        cases h

def Cluster.readMeter (c : Cluster) (version : Nat) : Cluster :=
  { c with
    flights := .hydrating 0 [(totalRule 1, freshState (totalRule 1) 0 version)] :: c.flights }

def Cluster.admitMeter (c : Cluster) : Cluster :=
  c.script 0 (runQuota .admission 1 [totalRule 1] 1000 c.store).1
    (evaluationMarks .admission
      (admitted 1 [totalRule 1] (runQuota .admission 1 [totalRule 1] 1000 c.store).2))
    (issue .admission
      (admitted 1 [totalRule 1] (runQuota .admission 1 [totalRule 1] 1000 c.store).2) c.tickets)

def Cluster.chargeMeter (c : Cluster) : Cluster :=
  c.script 0 (complete (meterTicket 1) 5 c.store).1 (complete (meterTicket 1) 5 c.store).2 c.tickets

variable {version : Nat}

theorem readMeter_step (h : c.database = meterDatabase version)
    (hversion : Accepted (totalRule 1) (freshState (totalRule 1) 0 version)) :
    Step c (c.readMeter version) := by
  refine .readCheckpoints 0 1 _ ⟨by simp, ?_⟩
  rintro p (_ | ⟨_, ⟨⟩⟩)
  rw [h]
  exact ⟨rfl, rfl, hversion⟩

theorem admitMeter_step (h : c.database = meterDatabase version) :
    Step c c.admitMeter := by
  refine .evaluate 0 .admission 1 [totalRule 1] 1000 (by decide) ⟨by decide, ?_⟩ (by decide)
  rintro rule (_ | ⟨_, ⟨⟩⟩)
  rw [h]
  exact ⟨_, rfl, le_refl 1⟩

theorem chargeMeter_step (h : meterTicket 1 ∈ c.tickets) : Step c c.chargeMeter :=
  .complete 0 (meterTicket 1) 5 h (by decide)

variable {db : Database}

theorem LossyRun.proceed {guard : Cluster → Cluster → Prop} {n : Nat} (hrun : LossyRun guard db n c)
    (hflights : c.flights ≠ []) (hguard : guard c c.proceed) :
    LossyRun guard db (n + 1) c.proceed :=
  .step hrun (Cluster.proceed_step hflights) hguard

theorem LossyRun.mono {guard guard' : Cluster → Cluster → Prop} {n : Nat}
    (h : ∀ c c', guard c c' → guard' c c') (hrun : LossyRun guard db n c) :
    LossyRun guard' db n c := by
  induction hrun with
  | start => exact .start
  | step hrun hstep hguard ih => exact .step ih hstep (h _ _ hguard)
  | loss hrun hloss ih => exact .loss ih hloss

theorem guarded_of_store_eq {node : Nat} {c' : Cluster} (h : c'.store = c.store) :
    Guarded node c c' := by
  intro s t hs hkey ht _ hne
  rw [h, hs] at ht
  exact absurd (checkpointHash_injective hkey (Option.some.inj ht).symm) hne

theorem guarded_of_quiet {node : Nat} {c' : Cluster} (hdirty : c.dirty node = fun _ => none)
    (hflights : c.flights = []) : Guarded node c c' := by
  intro s t _ _ _ _ _ _
  refine ⟨?_, ?_, ?_⟩
  · intro entry hentry
    rw [hdirty] at hentry
    cases hentry
  · intro marks hmem
    rw [hflights] at hmem
    cases hmem
  · intro entry hmem
    rw [hflights] at hmem
    cases hmem

def chargedCluster : Cluster :=
  ((Cluster.initial (meterDatabase 1)).readMeter
    1).proceed.admitMeter.proceed.chargeMeter.proceed.proceed

theorem chargedCluster_run : LossyRun (Guarded 0) (meterDatabase 1) 7 chargedCluster := by
  have hread : LossyRun (Guarded 0) (meterDatabase 1) 1
      ((Cluster.initial (meterDatabase 1)).readMeter 1) :=
    .step .start (readMeter_step rfl ⟨_, rfl⟩) (guarded_of_store_eq rfl)
  have hhydrated := hread.proceed (by decide) nofun
  have hadmitted := LossyRun.step hhydrated (@admitMeter_step _ 1 rfl) (guarded_of_quiet rfl rfl)
  have hanswered := hadmitted.proceed (by decide) (guarded_of_store_eq rfl)
  have hcharged := LossyRun.step hanswered (chargeMeter_step (by decide)) (guarded_of_quiet rfl rfl)
  have hmarked := hcharged.proceed (by decide) (guarded_of_store_eq rfl)
  exact hmarked.proceed (by decide) (guarded_of_store_eq rfl)

theorem chargedCluster_neverForgets :
    NeverForgets 0 chargedCluster ∧ chargedCluster.flights = [] ∧
      chargedCluster.changedBy (1, 7) = some 0 ∧
      chargedCluster.dirty 0 7 = some ⟨1, 1, 2⟩ :=
  ⟨guarded_run_neverForgets (meterDatabase_ok 1) chargedCluster_run (by decide) (by decide),
    by decide, by decide, by decide⟩

/-- Two changes are marked, the key is lost and hydrated again, and the change
that follows has a version below the recorded one. -/
def rechargedCluster : Cluster :=
  (({ chargedCluster.chargeMeter.proceed.proceed with
      store := Function.update chargedCluster.chargeMeter.proceed.proceed.store (1, 7) none
      changedBy := Function.update chargedCluster.chargeMeter.proceed.proceed.changedBy (1, 7)
        none } : Cluster).readMeter 1).proceed.chargeMeter.proceed.proceed

def forgottenCluster : Cluster :=
  ({ rechargedCluster with
      flights := .observed 0 7 ⟨1, 1, 3⟩ :: rechargedCluster.flights } : Cluster).proceed.proceed

theorem forgottenCluster_run :
    LossyRun (fun _ _ => True) (meterDatabase 1) 19 forgottenCluster := by
  have hcharged := chargedCluster_run.mono (fun _ _ _ => trivial)
  have htwice := (LossyRun.step hcharged (chargeMeter_step (by decide)) trivial).proceed
    (by decide) trivial
  have hlost := LossyRun.loss (htwice.proceed (by decide) trivial) (.key (1, 7))
  have hhydrated := (LossyRun.step hlost (@readMeter_step _ 1 rfl ⟨_, rfl⟩) trivial).proceed
    (by decide) trivial
  have hcharged := (LossyRun.step hhydrated (chargeMeter_step (by decide)) trivial).proceed
    (by decide) trivial
  have hobserved := LossyRun.step (hcharged.proceed (by decide) trivial)
    (.observe 0 7 ⟨1, 1, 3⟩ (by decide)) trivial
  exact (hobserved.proceed (by decide) trivial).proceed (by decide) trivial

/-- The database is at version 1, Redis at version 2, changed by the instance,
and the instance has forgotten the rule. -/
theorem change_forgotten :
    ∃ c, LossyRun (fun _ _ => True) (meterDatabase 1) 19 c ∧ c.flights = [] ∧
      c.store (1, 7) = some (checkpointHash (freshState (totalRule 1) 5 2)) ∧
      c.changedBy (1, 7) = some 0 ∧
      readState c.database 7 = some (freshState (totalRule 1) 0 1) ∧
      c.dirty 0 7 = none ∧ ¬NeverForgets 0 c := by
  have hstored : forgottenCluster.store (1, 7) =
      some (checkpointHash (freshState (totalRule 1) 5 2)) := by decide
  have hclean : forgottenCluster.dirty 0 7 = none := by decide
  refine ⟨forgottenCluster, forgottenCluster_run, by decide, hstored, by decide, rfl, hclean, ?_⟩
  intro h
  obtain ⟨entry, hentry⟩ := h (by decide) (freshState (totalRule 1) 5 2) hstored (by decide)
    (freshState (totalRule 1) 0 1) rfl (stamp_lt.mpr (.inr ⟨rfl, by decide⟩))
  cases hclean.symm.trans hentry

end MeterRuns

end EchoJoyGateway.Quota
