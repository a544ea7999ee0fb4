import SshCommander.PoolAccounting
import SshCommander.StrayCursors

/-!
# Futures dropped at an await

A caller may drop the future of an operation while it waits. Its `Arc`s and its `operation_lock`
go with it, and nothing else is put back: not a slot it reserved, not a connection it took out of
the pool, not the cursor it took out of `active_cursor`.
-/

namespace SshCommander.DroppedFutures
open InterleavedTasks InterleavedTasks.TaskSystem InteractionPrograms ConnectionPool
  ConnectionPool.Pool PostgresWire PooledConnection SessionCalls QueryPaths QueryPaths.Discipline
  PoolLedger PoolAccounting IdleCleanliness StrayCursors

variable {g : Grammar} {cfg : PgConfig} {p p' : Pool} {k : ConnId} {t t' : Task} {α : Type}

/-- The connection of a request that is dropped: the server still runs what was sent. -/
def settled (g : Grammar) (conn : Conn) : Request → Option Choice → Conn
  | .send c, some ch => (Conn.serve g conn (.send c) ch).1
  | _, _ => conn

/-- The guard of `operation_lock` and the `Arc` are dropped while a request is awaited. -/
def abandon (g : Grammar) (p : Pool) (k : ConnId) (sent : Option Choice) :
    Dialogue α → Option Pool
  | .ret _ => none
  | .ask q _ => p.conns[k]?.map fun pc =>
      ((p.setConn k (settled g pc.conn q sent)).setLocked k false).letGo k

/-- What is left of the pool when the future of an operation is dropped at its await. The
eviction loop and a shutdown are not dropped. -/
def dropped (g : Grammar) (p : Pool) (t : Task) (sent : Option Choice) : Option Pool :=
  match t with
  | .leaseFast .. | .leasePop .. | .leaseCheck .. | .leaseReserve .. | .leaseOpening ..
  | .lookup .. | .cancelLookup _ | .releaseTake _ | .browserCached _ | .browserReserve _
  | .browserOpening _ | .slotRollBack _ => some p
  | .leaseAssign _ _ k | .waiting _ k _ | .cancelling _ k | .releaseWaiting _ k
  | .returning _ k | .browserStore _ k | .browsing k => some (p.letGo k)
  | .browserDuplicate own existing => some ((p.letGo own).letGo existing)
  | .running _ k _ prog _ => abandon g p k sent prog
  | .releasing _ k prog => abandon g p k sent prog
  | .evict | .evictIdle _ | .evictAbort .. | .evictSecondary _ | .evictSecondaryTotal _
  | .evictSecondaryAbort _ | .shutdownInner | .shutdownSecondary _ | .shutdownAbort _
  | .answered .. | .failed _ | .finished => none

/-- An operation goes on, or its future is dropped, where `sent` is the server's choice for a
statement that was already sent. -/
inductive Turn where
  | resume (e : Event)
  | drop (sent : Option Choice)

def cancellable (g : Grammar) (cfg : PgConfig) : TaskSystem Pool Task Turn where
  starts := starts cfg
  step p t
    | .resume e => ConnectionPool.step g cfg p t e
    | .drop sent => (dropped g p t sent).map (·, .finished)

def undropped (as : List (Action Task Event)) : List (Action Task Turn) :=
  as.map fun
    | .spawn t => .spawn t
    | .advance i e => .advance i (.resume e)

theorem spawn_mem_undropped {as : List (Action Task Event)} :
    Action.spawn t ∈ undropped as ↔ Action.spawn t ∈ as := by
  simp only [undropped, List.mem_map]
  constructor
  · rintro ⟨a, ha, heq⟩
    cases a with
    | spawn u =>
      obtain rfl := Action.spawn.inj heq
      exact ha
    | advance i e => cases heq
  · intro h
    exact ⟨.spawn t, h, rfl⟩

/-- One action of the pool with drops: an action of the pool, or the drop of an operation. -/
theorem act_or_drop {c c' : Config Pool Task} {a : Action Task Turn}
    (h : (cancellable g cfg).act c a = some c') :
    (∃ t, a = .spawn t ∧ starts cfg t = true ∧ c' = ⟨c.shared, c.tasks ++ [t]⟩) ∨
    (∃ i e t p' t', a = .advance i (.resume e) ∧ c.tasks[i]? = some t ∧
      ConnectionPool.step g cfg c.shared t e = some (p', t') ∧ c' = ⟨p', c.tasks.set i t'⟩) ∨
    (∃ i sent t p', a = .advance i (.drop sent) ∧ c.tasks[i]? = some t ∧
      dropped g c.shared t sent = some p' ∧ c' = ⟨p', c.tasks.set i .finished⟩) := by
  rcases act_cases h with ⟨t, rfl, ht, rfl⟩ | ⟨i, turn, t, p', t', rfl, hi, hs, rfl⟩
  · exact .inl ⟨t, rfl, ht, rfl⟩
  · cases turn with
    | resume e => exact .inr (.inl ⟨i, e, t, p', t', rfl, hi, hs, rfl⟩)
    | drop sent =>
      obtain ⟨p'', hp, heq⟩ := Option.map_eq_some_iff.mp hs
      obtain ⟨rfl, rfl⟩ := Prod.mk.inj heq
      exact .inr (.inr ⟨i, sent, t, p'', rfl, hi, hp, rfl⟩)

theorem dropped_pool {sent : Option Choice} (h : dropped g p t sent = some p') :
    p'.inner = p.inner ∧ p'.secondaryBrowsers = p.secondaryBrowsers := by
  have habandon (k : ConnId) {β : Type} (prog : Dialogue β) (h : abandon g p k sent prog = some p') :
      p'.inner = p.inner ∧ p'.secondaryBrowsers = p.secondaryBrowsers := by
    cases prog with
    | ret r => cases h
    | ask q f =>
      obtain ⟨pc, -, rfl⟩ := Option.map_eq_some_iff.mp h
      simp
  cases t with
  | running s k call prog log => exact habandon k prog h
  | releasing s k prog => exact habandon k prog h
  | evict | evictIdle | evictAbort | evictSecondary | evictSecondaryTotal | evictSecondaryAbort
  | shutdownInner | shutdownSecondary | shutdownAbort | answered | failed | finished => cases h
  | _ =>
    obtain rfl := Option.some.inj h
    simp

/-- What an action takes out of all accounts: a lease that is replaced, or all that a dropped
operation had out. -/
def lost (c : Config Pool Task) : Action Task Turn → ℕ
  | .spawn _ => 0
  | .advance i (.resume _) => (c.tasks[i]?.map (leaks c.shared)).getD 0
  | .advance i (.drop _) => (c.tasks[i]?.map claims).getD 0

theorem act_books {c c' : Config Pool Task} {a : Action Task Turn} (h : Accounted cfg c)
    (ha : a ≠ .spawn .shutdownInner) (hact : (cancellable g cfg).act c a = some c') :
    Accounted cfg c' ∧ leaked c' = leaked c + lost c a := by
  rcases act_or_drop hact with ⟨t, rfl, ht, rfl⟩ | ⟨i, e, t, p', t', rfl, hi, hs, rfl⟩ |
    ⟨i, sent, t, p', rfl, hi, hp, rfl⟩
  · have hne : Action.spawn t ≠ Action.spawn (E := Event) .shutdownInner := by
      intro heq
      cases heq
      exact ha rfl
    exact act_accounted (g := g) h hne hact
  · have hbooks := act_accounted (a := .advance i e) h (by simp) hact
    simpa [lost, leaksAt, hi] using hbooks
  · obtain ⟨hinner, hsecondary⟩ := dropped_pool hp
    have hstored : stored p' = stored c.shared := pooled_congr hinner hsecondary
    have hset := sum_map_set claims hi .finished
    have hnone : claims .finished = 0 := rfl
    have hcov := h.covered
    refine ⟨⟨?_, hinner ▸ h.bound, fun u hu => ?_⟩, ?_⟩
    · simp only [outstanding, hinner, hstored] at hcov ⊢
      omega
    · rcases List.mem_or_eq_of_mem_set hu with hu | rfl
      · exact h.noShutdown u hu
      · rfl
    · simp only [leaked, outstanding, lost, hi, hinner, hstored, Option.map_some,
        Option.getD_some] at hcov ⊢
      omega

/-- Once no operation is in flight, `total` is the number of stored connections exactly when no
lease was replaced and no dropped operation had a slot or a connection out. -/
theorem total_matches_iff_nothing_lost {now : ℕ} {as : List (Action Task Turn)}
    {d : Config Pool Task} (hns : Action.spawn .shutdownInner ∉ as)
    (hr : (cancellable g cfg).run (connect now) as = some d) (hdone : ∀ t ∈ d.tasks, t.done = true) :
    d.shared.inner.total = d.shared.inner.idle.length + d.shared.inner.leased.entries.length +
        d.shared.secondaryBrowsers.entries.length ↔
      (cancellable g cfg).Meets (fun c a => lost c a = 0) (connect now) as := by
  have hm : (cancellable g cfg).Meets (fun _ a => a ≠ .spawn .shutdownInner) (connect now) as :=
    meets_of_forall fun a ha heq => hns (heq ▸ ha)
  have hacc : Accounted cfg d := run_invariant (fun c a c' h ha hact => (act_books h ha hact).1)
    (accounted_connect cfg now) hm hr
  have hlost := run_gained (m := leaked) (fun c a c' h ha hact => (act_books h ha hact).1)
    (fun c a c' h ha hact => (act_books h ha hact).2) (accounted_connect cfg now) hm hr
  have hcov := hacc.covered
  have hout : outstanding d.tasks = 0 := outstanding_of_done hdone
  have hstart : leaked (connect now) = 0 := rfl
  rw [← gained_eq_zero, ← stored_eq]
  simp only [leaked, hout] at hcov hlost hstart ⊢
  omega

inductive Work where
  | call (prog : Dialogue CallResult)
  | cleanup (prog : Dialogue Unit)

def Work.Settles (g : Grammar) : Work → Conn → Prop
  | .call prog => StrayCursors.Settles g prog
  | .cleanup prog => StrayCursors.Settles g prog

def workOn (k : ConnId) : Task → Option Work
  | .running _ k' _ prog _ => if k' = k then some (.call prog) else none
  | .releasing _ k' prog => if k' = k then some (.cleanup prog) else none
  | _ => none

/-- A locked connection is settled by the one operation that has it locked; an unlocked one is at
rest. -/
inductive Attended (g : Grammar) : List Work → Option PooledConnection → Prop where
  | unopened : Attended g [] none
  | locked {work conn handles} (tied : Tied conn.wire) (settles : work.Settles g conn) :
      Attended g [work] (some ⟨conn, true, handles⟩)
  | unlocked {conn handles} (tied : Tied conn.wire) (atRest : AtRest conn) :
      Attended g [] (some ⟨conn, false, handles⟩)

def AllAttended (g : Grammar) (p : Pool) (ts : List Task) : Prop :=
  ∀ k, Attended g (ts.filterMap (workOn k)) p.conns[k]?

variable {ts : List Task}

theorem Attended.lose {ws : List Work} {conn : Conn} {l : Bool} {n m : ℕ}
    (h : Attended g ws (some ⟨conn, l, n⟩)) :
    Attended g ws (some ⟨{ conn with wire := conn.wire.lose }, l, m⟩) := by
  cases h with
  | @locked work _ _ tied settles =>
    cases work with
    | call prog => exact .locked (.lose _) (settles_lost g prog conn)
    | cleanup prog => exact .locked (.lose _) (settles_lost g prog conn)
  | unlocked tied atRest => exact .unlocked (.lose _) fun _ => lose_ofPool _ _

theorem Attended.handles {ws : List Work} {conn : Conn} {l : Bool} {n m : ℕ}
    (h : Attended g ws (some ⟨conn, l, n⟩)) : Attended g ws (some ⟨conn, l, m⟩) := by
  cases h with
  | locked tied settles => exact .locked tied settles
  | unlocked tied atRest => exact .unlocked tied atRest

theorem AllAttended.of_conns (h : AllAttended g p ts) (hc : p'.conns = p.conns) :
    AllAttended g p' ts := fun k => hc ▸ h k

theorem AllAttended.modify (h : AllAttended g p ts) {f : PooledConnection → PooledConnection}
    (hc : p'.conns = p.conns.modify k f)
    (hf : ∀ ws pc, Attended g ws (some pc) → Attended g ws (some (f pc))) :
    AllAttended g p' ts := by
  intro j
  rw [hc, List.getElem?_modify]
  have hj := h j
  cases hp : p.conns[j]? with
  | none => simpa [hp] using hj
  | some pc =>
    rw [hp] at hj
    by_cases hkj : k = j
    · simpa [hkj] using hf _ _ hj
    · simpa [hkj] using hj

theorem AllAttended.abort (h : AllAttended g p ts) (k : ConnId) : AllAttended g (p.abort k) ts :=
  h.modify rfl fun _ _ hpc => hpc.lose

theorem AllAttended.hold (h : AllAttended g p ts) (k : ConnId) : AllAttended g (p.hold k) ts :=
  h.modify rfl fun _ _ hpc => hpc.handles

theorem AllAttended.unhold (h : AllAttended g p ts) (k : ConnId) : AllAttended g (p.unhold k) ts :=
  h.modify rfl fun _ _ hpc => hpc.handles

theorem AllAttended.reap (h : AllAttended g p ts) (k : ConnId) : AllAttended g (p.reap k) ts := by
  unfold Pool.reap
  split
  · exact h
  · exact h.abort k

theorem AllAttended.letGo (h : AllAttended g p ts) (k : ConnId) : AllAttended g (p.letGo k) ts :=
  (h.unhold k).reap k

theorem AllAttended.abortAll (h : AllAttended g p ts) (ks : List ConnId) :
    AllAttended g (p.abortAll ks) ts := by
  unfold Pool.abortAll
  induction ks generalizing p with
  | nil => exact h
  | cons k ks ih => exact ih ((h.abort k).letGo k)

theorem AllAttended.holdAll (h : AllAttended g p ts) (ks : List ConnId) :
    AllAttended g (p.holdAll ks) ts := by
  unfold Pool.holdAll
  induction ks generalizing p with
  | nil => exact h
  | cons k ks ih => exact ih (h.hold k)

theorem AllAttended.assignLease (h : AllAttended g p ts) (s : SessionId) (k : ConnId) :
    AllAttended g (p.assignLease s k) ts := by
  unfold Pool.assignLease
  have hleased : AllAttended g (p.setLeased (p.inner.leased.insert s k)) ts := h.of_conns rfl
  split
  · exact hleased
  · exact hleased.reap _

theorem AllAttended.add (h : AllAttended g p ts) : AllAttended g p.add.1 ts := by
  intro j
  have hj := h j
  simp only [Pool.add]
  rcases Nat.lt_trichotomy j p.conns.length with hlt | rfl | hgt
  · rwa [List.getElem?_append_left hlt]
  · rw [List.getElem?_eq_none (le_refl _)] at hj
    have hfresh : Tied Conn.fresh.wire :=
      ⟨⟨by simp [Conn.fresh, Wire.fresh], by simp [Conn.fresh, Wire.fresh],
        by simp [Conn.fresh, Wire.fresh]⟩, by simp [OfPool, Conn.fresh, Wire.fresh]⟩
    cases hw : ts.filterMap (workOn p.conns.length) with
    | nil => simpa using Attended.unlocked hfresh (by simp [AtRest, Bare, OfPool, Conn.fresh, Wire.fresh])
    | cons w ws => rw [hw] at hj; cases hj
  · rw [List.getElem?_eq_none hgt.le] at hj
    rwa [List.getElem?_eq_none (by simp; omega)]

/-- A step of task `i` that touches at most connection `k` and its own work there. -/
theorem AllAttended.update {i : ℕ} (h : AllAttended g p ts) (hi : ts[i]? = some t)
    (hother : ∀ j, j ≠ k → p'.conns[j]? = p.conns[j]? ∧ workOn j t' = workOn j t)
    (hk : ∀ ws ws', Attended g (ws ++ (workOn k t).toList ++ ws') p.conns[k]? →
      Attended g (ws ++ (workOn k t').toList ++ ws') p'.conns[k]?) :
    AllAttended g p' (ts.set i t') := by
  intro j
  obtain ⟨ws, ws', hts, hset⟩ := filterMap_set (workOn j) hi
  have hj := h j
  rw [hts] at hj
  rw [hset]
  by_cases hjk : j = k
  · subst hjk
    exact hk ws ws' hj
  · obtain ⟨hconns, hwork⟩ := hother j hjk
    rwa [hconns, hwork]

theorem AllAttended.idle {i : ℕ} (h : AllAttended g p ts) (hi : ts[i]? = some t)
    (ht : ∀ j, workOn j t = none) (ht' : ∀ j, workOn j t' = none) :
    AllAttended g p (ts.set i t') := by
  apply h.update (k := 0) hi
  · intro j _
    exact ⟨rfl, (ht' j).trans (ht j).symm⟩
  · intro ws ws' hk
    rw [ht] at hk
    rw [ht']
    exact hk

theorem Attended.free {ws : List Work} {pc : PooledConnection} (h : Attended g ws (some pc))
    (hfree : pc.locked = false) : ws = [] ∧ Tied pc.conn.wire ∧ AtRest pc.conn := by
  cases h with
  | locked => cases hfree
  | unlocked tied atRest => exact ⟨rfl, tied, atRest⟩

theorem Attended.working {ws ws' : List Work} {work : Work} {o : Option PooledConnection}
    (h : Attended g (ws ++ (some work).toList ++ ws') o) : ws = [] ∧ ws' = [] ∧
      ∃ conn handles, o = some ⟨conn, true, handles⟩ ∧ Tied conn.wire ∧ work.Settles g conn := by
  generalize hall : ws ++ (some work).toList ++ ws' = all at h
  cases h with
  | unopened | unlocked => simp at hall
  | @locked work' conn handles tied settles =>
    have hlen := congrArg List.length hall
    simp only [List.length_append, Option.toList_some, List.length_singleton] at hlen
    obtain rfl := List.eq_nil_of_length_eq_zero (l := ws) (by omega)
    obtain rfl := List.eq_nil_of_length_eq_zero (l := ws') (by omega)
    obtain rfl : work = work' := by simpa using hall
    exact ⟨rfl, rfl, conn, handles, rfl, tied, settles⟩

def WorksOn (k : ConnId) (work : Work) (t : Task) : Prop :=
  ∀ j, workOn j t = if k = j then some work else none

def NoWork (t : Task) : Prop := ∀ j, workOn j t = none

theorem WorksOn.self {work : Work} (h : WorksOn k work t) : workOn k t = some work :=
  (h k).trans (if_pos rfl)

theorem WorksOn.other {work : Work} {j : ConnId} (h : WorksOn k work t) (hj : j ≠ k) :
    workOn j t = none := (h j).trans (if_neg hj.symm)

theorem setLocked_conns_ne {j : ConnId} (hj : j ≠ k) (p : Pool) (b : Bool) :
    (p.setLocked k b).conns[j]? = p.conns[j]? := List.getElem?_modify_ne _ _ hj.symm

theorem setConn_conns_ne {j : ConnId} (hj : j ≠ k) (p : Pool) (conn : Conn) :
    (p.setConn k conn).conns[j]? = p.conns[j]? := List.getElem?_modify_ne _ _ hj.symm

variable {i : ℕ} {work work' : Work}

/-- The `operation_lock` is taken when it is free, on a connection at rest. -/
theorem AllAttended.lock {pc : PooledConnection} (h : AllAttended g p ts) (hi : ts[i]? = some t)
    (ht : NoWork t) (ht' : WorksOn k work t') (hpc : p.conns[k]? = some pc)
    (hfree : pc.locked = false)
    (hwork : ∀ conn, Tied conn.wire → AtRest conn → work.Settles g conn) :
    AllAttended g (p.setLocked k true) (ts.set i t') := by
  apply h.update (k := k) hi
  · intro j hj
    exact ⟨setLocked_conns_ne hj p true, (ht'.other hj).trans (ht j).symm⟩
  · intro ws ws' hk
    rw [ht, hpc] at hk
    obtain ⟨hnil, tied, atRest⟩ := hk.free hfree
    simp only [Option.toList_none, List.append_nil, List.append_eq_nil_iff] at hnil
    obtain ⟨rfl, rfl⟩ := hnil
    have hlocked : (p.setLocked k true).conns[k]? = some ⟨pc.conn, true, pc.handles⟩ := by
      simp [setLocked, hpc]
    rw [hlocked, ht'.self]
    exact .locked tied (hwork _ tied atRest)

/-- One request of the operation that has the lock. -/
theorem AllAttended.serve {pc : PooledConnection} {conn' : Conn} (h : AllAttended g p ts)
    (hi : ts[i]? = some t) (ht : WorksOn k work t) (ht' : WorksOn k work' t')
    (hpc : p.conns[k]? = some pc)
    (hserve : Tied pc.conn.wire → work.Settles g pc.conn →
      Tied conn'.wire ∧ work'.Settles g conn') :
    AllAttended g (p.setConn k conn') (ts.set i t') := by
  apply h.update (k := k) hi
  · intro j hj
    exact ⟨setConn_conns_ne hj p conn', (ht'.other hj).trans (ht.other hj).symm⟩
  · intro ws ws' hk
    rw [ht.self, hpc] at hk
    obtain ⟨rfl, rfl, conn, handles, heq, tied, settles⟩ := hk.working
    obtain rfl := Option.some.inj heq
    obtain ⟨tied', settles'⟩ := hserve tied settles
    have hconn : (p.setConn k conn').conns[k]? = some ⟨conn', true, handles⟩ := by
      simp [setConn, hpc]
    rw [hconn, ht'.self]
    exact .locked tied' settles'

/-- The operation that has the lock gives it up and leaves `conn'` behind. -/
theorem AllAttended.leave {pc : PooledConnection} {conn' : Conn} (h : AllAttended g p ts)
    (hi : ts[i]? = some t) (ht : WorksOn k work t) (ht' : NoWork t')
    (hpc : p.conns[k]? = some pc)
    (hleave : Tied pc.conn.wire → work.Settles g pc.conn → Tied conn'.wire ∧ AtRest conn') :
    AllAttended g ((p.setConn k conn').setLocked k false) (ts.set i t') := by
  apply h.update (k := k) hi
  · intro j hj
    rw [setLocked_conns_ne hj, setConn_conns_ne hj]
    exact ⟨rfl, (ht' j).trans (ht.other hj).symm⟩
  · intro ws ws' hk
    rw [ht.self, hpc] at hk
    obtain ⟨rfl, rfl, conn, handles, heq, tied, settles⟩ := hk.working
    obtain rfl := Option.some.inj heq
    obtain ⟨tied', atRest⟩ := hleave tied settles
    have hconn : ((p.setConn k conn').setLocked k false).conns[k]? =
        some ⟨conn', false, handles⟩ := by simp [setLocked, setConn, hpc]
    rw [hconn, ht' k]
    exact .unlocked tied' atRest

theorem setConn_self {pc : PooledConnection} (hpc : p.conns[k]? = some pc) :
    p.setConn k pc.conn = p := by
  have hconns : (p.setConn k pc.conn).conns = p.conns := by
    apply List.ext_getElem?
    intro j
    by_cases hj : j = k
    · subst hj
      simp [setConn, hpc]
    · exact setConn_conns_ne hj p _
  obtain ⟨inner, secondary, conns⟩ := p
  simpa [setConn] using hconns

def touchesLock : Task → Bool
  | .waiting .. | .running .. | .releaseWaiting .. | .releasing .. => true
  | _ => false

theorem noWork_next (use : Purpose) (s : SessionId) (k : ConnId) : NoWork (use.next s k) := by
  cases use <;> exact fun _ => rfl

/-- A section outside the `operation_lock`s. -/
theorem transition_attended {e : Event} (h : Transition g cfg p e t p' t')
    (ht : touchesLock t = false) (hp : AllAttended g p ts) : AllAttended g p' ts ∧ NoWork t' := by
  cases h with
  | leaseHit => exact ⟨hp.hold _, noWork_next _ _ _⟩
  | popped h =>
    obtain ⟨entry, -, -, rfl⟩ := popIdle_some h
    exact ⟨AllAttended.hold (hp.of_conns rfl) _, fun _ => rfl⟩
  | assigned => exact ⟨hp.assignLease _ _, noWork_next _ _ _⟩
  | reserved h | browserReserved h =>
    obtain ⟨-, rfl⟩ := reserveConnectionSlot_ok h
    exact ⟨hp.of_conns rfl, fun _ => rfl⟩
  | opened | browserOpened => exact ⟨hp.add, fun _ => rfl⟩
  | found | cancelHit => exact ⟨hp.hold _, fun _ => rfl⟩
  | cancelled | browsed => exact ⟨hp.letGo _, fun _ => rfl⟩
  | taken | browserHit | raced => exact ⟨AllAttended.hold (hp.of_conns rfl) _, fun _ => rfl⟩
  | pushed => exact ⟨AllAttended.unhold (hp.of_conns rfl) _, fun _ => rfl⟩
  | rolledBack | inserted | secondaryCounted => exact ⟨hp.of_conns rfl, fun _ => rfl⟩
  | duplicateDropped =>
    have hslot : AllAttended g p.releaseConnectionSlot ts := hp.of_conns rfl
    exact ⟨hslot.letGo _, fun _ => rfl⟩
  | idleEvicted | noSecondary | secondaryEvicted | innerDrained | secondaryDrained =>
    refine ⟨?_, fun _ => rfl⟩
    apply AllAttended.holdAll
    exact hp.of_conns rfl
  | idleAborted | secondaryAborted | shutDown => exact ⟨hp.abortAll _, fun _ => rfl⟩
  | locked | served | returned | releaseLocked | cleaned | released => cases ht
  | _ => exact ⟨hp, fun _ => rfl⟩

/-- The request an operation waits for under its `operation_lock`. -/
def awaited : Task → Option (ConnId × Request)
  | .running _ k _ (.ask q _) _ | .releasing _ k (.ask q _) => some (k, q)
  | _ => none

theorem worksOn_running (s : SessionId) (k : ConnId) (call : Call) (prog : Dialogue CallResult)
    (log : List (Exchange Conn Request Choice)) :
    WorksOn k (.call prog) (.running s k call prog log) := fun _ => rfl

theorem worksOn_releasing (s : SessionId) (k : ConnId) (prog : Dialogue Unit) :
    WorksOn k (.cleanup prog) (.releasing s k prog) := fun _ => rfl

theorem step_attended {e : Event} (h : AllAttended g p ts) (hi : ts[i]? = some t)
    (hs : ConnectionPool.step g cfg p t e = some (p', t'))
    (hfails : ∀ x ∈ awaited t, ∀ pc ∈ p.conns[x.1]?, closeFails ⟨pc.conn, x.2, e.choice⟩ = false) :
    AllAttended g p' (ts.set i t') := by
  cases t with
  | waiting s k call =>
    simp only [ConnectionPool.step] at hs
    split at hs
    · rename_i pc hpc
      split at hs
      · cases hs
      · rename_i hfree
        obtain ⟨rfl, rfl⟩ := hs
        apply h.lock hi (fun _ => rfl) (worksOn_running s k call call.prog []) hpc
          (by simpa using hfree)
        intro conn tied atRest
        exact call_settles call (atRest.between tied)
    · cases hs
  | releaseWaiting s k =>
    simp only [ConnectionPool.step] at hs
    split at hs
    · rename_i pc hpc
      split at hs
      · cases hs
      · rename_i hfree
        obtain ⟨rfl, rfl⟩ := hs
        apply h.lock hi (fun _ => rfl) (worksOn_releasing s k releaseCleanup) hpc
          (by simpa using hfree)
        intro conn tied atRest
        exact cleanup_settles (atRest.between tied)
    · cases hs
  | running s k call prog log =>
    simp only [ConnectionPool.step] at hs
    split at hs
    · cases hs
    · rename_i r pc hpc
      obtain ⟨rfl, rfl⟩ := hs
      have hleft : AllAttended g ((p.setConn k pc.conn).setLocked k false)
          (ts.set i (.answered s k call r log)) := by
        apply h.leave hi (worksOn_running s k call (.ret r) log) (fun _ => rfl) hpc
        exact fun tied settles => ⟨tied, StrayCursors.Settles.atRest settles tied⟩
      rw [setConn_self hpc] at hleft
      exact hleft.letGo k
    · rename_i q f pc hpc
      obtain ⟨rfl, rfl⟩ := hs
      apply h.serve hi (worksOn_running s k call (.ask q f) log)
        (worksOn_running s k call (f (Conn.serve g pc.conn q e.choice).2) _) hpc
      intro tied settles
      exact ⟨serve_tied tied, StrayCursors.Settles.serve settles (hfails (k, q) rfl pc hpc)⟩
  | releasing s k prog =>
    simp only [ConnectionPool.step] at hs
    split at hs
    · cases hs
    · rename_i pc hpc
      obtain ⟨rfl, rfl⟩ := hs
      have hleft : AllAttended g ((p.setConn k pc.conn).setLocked k false)
          (ts.set i (.returning s k)) := by
        apply h.leave hi (worksOn_releasing s k (.ret ())) (fun _ => rfl) hpc
        exact fun tied settles => ⟨tied, StrayCursors.Settles.atRest settles tied⟩
      rwa [setConn_self hpc] at hleft
    · rename_i q f pc hpc
      obtain ⟨rfl, rfl⟩ := hs
      apply h.serve hi (worksOn_releasing s k (.ask q f))
        (worksOn_releasing s k (f (Conn.serve g pc.conn q e.choice).2)) hpc
      intro tied settles
      exact ⟨serve_tied tied, StrayCursors.Settles.serve settles (hfails (k, q) rfl pc hpc)⟩
  | _ =>
    obtain ⟨hp, ht'⟩ := transition_attended (step_transition hs) rfl h
    exact hp.idle hi (fun _ => rfl) ht'

theorem dropped_attended {sent : Option Choice} (h : AllAttended g p ts) (hi : ts[i]? = some t)
    (hd : dropped g p t sent = some p')
    (hrest : ∀ x ∈ awaited t, ∀ pc ∈ p.conns[x.1]?, AtRest (settled g pc.conn x.2 sent)) :
    AllAttended g p' (ts.set i .finished) := by
  have hidle (ht : NoWork t) : AllAttended g p (ts.set i .finished) := h.idle hi ht fun _ => rfl
  have htied {conn : Conn} (q : Request) (tied : Tied conn.wire) :
      Tied (settled g conn q sent).wire := by
    unfold settled
    split
    · exact serve_tied tied
    · exact tied
  cases t with
  | running s k call prog log =>
    cases prog with
    | ret r => cases hd
    | ask q f =>
      obtain ⟨pc, hpc, rfl⟩ := Option.map_eq_some_iff.mp hd
      apply AllAttended.letGo
      apply h.leave hi (worksOn_running s k call (.ask q f) log) (fun _ => rfl) hpc
      exact fun tied _ => ⟨htied q tied, hrest (k, q) rfl pc hpc⟩
  | releasing s k prog =>
    cases prog with
    | ret r => cases hd
    | ask q f =>
      obtain ⟨pc, hpc, rfl⟩ := Option.map_eq_some_iff.mp hd
      apply AllAttended.letGo
      apply h.leave hi (worksOn_releasing s k (.ask q f)) (fun _ => rfl) hpc
      exact fun tied _ => ⟨htied q tied, hrest (k, q) rfl pc hpc⟩
  | leaseAssign | waiting | cancelling | releaseWaiting | returning | browserStore | browsing =>
    obtain rfl := Option.some.inj hd
    exact (hidle fun _ => rfl).letGo _
  | browserDuplicate =>
    obtain rfl := Option.some.inj hd
    exact ((hidle fun _ => rfl).letGo _).letGo _
  | evict | evictIdle | evictAbort | evictSecondary | evictSecondaryTotal | evictSecondaryAbort
  | shutdownInner | shutdownSecondary | shutdownAbort | answered | failed | finished => cases hd
  | _ =>
    obtain rfl := Option.some.inj hd
    exact hidle fun _ => rfl

/-- No lease is replaced and no CLOSE of an exhausted page fails. A dropped operation has no slot
reserved and no connection out of the pool, and leaves its connection with the cursor in place or
none on the wire. -/
def Spared (g : Grammar) (c : Config Pool Task) : Action Task Turn → Prop
  | .spawn _ => True
  | .advance i (.resume e) => ∀ t ∈ c.tasks[i]?, leaks c.shared t = 0 ∧
      ∀ x ∈ awaited t, ∀ pc ∈ c.shared.conns[x.1]?, closeFails ⟨pc.conn, x.2, e.choice⟩ = false
  | .advance i (.drop sent) => ∀ t ∈ c.tasks[i]?, claims t = 0 ∧
      ∀ x ∈ awaited t, ∀ pc ∈ c.shared.conns[x.1]?, AtRest (settled g pc.conn x.2 sent)

instance : ∀ c a, Decidable (Spared g c a)
  | _, .spawn _ => inferInstanceAs (Decidable True)
  | c, .advance i (.resume e) => inferInstanceAs (Decidable (∀ t ∈ c.tasks[i]?,
      leaks c.shared t = 0 ∧ ∀ x ∈ awaited t, ∀ pc ∈ c.shared.conns[x.1]?,
        closeFails ⟨pc.conn, x.2, e.choice⟩ = false))
  | c, .advance i (.drop sent) => inferInstanceAs (Decidable (∀ t ∈ c.tasks[i]?, claims t = 0 ∧
      ∀ x ∈ awaited t, ∀ pc ∈ c.shared.conns[x.1]?, AtRest (settled g pc.conn x.2 sent)))

theorem spared_loses_nothing {c : Config Pool Task} {a : Action Task Turn} (h : Spared g c a) :
    lost c a = 0 := by
  match a, h with
  | .spawn t, _ => rfl
  | .advance i (.resume e), h =>
    simp only [lost]
    cases hi : c.tasks[i]? with
    | none => rfl
    | some t => exact (h t hi).1
  | .advance i (.drop sent), h =>
    simp only [lost]
    cases hi : c.tasks[i]? with
    | none => rfl
    | some t => exact (h t hi).1

theorem act_attended {c c' : Config Pool Task} {a : Action Task Turn}
    (h : AllAttended g c.shared c.tasks) (hsp : Spared g c a)
    (hact : (cancellable g cfg).act c a = some c') : AllAttended g c'.shared c'.tasks := by
  rcases act_or_drop hact with ⟨t, rfl, ht, rfl⟩ | ⟨i, e, t, p', t', rfl, hi, hs, rfl⟩ |
    ⟨i, sent, t, p', rfl, hi, hp, rfl⟩
  · intro k
    have hnone : workOn k t = none := by
      cases t <;> first | rfl | cases ht
    simpa [List.filterMap_append, hnone] using h k
  · exact step_attended h hi hs (hsp t hi).2
  · exact dropped_attended h hi hp (hsp t hi).2

theorem attended_connect (g : Grammar) (now : ℕ) :
    AllAttended g (connect now).shared (connect now).tasks := by
  have hempty : AllAttended g ⟨(connect now).shared.inner, ∅, []⟩ [] := fun k => .unopened
  have hadded := hempty.add.unhold 0
  exact hadded.of_conns rfl

def IsPooled (p : Pool) (k : ConnId) : Prop :=
  (∃ entry ∈ p.inner.idle, entry.conn = k) ∨ ∃ s, p.inner.leased.lookup s = some k

/-- In every run without a shutdown in which futures may be dropped and every action is spared,
once no operation is in flight `total` is the number of stored connections, and a pooled
connection without an active cursor has no cursor of the pool on its wire. -/
theorem spared_run_at_rest (g : Grammar) (cfg : PgConfig) (now : ℕ)
    (as : List (Action Task Turn)) (d : Config Pool Task) (hns : Action.spawn .shutdownInner ∉ as)
    (hm : (cancellable g cfg).Meets (Spared g) (connect now) as)
    (hr : (cancellable g cfg).run (connect now) as = some d)
    (hdone : ∀ t ∈ d.tasks, t.done = true) :
    d.shared.inner.total = d.shared.inner.idle.length + d.shared.inner.leased.entries.length +
        d.shared.secondaryBrowsers.entries.length ∧
      ∀ k pc, IsPooled d.shared k → d.shared.conns[k]? = some pc → pc.conn.activeCursor = none →
        ∀ cur ∈ pc.conn.wire.cursors, cur.owner ≠ .pool := by
  refine ⟨(total_matches_iff_nothing_lost hns hr hdone).mpr
    (meets_mono (fun _ _ => spared_loses_nothing) hm), fun k pc _ hpc hnone cur hcur howner => ?_⟩
  have hatt : AllAttended g d.shared d.tasks :=
    run_invariant (fun c a c' h ha hact => act_attended h ha hact) (attended_connect g now) hm hr
  have hfree : d.tasks.filterMap (workOn k) = [] := by
    refine List.filterMap_eq_nil_iff.mpr fun t ht => ?_
    have hd := hdone t ht
    cases t <;> first | rfl | cases hd
  have hk := hatt k
  rw [hfree, hpc] at hk
  cases hk with
  | unlocked tied atRest => exact atRest hnone cur hcur howner

/-- Of two `execute`s of a session the second is dropped while it waits for the
`operation_lock`. -/
def droppedWaiting : List (Action Task Turn) :=
  undropped (selectFor "a".toList :: pages [0, 0, 0, 0, 0, 0, 0, 0, 0, 0] ++
    selectFor "a".toList :: pages [1]) ++ [.advance 1 (.drop none)]

theorem spared_run_at_rest_droppedWaiting :
    ∃ d, (cancellable smallServer defaultPool).run (connect 0) droppedWaiting = some d ∧
      d.shared.inner.total = d.shared.inner.idle.length + d.shared.inner.leased.entries.length +
        d.shared.secondaryBrowsers.entries.length ∧
      ∀ k pc, IsPooled d.shared k → d.shared.conns[k]? = some pc → pc.conn.activeCursor = none →
        ∀ cur ∈ pc.conn.wire.cursors, cur.owner ≠ .pool := by
  have hrun : ∃ d, (cancellable smallServer defaultPool).run (connect 0) droppedWaiting = some d ∧
      ∀ t ∈ d.tasks, t.done = true := run_decided (by decide +kernel)
  obtain ⟨d, hd, hdone⟩ := hrun
  refine ⟨d, hd, spared_run_at_rest smallServer defaultPool 0 droppedWaiting d ?_
    (by decide +kernel) hd hdone⟩
  simp [droppedWaiting, spawn_mem_undropped, selectFor, spawn_notMem_pages]

def droppedOpening : List (Action Task Turn) :=
  undropped (browse :: sections [0, 0, 0, 0] ++ selectFor "b".toList :: sections [1, 1, 1, 1]) ++
    [.advance 1 (.drop none)]

/-- `execute` is dropped at its FETCH, after the server has declared the cursor. -/
def droppedAtFetch : List (Action Task Turn) :=
  undropped (selectFor "a".toList :: pages [0, 0, 0, 0, 0, 0, 0]) ++
    [.advance 0 (.drop (some .quiet))]

/-- The reserved slot is counted for good, and the cursor stays open with nothing to close it. -/
theorem dropped_leaks :
    (Action.spawn Task.shutdownInner ∉ droppedOpening ∧
      ∃ d, (cancellable smallServer defaultPool).run (connect 0) droppedOpening = some d ∧
        (∀ t ∈ d.tasks, t.done = true) ∧
        d.shared.inner.total ≠ d.shared.inner.idle.length +
          d.shared.inner.leased.entries.length + d.shared.secondaryBrowsers.entries.length) ∧
    (Action.spawn Task.shutdownInner ∉ droppedAtFetch ∧
      ∃ d pc, (cancellable smallServer defaultPool).run (connect 0) droppedAtFetch = some d ∧
        (∀ t ∈ d.tasks, t.done = true) ∧ IsPooled d.shared 0 ∧ d.shared.conns[0]? = some pc ∧
        pc.conn.activeCursor = none ∧ ∃ cur ∈ pc.conn.wire.cursors, cur.owner = .pool) := by
  refine ⟨⟨?_, ?_⟩, ?_, ?_⟩
  · simp [droppedOpening, spawn_mem_undropped, browse, selectFor, spawn_notMem_sections]
  · exact run_decided (by decide +kernel)
  · simp [droppedAtFetch, spawn_mem_undropped, selectFor, spawn_notMem_pages]
  · have hrun : ∃ d, (cancellable smallServer defaultPool).run (connect 0) droppedAtFetch = some d ∧
        (∀ t ∈ d.tasks, t.done = true) ∧ d.shared.inner.leased.lookup "a".toList = some 0 ∧
        d.shared.conns[0]?.any fun pc => pc.conn.activeCursor = none ∧
          ∃ cur ∈ pc.conn.wire.cursors, cur.owner = .pool := run_decided (by decide +kernel)
    obtain ⟨d, hd, hdone, hleased, hconn⟩ := hrun
    obtain ⟨pc, hpc, hopen⟩ := (Option.any_eq_true _ _).mp hconn
    obtain ⟨hactive, hcur⟩ := of_decide_eq_true hopen
    exact ⟨d, pc, hd, hdone, .inr ⟨_, hleased⟩, hpc, hactive, hcur⟩

end SshCommander.DroppedFutures
