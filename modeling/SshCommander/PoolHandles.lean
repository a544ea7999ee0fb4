import SshCommander.ConnectionOwnership

/-!
# The count of references to a connection

`Arc::strong_count` less the pool's own reference is, in every interleaving, the number of times
that the operations in flight name the connection.
-/

namespace SshCommander.PoolHandles
open InterleavedTasks InterleavedTasks.TaskSystem MapWeights ConnectionPool ConnectionPool.Pool
  PooledConnection PoolLedger ConnectionOwnership

variable {g : PostgresWire.Grammar} {cfg : PgConfig} {c c' d : Config Pool Task}
  {a : Action Task Event} {p p' : Pool} {t t' : Task} {e : Event} {j k : ConnId} {ks : List ConnId}

def arcs (ω : ConnId → ℕ) : Task → ℕ
  | .leaseAssign _ _ k | .waiting _ k _ | .running _ k .. | .cancelling _ k | .releaseWaiting _ k
  | .releasing _ k _ | .returning _ k | .browserStore _ k | .browsing k => ω k
  | .browserDuplicate own existing => ω own + ω existing
  | .evictAbort _ ks | .evictSecondaryTotal ks | .evictSecondaryAbort ks | .shutdownSecondary ks
  | .shutdownAbort ks => (ks.map ω).sum
  | _ => 0

theorem handles_of_conns (h : p'.conns = p.conns) (k : ConnId) : p'.handles k = p.handles k := by
  rw [Pool.handles, Pool.handles, h]

theorem handles_unborn (h : p.conns.length ≤ k) : p.handles k = 0 := by
  rw [Pool.handles, List.getElem?_eq_none h]
  rfl

/-- A change of one connection that leaves its count. -/
theorem handles_modify {f : PooledConnection → PooledConnection}
    (hp : p'.conns = p.conns.modify j f) (hf : ∀ pc, (f pc).handles = pc.handles) (k : ConnId) :
    p'.handles k = p.handles k := by
  rw [Pool.handles, Pool.handles, hp, List.getElem?_modify]
  cases p.conns[k]? with
  | none => rfl
  | some pc =>
    by_cases hjk : j = k
    · simp [hjk, hf]
    · simp [hjk]

@[simp] theorem handles_abort (p : Pool) (j k : ConnId) : (p.abort j).handles k = p.handles k := by
  apply handles_modify
  · exact rfl
  · exact fun _ => rfl

@[simp] theorem handles_setLocked (p : Pool) (j : ConnId) (b : Bool) (k : ConnId) :
    (p.setLocked j b).handles k = p.handles k := by
  apply handles_modify
  · exact rfl
  · exact fun _ => rfl

@[simp] theorem handles_setConn (p : Pool) (j : ConnId) (conn : Conn) (k : ConnId) :
    (p.setConn j conn).handles k = p.handles k := by
  apply handles_modify
  · exact rfl
  · exact fun _ => rfl

@[simp] theorem handles_reap (p : Pool) (j k : ConnId) : (p.reap j).handles k = p.handles k := by
  unfold reap
  split
  · rfl
  · exact handles_abort p j k

theorem handles_hold (h : j < p.conns.length) (k : ConnId) :
    (p.hold j).handles k = p.handles k + only k j := by
  rw [Pool.handles, Pool.handles, hold, List.getElem?_modify]
  by_cases hjk : j = k
  · subst hjk
    simp [List.getElem?_eq_getElem h, only]
  · cases p.conns[k]? <;> simp [hjk, only]

theorem handles_unhold (h : only k j ≤ p.handles k) :
    (p.unhold j).handles k + only k j = p.handles k := by
  rw [Pool.handles] at h ⊢
  rw [Pool.handles, unhold, List.getElem?_modify]
  by_cases hjk : j = k
  · subst hjk
    rw [only_self] at h ⊢
    cases hp : p.conns[j]? with
    | none => rw [hp] at h; cases h
    | some pc =>
      rw [hp] at h
      simp only [Option.map_some, Option.getD_some] at h
      simp only [if_pos, Option.map_eq_map, Option.map_some, Option.getD_some]
      omega
  · cases p.conns[k]? <;> simp [hjk, only]

theorem handles_letGo (h : only k j ≤ p.handles k) :
    (p.letGo j).handles k + only k j = p.handles k := by
  rw [letGo, handles_reap, handles_unhold h]

theorem handles_abortAll (h : (ks.map (only k)).sum ≤ p.handles k) :
    (p.abortAll ks).handles k + (ks.map (only k)).sum = p.handles k := by
  induction ks generalizing p with
  | nil => rfl
  | cons j ks ih =>
    rw [List.map_cons, List.sum_cons] at h ⊢
    have hj : only k j ≤ (p.abort j).handles k := by
      rw [handles_abort]
      omega
    have hgo := handles_letGo hj
    rw [handles_abort] at hgo
    have hrest : (((p.abort j).letGo j).abortAll ks).handles k + (ks.map (only k)).sum =
        ((p.abort j).letGo j).handles k := ih (by omega)
    have hall : p.abortAll (j :: ks) = ((p.abort j).letGo j).abortAll ks := rfl
    rw [hall]
    omega

theorem handles_holdAll (h : ∀ j ∈ ks, j < p.conns.length) (k : ConnId) :
    (p.holdAll ks).handles k = p.handles k + (ks.map (only k)).sum := by
  induction ks generalizing p with
  | nil => rfl
  | cons j ks ih =>
    have hrest : ((p.hold j).holdAll ks).handles k = (p.hold j).handles k +
        (ks.map (only k)).sum := ih fun j' hj' => by
      rw [hold_length]
      exact h j' (List.mem_cons_of_mem j hj')
    have hall : p.holdAll (j :: ks) = (p.hold j).holdAll ks := rfl
    rw [hall, hrest, handles_hold (h j List.mem_cons_self), List.map_cons, List.sum_cons,
      Nat.add_assoc]

/-- A new connection has the `Arc` of the operation that opened it. -/
theorem handles_add (p : Pool) (k : ConnId) :
    p.add.1.handles k = p.handles k + only k p.conns.length := by
  rw [Pool.handles, Pool.handles, Pool.add]
  rcases Nat.lt_trichotomy k p.conns.length with hlt | rfl | hgt
  · have hne : p.conns.length ≠ k := by omega
    rw [List.getElem?_append_left hlt, only, if_neg hne, Nat.add_zero]
  · rw [List.getElem?_eq_none (le_refl _), only_self]
    simp
  · have hne : p.conns.length ≠ k := by omega
    rw [List.getElem?_eq_none hgt.le, only, if_neg hne, List.getElem?_eq_none (by simp; omega)]
    rfl

@[simp] theorem handles_assignLease (p : Pool) (s : SessionId) (j k : ConnId) :
    (p.assignLease s j).handles k = p.handles k := by
  unfold assignLease
  split
  · rfl
  · rw [handles_reap]
    rfl

/-- Every connection that is stored was opened. -/
def Born (p : Pool) : Prop := ∀ k, p.conns.length ≤ k → pooled (only k) p = 0

theorem Born.of_pooled (h : Born p) (hk : 1 ≤ pooled (only k) p) : k < p.conns.length := by
  by_contra hlt
  have hzero := h k (Nat.le_of_not_lt hlt)
  omega

theorem Born.lease {s : SessionId} (h : Born p) (hl : p.inner.leased.lookup s = some k) :
    k < p.conns.length := by
  have hw := le_weigh (w := only k) hl
  rw [only_self] at hw
  apply h.of_pooled
  simp only [pooled]
  omega

theorem Born.secondary {database : RustText.Text} {entry : SecondaryBrowserEntry} (h : Born p)
    (hl : p.secondaryBrowsers.lookup database = some entry) : entry.conn < p.conns.length := by
  have hw := le_weigh (w := fun e : SecondaryBrowserEntry => only entry.conn e.conn) hl
  simp only [only_self] at hw
  apply h.of_pooled
  simp only [pooled]
  omega

theorem Born.idle {entry : IdleEntry} (h : Born p) (he : entry ∈ p.inner.idle) :
    entry.conn < p.conns.length := by
  have hle := List.single_le_sum (by simp) _
    (List.mem_map_of_mem (f := fun e : IdleEntry => only entry.conn e.conn) he)
  simp only [only_self] at hle
  apply h.of_pooled
  simp only [pooled]
  omega

/-- What a section takes out of the pool was stored there. -/
theorem Born.taken (h : Born p) (hw : ∀ ω, pooled ω p' + (ks.map ω).sum = pooled ω p) :
    ∀ j ∈ ks, j < p.conns.length := by
  intro j hj
  have hle := le_sum_of_mem (ω := only j) hj
  rw [only_self] at hle
  have hj := hw (only j)
  apply h.of_pooled
  omega

/-- The count of every connection follows the operation's references, and what it stores it had. -/
structure Followed (p : Pool) (t : Task) (p' : Pool) (t' : Task) : Prop where
  handles : ∀ k, p'.handles k + arcs (only k) t = p.handles k + arcs (only k) t'
  stored : ∀ ω, pooled ω p' ≤ pooled ω p + arcs ω t
  length : p.conns.length ≤ p'.conns.length

theorem Followed.same (hi : p'.inner = p.inner) (hs : p'.secondaryBrowsers = p.secondaryBrowsers)
    (hh : ∀ k, p'.handles k = p.handles k) (hl : p'.conns.length = p.conns.length)
    (ha : ∀ ω, arcs ω t' = arcs ω t) : Followed p t p' t' :=
  ⟨fun k => by rw [hh, ha], fun ω => by rw [pooled_congr hi hs]; omega, hl.ge⟩

theorem Followed.held (hi : p'.inner = p.inner) (hs : p'.secondaryBrowsers = p.secondaryBrowsers)
    (hj : j < p.conns.length) (hp : p'.conns = (p.hold j).conns) (ht : ∀ ω, arcs ω t = 0)
    (ht' : ∀ ω, arcs ω t' = ω j) : Followed p t p' t' := by
  refine ⟨fun k => ?_, fun ω => by rw [pooled_congr hi hs]; omega, ?_⟩
  · rw [handles_of_conns hp, handles_hold hj, ht, ht']
    rfl
  · rw [hp, hold_length]

theorem Followed.letGo (hj : ∀ k, arcs (only k) t ≤ p.handles k) (ht : ∀ ω, arcs ω t = ω j)
    (ht' : ∀ ω, arcs ω t' = 0) : Followed p t (p.letGo j) t' := by
  refine ⟨fun k => ?_, fun ω => ?_, (letGo_length p j).ge⟩
  · have hk := hj k
    rw [ht] at hk ⊢
    rw [handles_letGo hk, ht']
    rfl
  · rw [pooled_congr (letGo_inner p j) (letGo_secondary p j)]
    omega

theorem Followed.abortAll (hks : ∀ k, arcs (only k) t ≤ p.handles k)
    (ht : ∀ ω, arcs ω t = (ks.map ω).sum) (ht' : ∀ ω, arcs ω t' = 0) :
    Followed p t (p.abortAll ks) t' := by
  refine ⟨fun k => ?_, fun ω => ?_, (abortAll_length p ks).ge⟩
  · have hk := hks k
    rw [ht] at hk ⊢
    rw [handles_abortAll hk, ht']
    rfl
  · rw [pooled_congr (abortAll_inner p ks) (abortAll_secondary p ks)]
    omega

theorem arcs_next (ω : ConnId → ℕ) (use : Purpose) (s : SessionId) (k : ConnId) :
    arcs ω (use.next s k) = ω k := by
  cases use <;> rfl

theorem pooled_drainInner (ω : ConnId → ℕ) (p : Pool) :
    pooled ω p.drainInner.1 + (p.drainInner.2.map ω).sum = pooled ω p := by
  simp only [drainInner, pooled, holdAll_inner, holdAll_secondary, List.map_append, List.sum_append,
    List.map_map, weigh, List.map_nil, List.sum_nil, Function.comp_def]
  have hempty : (∅ : AList fun _ : SessionId => ConnId).entries = [] := rfl
  rw [hempty]
  simp only [List.map_nil, List.sum_nil]
  omega

theorem pooled_drainSecondary (ω : ConnId → ℕ) (p : Pool) :
    pooled ω p.drainSecondary.1 + (p.drainSecondary.2.map ω).sum = pooled ω p := by
  simp only [drainSecondary, pooled, holdAll_inner, holdAll_secondary, setSecondary_inner,
    setSecondary_secondary, List.map_map, weigh, Function.comp_def]
  have hempty : (∅ : AList fun _ : RustText.Text => SecondaryBrowserEntry).entries = [] := rfl
  rw [hempty]
  simp only [List.map_nil, List.sum_nil]
  omega

/-- A section that takes connections out and keeps an `Arc` of each. -/
theorem Followed.took {q : Pool} (h : Born p) (hp : p' = q.holdAll ks) (hq : q.conns = p.conns)
    (hw : ∀ ω, pooled ω p' + (ks.map ω).sum = pooled ω p)
    (harcs : ∀ ω, arcs ω t' = arcs ω t + (ks.map ω).sum) : Followed p t p' t' := by
  have hborn : ∀ j ∈ ks, j < q.conns.length := by
    rw [hq]
    exact h.taken hw
  subst hp
  refine ⟨fun k => ?_, fun ω => ?_, ?_⟩
  · rw [handles_holdAll hborn, handles_of_conns hq, harcs]
    omega
  · have := hw ω
    omega
  · rw [holdAll_length, hq]

theorem transition_followed (h : Transition g cfg p e t p' t') (hborn : Born p)
    (hle : ∀ k, arcs (only k) t ≤ p.handles k) : Followed p t p' t' := by
  cases h with
  | leaseHit h => exact .held rfl rfl (hborn.lease h) rfl (fun _ => rfl) fun ω => arcs_next ω _ _ _
  | found h => exact .held rfl rfl (hborn.lease h) rfl (fun _ => rfl) fun _ => rfl
  | cancelHit h => exact .held rfl rfl (hborn.lease h) rfl (fun _ => rfl) fun _ => rfl
  | popped h =>
    obtain ⟨entry, hidle, rfl, rfl⟩ := popIdle_some h
    have hmem : entry ∈ p.inner.idle := by
      rw [hidle]
      exact List.mem_append_right _ (List.mem_singleton_self entry)
    refine ⟨fun k => ?_, fun ω => ?_, (hold_length _ _).ge⟩
    · have hlt : entry.conn < (p.setIdle p.inner.idle.dropLast).conns.length := hborn.idle hmem
      rw [handles_hold hlt]
      rfl
    · have hw := (pooled_popIdle (ω := ω) h).1
      omega
  | @assigned s use j =>
    refine ⟨fun k => ?_, fun ω => ?_, (assignLease_length p s j).ge⟩
    · rw [handles_assignLease, arcs_next]
      rfl
    · have hw := pooled_assignLease (ω := ω) p s j
      simp only [arcs]
      omega
  | reserved h | browserReserved h =>
    obtain ⟨-, rfl⟩ := reserveConnectionSlot_ok h
    exact ⟨fun _ => rfl, fun _ => Nat.le_add_right _ _, le_refl _⟩
  | opened | browserOpened =>
    refine ⟨fun k => ?_, fun _ => Nat.le_add_right _ _, by simp [add]⟩
    rw [handles_add]
    rfl
  | rolledBack => exact ⟨fun _ => rfl, fun _ => Nat.le_add_right _ _, le_refl _⟩
  | @returned s j call r log =>
    have hlocked : ∀ k, arcs (only k) (.running s j call (.ret r) log) ≤
        (p.setLocked j false).handles k := by
      intro k
      rw [handles_setLocked]
      exact hle k
    have hgo : Followed (p.setLocked j false) (.running s j call (.ret r) log)
        ((p.setLocked j false).letGo j) (.answered s j call r log) :=
      .letGo hlocked (fun _ => rfl) fun _ => rfl
    refine ⟨fun k => ?_, hgo.stored, ?_⟩
    · rw [hgo.handles, handles_setLocked]
    · exact (setLocked_length p j false).ge.trans hgo.length
  | cancelled | browsed => exact .letGo hle (fun _ => rfl) fun _ => rfl
  | @taken s j h =>
    refine ⟨fun k => ?_, fun ω => ?_, (hold_length _ _).ge⟩
    · have hlt : j < (p.setLeased (p.inner.leased.erase s)).conns.length := hborn.lease h
      rw [handles_hold hlt]
      rfl
    · have hw := pooled_releaseTake (ω := ω) h
      omega
  | @pushed s j =>
    refine ⟨fun k => ?_, fun ω => ?_, (unhold_length _ _).ge⟩
    · have hk : only k j ≤ (p.setIdle (p.inner.idle ++ [⟨e.now, j⟩])).handles k := hle k
      exact handles_unhold hk
    · have hw := pooled_returned (ω := ω) p e.now j
      simp only [arcs]
      omega
  | @browserHit database entry h =>
    refine ⟨fun k => ?_, fun ω => ?_, (hold_length _ _).ge⟩
    · have hlt : entry.conn < (p.setSecondary (p.secondaryBrowsers.insert database
          ⟨e.now, entry.conn⟩)).conns.length := hborn.secondary h
      rw [handles_hold hlt]
      rfl
    · rw [pooled_touchSecondary h]
      omega
  | @raced database own entry h =>
    refine ⟨fun k => ?_, fun ω => ?_, (hold_length _ _).ge⟩
    · have hlt : entry.conn < (p.setSecondary (p.secondaryBrowsers.insert database
          ⟨e.now, entry.conn⟩)).conns.length := hborn.secondary h
      rw [handles_hold hlt, Nat.add_assoc, Nat.add_comm (only k entry.conn)]
      rfl
    · rw [pooled_touchSecondary h]
      omega
  | @inserted database own h =>
    refine ⟨fun _ => rfl, fun ω => ?_, le_refl _⟩
    rw [pooled_storeSecondary h]
    rfl
  | @duplicateDropped own existing =>
    have hlength : p.releaseConnectionSlot.conns.length ≤
        (p.releaseConnectionSlot.letGo own).conns.length := (letGo_length _ _).ge
    refine ⟨fun k => ?_, fun ω => ?_, hlength⟩
    · have hk : only k own ≤ p.releaseConnectionSlot.handles k :=
        (Nat.le_add_right _ _).trans (hle k)
      have hgo := handles_letGo hk
      simp only [arcs]
      rw [← Nat.add_assoc, hgo]
      rfl
    · rw [pooled_congr (p := p.releaseConnectionSlot) (letGo_inner _ _) (letGo_secondary _ _)]
      exact Nat.le_add_right _ _
  | @idleEvicted now =>
    exact .took hborn rfl rfl (fun ω => (pooled_evictIdle cfg p now).1) fun _ => (Nat.zero_add _).symm
  | @noSecondary now h =>
    refine .took hborn rfl rfl (fun ω => (pooled_evictSecondary cfg p now).1) fun ω => ?_
    have hnone : (p.evictableSecondary cfg now).map (·.2.conn) = [] := h
    rw [hnone]
    rfl
  | @secondaryEvicted now =>
    exact .took hborn rfl rfl (fun ω => (pooled_evictSecondary cfg p now).1)
      fun _ => (Nat.zero_add _).symm
  | innerDrained =>
    exact .took hborn rfl rfl (fun ω => pooled_drainInner ω p) fun _ => (Nat.zero_add _).symm
  | @secondaryDrained ks =>
    refine .took hborn rfl rfl (fun ω => pooled_drainSecondary ω p) fun ω => ?_
    have hsum : ((ks ++ p.drainSecondary.2).map ω).sum =
        (ks.map ω).sum + (p.drainSecondary.2.map ω).sum := by
      rw [List.map_append, List.sum_append]
    exact hsum
  | secondaryCounted => exact ⟨fun _ => rfl, fun _ => Nat.le_add_right _ _, le_refl _⟩
  | idleAborted | secondaryAborted | shutDown => exact .abortAll hle (fun _ => rfl) fun _ => rfl
  | locked | releaseLocked | released =>
    exact .same rfl rfl (handles_setLocked p _ _) (setLocked_length p _ _) fun _ => rfl
  | served | cleaned =>
    exact .same rfl rfl (handles_setConn p _ _) (setConn_length p _ _) fun _ => rfl
  | _ => exact .same rfl rfl (fun _ => rfl) rfl fun _ => rfl

structure Counted (c : Config Pool Task) : Prop where
  handles : ∀ k, c.shared.handles k = (c.tasks.map (arcs (only k))).sum
  born : Born c.shared

theorem arcs_starts (ω : ConnId → ℕ) (h : starts cfg t = true) : arcs ω t = 0 := by
  cases t <;> first | rfl | cases h

theorem counted_connect (now : ℕ) : Counted (connect now) := by
  constructor
  · intro k
    cases k <;> rfl
  · intro k hk
    have hne : 0 ≠ k := by
      simp only [connect, List.length_singleton] at hk
      omega
    simp [connect, pooled, weigh, only, hne]

/-- A section keeps every stored connection among those opened. -/
theorem Followed.born (h : Followed p t p' t') (hborn : Born p)
    (hle : ∀ k, arcs (only k) t ≤ p.handles k) : Born p' := by
  intro k hk
  have hunborn : p.conns.length ≤ k := h.length.trans hk
  have harcs := hle k
  rw [handles_unborn hunborn] at harcs
  have hstored := h.stored (only k)
  rw [hborn k hunborn] at hstored
  omega

theorem act_counted (h : Counted c) (hact : (system g cfg).act c a = some c') : Counted c' := by
  rcases act_cases hact with ⟨t, rfl, ht, rfl⟩ | ⟨i, e, t, p', t', rfl, hi, hs, rfl⟩
  · refine ⟨fun k => ?_, h.born⟩
    simp [h.handles k, arcs_starts (only k) ht]
  · have hle (k : ConnId) : arcs (only k) t ≤ c.shared.handles k := by
      rw [h.handles]
      exact le_sum_map (arcs (only k)) hi
    have hfollowed := transition_followed (step_transition hs) h.born hle
    refine ⟨fun k => ?_, hfollowed.born h.born hle⟩
    have hset := sum_map_set (arcs (only k)) hi t'
    have hk := hfollowed.handles k
    rw [h.handles k] at hk
    simp only
    omega

theorem run_counted {now : ℕ} {as : List (Action Task Event)}
    (hr : (system g cfg).run (connect now) as = some d) : Counted d := by
  have hm : (system g cfg).Meets (fun _ _ => True) (connect now) as :=
    meets_of_forall fun _ _ => trivial
  exact run_invariant (fun _ _ _ h _ hact => act_counted h hact) (counted_connect now) hm hr

end SshCommander.PoolHandles
