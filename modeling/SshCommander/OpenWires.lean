import SshCommander.SharedBrowsers

/-!
# Who has an open connection

A wire is closed by the last `Arc` to its connection. So a connection that is open is stored in the
pool or named by an operation in flight, whatever the slots say, and a pool that is dropped leaves
no wire behind.
-/

namespace SshCommander.OpenWires
open InterleavedTasks InterleavedTasks.TaskSystem MapWeights ConnectionPool ConnectionPool.Pool
  PooledConnection PoolLedger PoolAccounting ConnectionOwnership PoolHandles SharedBrowsers SessionCalls

variable {g : PostgresWire.Grammar} {cfg : PgConfig} {c c' d : Config Pool Task}
  {a : Action Task Event} {as : List (Action Task Event)} {p p' : Pool} {t t' : Task} {e : Event}
  {j k : ConnId} {ks : List ConnId} {now : ℕ}

def references (p : Pool) (k : ConnId) : ℕ := pooled (only k) p + p.handles k

/-- A wire that is up has a reference to its connection. -/
def Reachable (p : Pool) (k : ConnId) : Prop := isUp p k = true → 0 < references p k

theorem Reachable.of_le (h : Reachable p k) (hup : isUp p' k = isUp p k)
    (hle : references p k ≤ references p' k) : Reachable p' k :=
  fun hk => (h (hup ▸ hk)).trans_le hle

theorem Reachable.held (h : 0 < p.handles k) : Reachable p k :=
  fun _ => h.trans_le (Nat.le_add_left _ _)

theorem isUp_setLocked (p : Pool) (j : ConnId) (b : Bool) (k : ConnId) :
    isUp (p.setLocked j b) k = isUp p k := by
  apply isUp_modify
  · exact rfl
  · exact fun _ => rfl

theorem isUp_abort_self (p : Pool) (k : ConnId) : isUp (p.abort k) k = false := by
  rw [isUp, abort, List.getElem?_modify]
  cases p.conns[k]? with
  | none => rfl
  | some pc => simp [PostgresWire.Wire.lose]

theorem stored_pos (h : p.isStored k = true) : 0 < pooled (only k) p := by
  simp only [isStored, Bool.or_eq_true, List.any_eq_true, beq_iff_eq] at h
  obtain (⟨e, he, rfl⟩ | ⟨e, he, rfl⟩) | ⟨e, he, rfl⟩ := h
  · have hle := List.single_le_sum (by simp) _
      (List.mem_map_of_mem (f := fun e' : IdleEntry => only e.conn e'.conn) he)
    simp only [only_self] at hle
    simp only [pooled]
    omega
  · have hle := List.single_le_sum (by simp) _
      (List.mem_map_of_mem (f := fun e' : (_ : SessionId) × ConnId => only e.2 e'.2) he)
    simp only [only_self] at hle
    simp only [pooled, weigh]
    omega
  · have hle := List.single_le_sum (by simp) _ (List.mem_map_of_mem
      (f := fun e' : (_ : RustText.Text) × SecondaryBrowserEntry => only e.2.conn e'.2.conn) he)
    simp only [only_self] at hle
    simp only [pooled, weigh]
    omega

/-- A connection that is reaped has a reference left, or its wire goes down. -/
theorem reachable_reap (p : Pool) (k : ConnId) : Reachable (p.reap k) k := by
  intro hup
  have hrefs : references (p.reap k) k = references p k := by
    rw [references, references, handles_reap, pooled_congr (reap_inner p k) (reap_secondary p k)]
  rw [hrefs]
  unfold reap at hup
  split at hup
  · rename_i hkept
    rcases Bool.or_eq_true _ _ ▸ hkept with hstored | hhandles
    · exact (stored_pos hstored).trans_le (Nat.le_add_right _ _)
    · have hne : p.handles k ≠ 0 := by simpa using hhandles
      exact (Nat.pos_of_ne_zero hne).trans_le (Nat.le_add_left _ _)
  · rw [isUp_abort_self] at hup
    cases hup

theorem reachable_letGo (h : Reachable p k) (hj : only k j ≤ p.handles k) :
    Reachable (p.letGo j) k := by
  by_cases hjk : j = k
  · subst hjk
    exact reachable_reap (p.unhold j) j
  · refine h.of_le (isUp_letGo_ne hjk) ?_
    have hhandles := handles_letGo hj
    rw [only, if_neg hjk, Nat.add_zero] at hhandles
    rw [references, references, hhandles,
      pooled_congr (letGo_inner p j) (letGo_secondary p j)]

theorem isUp_letGo_self_of_down (h : isUp p k = false) (j : ConnId) :
    isUp (p.letGo j) k = false := by
  by_cases hjk : j = k
  · subst hjk
    rw [letGo, reap]
    split
    · rwa [isUp_unhold]
    · exact isUp_abort_self _ _
  · rwa [isUp_letGo_ne hjk]

theorem isUp_abort_of_down (h : isUp p k = false) (j : ConnId) : isUp (p.abort j) k = false := by
  by_cases hjk : j = k
  · rw [hjk]
    exact isUp_abort_self p k
  · rwa [isUp_abort hjk]

/-- What is aborted is down. -/
theorem isUp_abortAll_of_mem (h : k ∈ ks ∨ isUp p k = false) : isUp (p.abortAll ks) k = false := by
  induction ks generalizing p with
  | nil => exact h.resolve_left List.not_mem_nil
  | cons j ks ih =>
    have hall : p.abortAll (j :: ks) = ((p.abort j).letGo j).abortAll ks := rfl
    rw [hall]
    apply ih
    rcases h with h | h
    · rcases List.mem_cons.mp h with rfl | h
      · exact .inr (isUp_letGo_self_of_down (isUp_abort_self p k) k)
      · exact .inl h
    · exact .inr (isUp_letGo_self_of_down (isUp_abort_of_down h j) j)

theorem reachable_abortAll (h : Reachable p k) (hks : (ks.map (only k)).sum ≤ p.handles k) :
    Reachable (p.abortAll ks) k := by
  by_cases hk : k ∈ ks
  · intro hup
    rw [isUp_abortAll_of_mem (.inl hk)] at hup
    cases hup
  · refine h.of_le (isUp_abortAll hk) ?_
    have hzero : (ks.map (only k)).sum = 0 := by
      apply sum_map_eq_zero
      intro j hj
      exact if_neg fun hjk => hk (by rwa [hjk] at hj)
    have hhandles := handles_abortAll hks
    rw [hzero, Nat.add_zero] at hhandles
    rw [references, references, hhandles,
      pooled_congr (abortAll_inner p ks) (abortAll_secondary p ks)]

theorem reachable_assignLease (h : Reachable p k) (s : SessionId) :
    Reachable (p.assignLease s j) k := by
  have hpooled := pooled_assignLease (ω := only k) p s j
  unfold replaced at hpooled
  cases hl : p.inner.leased.lookup s with
  | none =>
    simp only [hl] at hpooled
    refine h.of_le ?_ ?_
    · rw [assignLease, hl]
      rfl
    · rw [references, references, handles_assignLease]
      omega
  | some old =>
    by_cases hold : old = k
    · subst hold
      rw [assignLease, hl]
      exact reachable_reap _ old
    · have hzero : only k old = 0 := if_neg hold
      simp only [hl, hzero, Nat.add_zero] at hpooled
      refine h.of_le ?_ ?_
      · simp only [assignLease, hl]
        unfold reap
        split
        · rfl
        · exact isUp_abort hold
      · rw [references, references, handles_assignLease]
        omega

/-- A section that leaves the wire alone and moves no reference out of sight. -/
theorem Followed.reachable (h : Followed p t p' t') (hk : Reachable p k)
    (hup : isUp p' k = isUp p k)
    (hmoved : pooled (only k) p + arcs (only k) t ≤ pooled (only k) p' + arcs (only k) t') :
    Reachable p' k := by
  refine hk.of_le hup ?_
  have hhandles := h.handles k
  rw [references, references]
  omega

theorem transition_reachable (h : Transition g cfg p e t p' t') (hborn : Born p)
    (hle : arcs (only k) t ≤ p.handles k) (hall : ∀ k, arcs (only k) t ≤ p.handles k)
    (hk : Reachable p k) : Reachable p' k := by
  have hfollowed := transition_followed h hborn hall
  cases h with
  | popped h =>
    obtain ⟨entry, -, rfl, rfl⟩ := popIdle_some h
    refine Followed.reachable hfollowed hk (isUp_hold _ _ _) ?_
    have hw := (pooled_popIdle (ω := only k) h).1
    simp only [arcs]
    omega
  | assigned => exact reachable_assignLease hk _
  | @opened s use | @browserOpened database =>
    by_cases hnew : k = p.conns.length
    · refine .held ?_
      have hadd := handles_add p k
      rw [hnew, only_self] at hadd
      rw [hnew, hadd]
      omega
    · refine Followed.reachable hfollowed hk ?_ (Nat.le_add_right _ _)
      rw [isUp_add, if_neg hnew]
  | @returned s j call r log =>
    have hkept : Reachable (p.setLocked j false) k := by
      refine hk.of_le ?_ ?_
      · exact isUp_setLocked p j false k
      · rw [references, references, handles_setLocked]
        exact le_refl _
    exact reachable_letGo hkept (by rw [handles_setLocked]; exact hle)
  | cancelled | browsed => exact reachable_letGo hk hle
  | @taken s j h =>
    refine Followed.reachable hfollowed hk (isUp_hold _ _ _) ?_
    have hw := pooled_releaseTake (ω := only k) h
    simp only [arcs]
    omega
  | @pushed s j =>
    refine Followed.reachable hfollowed hk (isUp_unhold _ _ _) ?_
    have hw := pooled_returned (ω := only k) p e.now j
    simp only [arcs]
    omega
  | @browserHit database entry h =>
    refine Followed.reachable hfollowed hk (isUp_hold _ _ _) ?_
    rw [pooled_touchSecondary h]
    exact Nat.le_add_right _ _
  | @raced database own entry h =>
    refine Followed.reachable hfollowed hk (isUp_hold _ _ _) ?_
    rw [pooled_touchSecondary h]
    simp only [arcs]
    omega
  | @inserted database own h =>
    refine Followed.reachable hfollowed hk rfl ?_
    rw [pooled_storeSecondary h]
    exact Nat.le_add_right _ _
  | @duplicateDropped own existing =>
    have hslot : Reachable p.releaseConnectionSlot k := hk.of_le rfl (le_refl _)
    refine reachable_letGo hslot ?_
    simp only [arcs] at hle
    exact (Nat.le_add_right _ _).trans hle
  | @idleEvicted now =>
    refine Followed.reachable hfollowed hk (isUp_holdAll _ _ _) ?_
    have hw := (pooled_evictIdle (ω := only k) cfg p now).1
    simp only [arcs]
    omega
  | @noSecondary now hnone =>
    refine Followed.reachable hfollowed hk (isUp_holdAll _ _ _) ?_
    have hw := (pooled_evictSecondary (ω := only k) cfg p now).1
    rw [hnone] at hw
    simp only [List.map_nil, List.sum_nil] at hw
    simp only [arcs]
    omega
  | @secondaryEvicted now =>
    refine Followed.reachable hfollowed hk (isUp_holdAll _ _ _) ?_
    have hw := (pooled_evictSecondary (ω := only k) cfg p now).1
    simp only [arcs]
    omega
  | innerDrained =>
    refine Followed.reachable hfollowed hk (isUp_holdAll _ _ _) ?_
    have hw := pooled_drainInner (only k) p
    simp only [arcs]
    omega
  | @secondaryDrained ks =>
    refine Followed.reachable hfollowed hk (isUp_holdAll _ _ _) ?_
    have hw := pooled_drainSecondary (only k) p
    simp only [arcs, List.map_append, List.sum_append]
    omega
  | idleAborted | secondaryAborted | shutDown => exact reachable_abortAll hk hle
  | leaseHit | found | cancelHit =>
    exact Followed.reachable hfollowed hk (isUp_hold _ _ _)
      (Nat.add_le_add_left (Nat.zero_le _) _)
  | @served s j call q f log pc h =>
    by_cases hjk : j = k
    · subst hjk
      refine .held ?_
      have hone : arcs (only j) (.running s j call (.ask q f) log) = 1 := only_self j
      rw [hone] at hle
      rw [handles_setConn]
      exact hle
    · refine hk.of_le ?_ ?_
      · simp [isUp, setConn, hjk]
      · rw [references, references, handles_setConn]
        exact le_refl _
  | @cleaned s j q f pc h =>
    by_cases hjk : j = k
    · subst hjk
      refine .held ?_
      have hone : arcs (only j) (.releasing s j (.ask q f)) = 1 := only_self j
      rw [hone] at hle
      rw [handles_setConn]
      exact hle
    · refine hk.of_le ?_ ?_
      · simp [isUp, setConn, hjk]
      · rw [references, references, handles_setConn]
        exact le_refl _
  | locked | releaseLocked | released =>
    refine hk.of_le (isUp_setLocked p _ _ k) ?_
    rw [references, references, handles_setLocked]
    exact le_refl _
  | reserved h | browserReserved h =>
    obtain ⟨-, rfl⟩ := reserveConnectionSlot_ok h
    exact hk.of_le rfl (le_refl _)
  | _ => exact hk.of_le rfl (le_refl _)

theorem reachable_connect (now : ℕ) (k : ConnId) : Reachable (connect now).shared k := by
  intro hup
  cases k with
  | zero => simp [references, connect, pooled, only]
  | succ k => simp [isUp, connect] at hup

theorem run_reachable (hr : (system g cfg).run (connect now) as = some d) :
    Counted d ∧ ∀ k, Reachable d.shared k := by
  refine run_always (fun c => Counted c ∧ ∀ k, Reachable c.shared k)
    (fun c a c' hc hact => ⟨act_counted hc.1 hact, ?_⟩)
    ⟨counted_connect now, reachable_connect now⟩ hr
  rcases act_cases hact with ⟨t, rfl, -, rfl⟩ | ⟨i, e, t, p', t', rfl, hi, hs, rfl⟩
  · exact hc.2
  · intro k
    have hall (k : ConnId) : arcs (only k) t ≤ c.shared.handles k := by
      rw [hc.1.handles]
      exact le_sum_map (arcs (only k)) hi
    exact transition_reachable (step_transition hs) hc.1.born (hall k) hall (hc.2 k)

/-- `Drop for PgPool`. Nothing else has the locks when the last `Arc` of the pool goes. -/
def dropPool (p : Pool) : Pool :=
  let r := p.drainInner
  let q := r.1.abortAll r.2
  let s := q.drainSecondary
  s.1.abortAll s.2

theorem arcs_done (ω : ConnId → ℕ) (ht : t.done = true) : arcs ω t = 0 := by
  cases t <;> first | rfl | cases ht

theorem pooled_pos_stored (h : 0 < pooled (only k) p) : p.isStored k = true := by
  by_contra hnot
  rw [pooled_of_not_stored (by simpa using hnot)] at h
  exact Nat.lt_irrefl 0 h

theorem isUp_drainInner (p : Pool) (k : ConnId) : isUp p.drainInner.1 k = isUp p k := by
  rw [drainInner, isUp_holdAll]
  rfl

theorem isUp_drainSecondary (p : Pool) (k : ConnId) : isUp p.drainSecondary.1 k = isUp p k := by
  rw [drainSecondary, isUp_holdAll]
  rfl

/-- What is open in a pool is in one of the lists that are aborted, if it is stored at all. -/
theorem dropPool_down (h : isUp p k = true → p.isStored k = true) : isUp (dropPool p) k = false := by
  let q := p.drainInner.1.abortAll p.drainInner.2
  have hsecondary : q.secondaryBrowsers = p.secondaryBrowsers := by
    simp [q, drainInner]
  refine isUp_abortAll_of_mem ?_
  rw [isUp_drainSecondary]
  cases hup : isUp p k with
  | false =>
    refine .inr (isUp_abortAll_of_mem (.inr ?_))
    rw [isUp_drainInner, hup]
  | true =>
    have hstored := h hup
    simp only [isStored, Bool.or_eq_true, List.any_eq_true, beq_iff_eq] at hstored
    obtain (⟨e, he, rfl⟩ | ⟨e, he, rfl⟩) | ⟨e, he, rfl⟩ := hstored
    · refine .inr (isUp_abortAll_of_mem (.inl ?_))
      exact List.mem_append_left _ (List.mem_map_of_mem he)
    · refine .inr (isUp_abortAll_of_mem (.inl ?_))
      exact List.mem_append_right _ (List.mem_map_of_mem (f := fun e => e.2) he)
    · refine .inl ?_
      have hmem : e ∈ q.secondaryBrowsers.entries := by rw [hsecondary]; exact he
      exact List.mem_map_of_mem (f := fun e => e.2.conn) hmem

/-- In every run, with any races of leases, evictions and shutdowns, an open connection is stored
in the pool or named by an operation in flight; so once no operation is in flight, dropping the
pool closes every connection that was ever opened. -/
theorem wires_owned (g : PostgresWire.Grammar) (cfg : PgConfig) (now : ℕ)
    (as : List (Action Task Event)) (d : Config Pool Task)
    (hr : (system g cfg).run (connect now) as = some d) :
    (∀ k, isUp d.shared k = true → d.shared.isStored k = true ∨
      ∃ t ∈ d.tasks, 0 < arcs (only k) t) ∧
    ((∀ t ∈ d.tasks, t.done = true) → ∀ k, isUp (dropPool d.shared) k = false) := by
  obtain ⟨hcounted, hreachable⟩ := run_reachable hr
  have hnamed (k : ConnId) (hup : isUp d.shared k = true) : d.shared.isStored k = true ∨
      ∃ t ∈ d.tasks, 0 < arcs (only k) t := by
    have hrefs := hreachable k hup
    rw [references, hcounted.handles] at hrefs
    by_cases hpooled : 0 < pooled (only k) d.shared
    · exact .inl (pooled_pos_stored hpooled)
    · refine .inr ?_
      have hsum : 0 < (d.tasks.map (arcs (only k))).sum := by omega
      by_contra hnone
      push Not at hnone
      rw [sum_map_eq_zero _ fun t ht => Nat.le_zero.mp (hnone t ht)] at hsum
      exact Nat.lt_irrefl 0 hsum
  refine ⟨hnamed, fun hdone k => dropPool_down fun hup => (hnamed k hup).resolve_right ?_⟩
  rintro ⟨t, ht, hpos⟩
  rw [arcs_done _ (hdone t ht)] at hpos
  exact Nat.lt_irrefl 0 hpos

/-- A lease of a browser is stored after a shutdown has drained the pool. -/
def leasedPastShutdown : List (Action Task Event) :=
  browse :: sections [0, 0] ++ .spawn .shutdownInner :: sections [1, 1, 1, 0, 0]

theorem wires_owned_leasedPastShutdown :
    ∃ d, (system smallServer defaultPool).run (connect 0) leasedPastShutdown = some d ∧
      isUp d.shared 0 = true ∧ ∀ k, isUp (dropPool d.shared) k = false := by
  have hrun : ∃ d, (system smallServer defaultPool).run (connect 0) leasedPastShutdown = some d ∧
      isUp d.shared 0 = true ∧ ∀ t ∈ d.tasks, t.done = true := run_decided (by decide +kernel)
  obtain ⟨d, hd, hup, hdone⟩ := hrun
  exact ⟨d, hd, hup, (wires_owned smallServer defaultPool 0 leasedPastShutdown d hd).2 hdone⟩

end SshCommander.OpenWires
