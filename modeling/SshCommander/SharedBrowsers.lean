import SshCommander.PoolHandles

/-!
# Connections shared by browser operations

While databases are browsed and the eviction loop runs, a connection that is registered for a
database is given to every operation that asks for it. An operation that still has it is counted
by its `Arc`, so the eviction leaves it in the map and on its wire.
-/

namespace SshCommander.SharedBrowsers
open InterleavedTasks InterleavedTasks.TaskSystem MapWeights ConnectionPool ConnectionPool.Pool
  PooledConnection PoolLedger PoolAccounting ConnectionOwnership PoolHandles SessionCalls

variable {g : PostgresWire.Grammar} {cfg : PgConfig} {c c' d : Config Pool Task}
  {a : Action Task Event} {p p' : Pool} {t t' : Task} {e : Event} {j k : ConnId} {ks : List ConnId}

def browserTask : Task → Bool
  | .leaseFast _ use | .leasePop _ use | .leaseCheck _ use | .leaseReserve _ use
  | .leaseOpening _ use | .leaseAssign _ use _ =>
    match use with
    | .browse => true
    | .call _ => false
  | .browserCached _ | .browserReserve _ | .browserOpening _ | .browserStore .. |
    .browserDuplicate .. | .browsing _ | .slotRollBack _ | .evict | .evictIdle _ | .evictAbort .. |
    .evictSecondary _ | .evictSecondaryTotal _ | .evictSecondaryAbort _ | .failed _ | .finished =>
    true
  | _ => false

/-- The connection that a caller was given, or is about to be. -/
def given : Task → Option ConnId
  | .browsing k | .browserDuplicate _ k => some k
  | _ => none

/-- The weight of a connection that only this operation has: taken from idle or opened. -/
def owned (ω : ConnId → ℕ) : Task → ℕ
  | .leaseAssign _ _ k | .browserStore _ k | .browserDuplicate k _ => ω k
  | _ => 0

def used (ω : ConnId → ℕ) (t : Task) : ℕ := ((given t).map ω).getD 0

theorem used_eq (ω : ConnId → ℕ) (t : Task) :
    used ω t = match given t with
      | some k => ω k
      | none => 0 := by
  rw [used]
  cases given t <;> rfl

def evicted (ω : ConnId → ℕ) : Task → ℕ
  | .evictAbort _ ks | .evictSecondaryTotal ks | .evictSecondaryAbort ks => (ks.map ω).sum
  | _ => 0

theorem arcs_browserTask (ω : ConnId → ℕ) (h : browserTask t = true) :
    arcs ω t = owned ω t + used ω t + evicted ω t := by
  cases t with
  | browserDuplicate own existing =>
    simp only [arcs, owned, used_eq, given, evicted, Nat.add_zero]
  | leaseAssign | browserStore | browsing | evictAbort | evictSecondaryTotal
  | evictSecondaryAbort =>
    simp only [arcs, owned, used_eq, given, evicted, Nat.zero_add, Nat.add_zero]
  | waiting | running | cancelling | releaseWaiting | releasing | returning | shutdownSecondary
  | shutdownAbort => cases h
  | _ => rfl

def isUp (p : Pool) (k : ConnId) : Bool := p.conns[k]?.any (·.conn.wire.up)

theorem isUp_of_conns (h : p'.conns = p.conns) (k : ConnId) : isUp p' k = isUp p k := by
  rw [isUp, isUp, h]

theorem isUp_modify {f : PooledConnection → PooledConnection}
    (hp : p'.conns = p.conns.modify j f) (hf : ∀ pc, (f pc).conn = pc.conn) (k : ConnId) :
    isUp p' k = isUp p k := by
  rw [isUp, isUp, hp, List.getElem?_modify]
  cases p.conns[k]? with
  | none => rfl
  | some pc =>
    by_cases hjk : j = k
    · simp [hjk, hf]
    · simp [hjk]

theorem isUp_abort (h : j ≠ k) : isUp (p.abort j) k = isUp p k := by
  rw [isUp, isUp, abort, List.getElem?_modify]
  cases p.conns[k]? <;> simp [h]

@[simp] theorem isUp_hold (p : Pool) (j k : ConnId) : isUp (p.hold j) k = isUp p k := by
  apply isUp_modify
  · exact rfl
  · exact fun _ => rfl

@[simp] theorem isUp_unhold (p : Pool) (j k : ConnId) : isUp (p.unhold j) k = isUp p k := by
  apply isUp_modify
  · exact rfl
  · exact fun _ => rfl

@[simp] theorem isUp_holdAll (p : Pool) (ks : List ConnId) (k : ConnId) :
    isUp (p.holdAll ks) k = isUp p k := by
  unfold holdAll
  induction ks generalizing p with
  | nil => rfl
  | cons j ks ih => simp [ih]

/-- The last `Arc` takes the wire of a connection that is not stored, and no other. -/
theorem isUp_reap (p : Pool) (j k : ConnId) : isUp (p.reap j) k = isUp p k ∨
    p.isStored k = false ∧ p.handles k = 0 := by
  unfold reap
  split
  · exact .inl rfl
  · rename_i hnot
    by_cases hjk : j = k
    · subst hjk
      exact .inr (by simpa using hnot)
    · exact .inl (isUp_abort hjk)

theorem isUp_letGo_ne (h : j ≠ k) : isUp (p.letGo j) k = isUp p k := by
  rw [letGo, reap]
  split
  · exact isUp_unhold p j k
  · rw [isUp_abort h, isUp_unhold]

theorem isUp_abortAll (h : k ∉ ks) : isUp (p.abortAll ks) k = isUp p k := by
  unfold abortAll
  induction ks generalizing p with
  | nil => rfl
  | cons j ks ih =>
    obtain ⟨hne, hks⟩ := not_or.mp (List.mem_cons.not.mp h)
    rw [List.foldl_cons, ih hks, isUp_letGo_ne (Ne.symm hne), isUp_abort (Ne.symm hne)]

theorem sum_only_eq_zero {α : Type} {xs : List α} {f : α → ConnId}
    (h : xs.any (f · == k) = false) : (xs.map fun x => only k (f x)).sum = 0 := by
  apply sum_map_eq_zero
  intro x hx
  have hne : ¬f x = k := by simpa using List.any_eq_false.mp h x hx
  exact if_neg hne

theorem pooled_of_not_stored (h : p.isStored k = false) : pooled (only k) p = 0 := by
  simp only [isStored, Bool.or_eq_false_iff] at h
  obtain ⟨⟨hidle, hleased⟩, hsecondary⟩ := h
  rw [pooled, weigh, weigh, sum_only_eq_zero hidle, sum_only_eq_zero hleased,
    sum_only_eq_zero hsecondary]

/-- An `Arc` that is let go takes the wire only of a connection that nothing else has. -/
theorem isUp_letGo (p : Pool) (j k : ConnId) : isUp (p.letGo j) k = isUp p k ∨
    pooled (only k) (p.letGo j) = 0 ∧ (p.letGo j).handles k = 0 := by
  rcases isUp_reap (p.unhold j) j k with hup | ⟨hstored, hhandles⟩
  · exact .inl (hup.trans (isUp_unhold p j k))
  · refine .inr ⟨?_, ?_⟩
    · rw [pooled_congr (letGo_inner p j) (letGo_secondary p j)]
      exact pooled_of_not_stored hstored
    · rw [letGo, handles_reap, hhandles]

theorem isUp_assignLease (p : Pool) (s : SessionId) (j k : ConnId) :
    isUp (p.assignLease s j) k = isUp p k ∨
      pooled (only k) (p.assignLease s j) = 0 ∧ (p.assignLease s j).handles k = 0 := by
  unfold assignLease
  cases p.inner.leased.lookup s with
  | none => exact .inl rfl
  | some old =>
    rcases isUp_reap (p.setLeased (p.inner.leased.insert s j)) old k with
      hup | ⟨hstored, hhandles⟩
    · exact .inl hup
    · refine .inr ⟨?_, ?_⟩
      · rw [pooled_congr (reap_inner _ _) (reap_secondary _ _)]
        exact pooled_of_not_stored hstored
      · rw [handles_reap, hhandles]

theorem isUp_add (p : Pool) (k : ConnId) :
    isUp p.add.1 k = if k = p.conns.length then true else isUp p k := by
  rw [isUp, isUp, Pool.add]
  split
  · rename_i hk
    subst hk
    simp [Conn.fresh, PostgresWire.Wire.fresh]
  · rename_i hk
    rcases Nat.lt_or_gt_of_ne hk with hlt | hgt
    · rw [List.getElem?_append_left hlt]
    · rw [List.getElem?_eq_none (by simp; omega), List.getElem?_eq_none hgt.le]

def idling (ω : ConnId → ℕ) (p : Pool) : ℕ := (p.inner.idle.map (ω ·.conn)).sum

theorem idling_le (ω : ConnId → ℕ) (p : Pool) : idling ω p ≤ pooled ω p := by
  simp only [idling, pooled]
  omega

theorem idling_lease {s : SessionId} (h : p.inner.leased.lookup s = some j) (ω : ConnId → ℕ) :
    idling ω p + ω j ≤ pooled ω p := by
  have hw := le_weigh (w := ω) h
  simp only [idling, pooled]
  omega

theorem idling_secondary {database : RustText.Text} {entry : SecondaryBrowserEntry}
    (h : p.secondaryBrowsers.lookup database = some entry) (ω : ConnId → ℕ) :
    idling ω p + ω entry.conn ≤ pooled ω p := by
  have hw := le_weigh (w := fun e : SecondaryBrowserEntry => ω e.conn) h
  simp only [idling, pooled]
  omega

/-- Where a connection is that operations own `o` times, were given `u` times and have taken out
to evict it `x` times. -/
structure Tidy (p : Pool) (k : ConnId) (o u x : ℕ) : Prop where
  once : pooled (only k) p + o + x ≤ 1
  apart : 1 ≤ idling (only k) p + x → u = 0
  alive : 1 ≤ pooled (only k) p + o + u → isUp p k = true

variable {o o' u u' x x' : ℕ}

theorem Tidy.same (h : Tidy p k o u x) (hp : pooled (only k) p' = pooled (only k) p)
    (hi : idling (only k) p' = idling (only k) p) (hup : isUp p' k = isUp p k) :
    Tidy p' k o u x :=
  ⟨hp ▸ h.once, hi ▸ h.apart, hp ▸ hup ▸ h.alive⟩

/-- Another operation is given a connection that is stored and not idle. -/
theorem Tidy.share (h : Tidy p k o u x) (hp : pooled (only k) p' = pooled (only k) p)
    (hi : idling (only k) p' = idling (only k) p) (hup : isUp p' k = isUp p k)
    (hj : idling (only k) p + only k j ≤ pooled (only k) p) : Tidy p' k o (only k j + u) x := by
  have honce := h.once
  refine ⟨hp ▸ honce, fun hout => ?_, fun hin => ?_⟩
  · rw [hi] at hout
    have hu := h.apart hout
    omega
  · rw [hup]
    apply h.alive
    omega

/-- A connection comes back to the pool, and its operation goes on with it. -/
theorem Tidy.store (h : Tidy p k (only k j + o) u x)
    (hp : pooled (only k) p' ≤ pooled (only k) p + only k j)
    (hi : idling (only k) p' = idling (only k) p)
    (hup : isUp p' k = isUp p k ∨ pooled (only k) p' + o + (only k j + u) = 0) :
    Tidy p' k o (only k j + u) x := by
  have honce := h.once
  have hidle := idling_le (only k) p
  refine ⟨by omega, fun hout => ?_, fun hin => ?_⟩
  · rw [hi] at hout
    have hu := h.apart hout
    omega
  · rcases hup with hup | hup
    · rw [hup]
      apply h.alive
      omega
    · omega

/-- An operation gives up what it owned or was given. -/
theorem Tidy.giveUp (h : Tidy p k o u x) (hi : p'.inner.idle = p.inner.idle)
    (hp : pooled (only k) p' = pooled (only k) p) (ho : o' ≤ o) (hu : u' ≤ u)
    (hup : isUp p' k = isUp p k ∨ pooled (only k) p' + o' + u' = 0) : Tidy p' k o' u' x := by
  have honce := h.once
  have hidle : idling (only k) p' = idling (only k) p := by rw [idling, idling, hi]
  refine ⟨by omega, fun hout => ?_, fun hin => ?_⟩
  · rw [hidle] at hout
    have hu := h.apart hout
    omega
  · rcases hup with hup | hup
    · rw [hup]
      apply h.alive
      omega
    · omega

/-- An eviction takes a connection out that no operation was given. -/
theorem Tidy.evict {n : ℕ} (h : Tidy p k o u x) (hp : pooled (only k) p' + n = pooled (only k) p)
    (hup : isUp p' k = isUp p k)
    (hn : 1 ≤ idling (only k) p' + n → 1 ≤ idling (only k) p ∨ u = 0) :
    Tidy p' k o u (n + x) := by
  have honce := h.once
  refine ⟨by omega, fun hout => ?_, fun hin => ?_⟩
  · by_cases hx : 1 ≤ x
    · exact h.apart (by omega)
    · rcases hn (by omega) with hidle | hu
      · exact h.apart (by omega)
      · exact hu
  · rw [hup]
    apply h.alive
    omega

theorem Tidy.abort (h : Tidy p k o u ((ks.map (only k)).sum + x)) :
    Tidy (p.abortAll ks) k o u x := by
  have honce := h.once
  have hp : pooled (only k) (p.abortAll ks) = pooled (only k) p :=
    pooled_congr (abortAll_inner p ks) (abortAll_secondary p ks)
  have hidle : idling (only k) (p.abortAll ks) = idling (only k) p := by
    rw [idling, idling, abortAll_inner]
  refine ⟨by omega, fun hout => ?_, fun hin => ?_⟩
  · rw [hidle] at hout
    exact h.apart (by omega)
  · rw [hp] at hin
    by_cases hk : k ∈ ks
    · have hle := le_sum_of_mem (ω := only k) hk
      rw [only_self] at hle
      have hu := h.apart (by omega)
      omega
    · rw [isUp_abortAll hk]
      exact h.alive hin

/-- What is on its way out of the map had no `Arc` but the map's. -/
theorem handles_evicted {now : ℕ} (h : k ∈ (p.evictSecondary cfg now).2) : p.handles k = 0 := by
  obtain ⟨entry, hentry, rfl⟩ := List.mem_map.mp h
  have hcond := (List.mem_filter.mp hentry).2
  simp only [Bool.and_eq_true, beq_iff_eq] at hcond
  exact hcond.2

theorem sum_only_pos (h : 1 ≤ (ks.map (only k)).sum) : k ∈ ks := by
  by_contra hk
  have hzero : (ks.map (only k)).sum = 0 := by
    apply sum_map_eq_zero
    intro j hj
    have hne : ¬j = k := fun heq => hk (heq ▸ hj)
    exact if_neg hne
  omega

theorem idling_evictIdle (ω : ConnId → ℕ) (cfg : PgConfig) (p : Pool) (now : ℕ) :
    idling ω (p.evictIdle cfg now).1 + ((p.evictIdle cfg now).2.map ω).sum = idling ω p := by
  have h := evictLoop_sum (ω := ω) cfg now p.inner.idle [] []
  simp only [List.map_nil, List.sum_nil, Nat.add_zero] at h
  simp only [Pool.evictIdle, idling, holdAll_inner, setTotal, setIdle]
  exact h

theorem transition_browserTask (h : Transition g cfg p e t p' t') (ht : browserTask t = true) :
    browserTask t' = true := by
  cases h with
  | @leaseHit s use k hl | @assigned s use k =>
    cases use with
    | call call => cases ht
    | browse => rfl
  | leaseMiss | popped | noneIdle | room | reserved | opened => exact ht
  | found | noSession | nothingToClose | locked | served | returned | cancelHit | cancelMiss
  | cancelled | taken | nothingToTake | releaseLocked | cleaned | released | pushed | innerDrained
  | secondaryDrained | shutDown => cases ht
  | _ => rfl

/-- A section keeps every connection in its place, whatever the other operations have of it. -/
theorem transition_tidy (h : Transition g cfg p e t p' t') (ht : browserTask t = true)
    (hborn : Born p)
    (hk : p.handles k = owned (only k) t + o + (used (only k) t + u) + (evicted (only k) t + x))
    (hk' : p'.handles k =
      owned (only k) t' + o + (used (only k) t' + u) + (evicted (only k) t' + x))
    (htidy : Tidy p k (owned (only k) t + o) (used (only k) t + u) (evicted (only k) t + x)) :
    Tidy p' k (owned (only k) t' + o) (used (only k) t' + u) (evicted (only k) t' + x) := by
  have honce := htidy.once
  cases h with
  | @leaseHit s use j hl =>
    cases use with
    | call call => cases ht
    | browse =>
      simp only [owned, used_eq, given, evicted, Purpose.next, Nat.zero_add] at htidy ⊢
      exact htidy.share rfl rfl (isUp_hold p j k) (idling_lease hl (only k))
  | @popped s use p' j hp =>
    obtain ⟨entry, hidle, rfl, rfl⟩ := popIdle_some hp
    have hw := (pooled_popIdle (ω := only k) hp).1
    have hi : idling (only k) ((p.setIdle p.inner.idle.dropLast).hold entry.conn) +
        only k entry.conn = idling (only k) p := by
      conv_rhs => rw [idling, hidle, List.map_append, List.sum_append]
      rfl
    simp only [owned, used_eq, given, evicted, Nat.zero_add] at htidy honce ⊢
    refine ⟨by omega, fun hout => htidy.apart (by omega), fun hin => ?_⟩
    have hup : isUp (p.setIdle p.inner.idle.dropLast) k = isUp p k := isUp_of_conns rfl k
    rw [isUp_hold, hup]
    exact htidy.alive (by omega)
  | reserved hr | browserReserved hr =>
    obtain ⟨-, rfl⟩ := reserveConnectionSlot_ok hr
    exact htidy.same rfl rfl rfl
  | opened | browserOpened =>
    simp only [owned, used_eq, given, evicted, Nat.zero_add] at htidy hk ⊢
    by_cases hnew : k = p.conns.length
    · have hnone := handles_unborn hnew.ge
      have hpool : pooled (only k) p.add.1 = 0 := hborn k hnew.ge
      have hidle := idling_le (only k) p.add.1
      have hone : only k p.add.2 = 1 := if_pos hnew.symm
      refine ⟨by omega, fun _ => by omega, fun _ => ?_⟩
      rw [isUp_add, if_pos hnew]
    · have hzero : only k p.add.2 = 0 := if_neg (Ne.symm hnew)
      rw [hzero, Nat.zero_add]
      refine htidy.same rfl rfl ?_
      rw [isUp_add, if_neg hnew]
  | @assigned s use j =>
    cases use with
    | call call => cases ht
    | browse =>
      have hw := pooled_assignLease (ω := only k) p s j
      have hi : idling (only k) (p.assignLease s j) = idling (only k) p := by
        rw [idling, idling, assignLease_idle]
      simp only [owned, used_eq, given, evicted, Purpose.next, Nat.zero_add] at htidy hk' ⊢
      refine htidy.store (by omega) hi ?_
      rcases isUp_assignLease p s j k with hup | ⟨hnone, hhandles⟩
      · exact .inl hup
      · exact .inr (by omega)
  | @browserHit database entry hl | @raced database own entry hl =>
    simp only [owned, used_eq, given, evicted, Nat.zero_add] at htidy ⊢
    exact htidy.share (pooled_touchSecondary hl e.now) rfl
      ((isUp_hold _ _ k).trans (isUp_of_conns rfl k)) (idling_secondary hl (only k))
  | @inserted database j hl =>
    simp only [owned, used_eq, given, evicted, Nat.zero_add] at htidy ⊢
    exact htidy.store (pooled_storeSecondary hl e.now j).le rfl (.inl (isUp_of_conns rfl k))
  | @duplicateDropped own existing =>
    simp only [owned, used_eq, given, evicted, Nat.zero_add] at htidy hk' ⊢
    refine htidy.giveUp (by rw [letGo_inner]; rfl) ?_ (Nat.le_add_left _ _) le_rfl ?_
    · exact pooled_congr (p := p.releaseConnectionSlot) (letGo_inner _ _) (letGo_secondary _ _)
    · rcases isUp_letGo p.releaseConnectionSlot own k with hup | ⟨hnone, hhandles⟩
      · exact .inl hup
      · exact .inr (by omega)
  | @browsed j =>
    simp only [owned, used_eq, given, evicted, Nat.zero_add] at htidy hk' ⊢
    refine htidy.giveUp (by rw [letGo_inner]) ?_ le_rfl (Nat.le_add_left _ _) ?_
    · exact pooled_congr (letGo_inner _ _) (letGo_secondary _ _)
    · rcases isUp_letGo p j k with hup | ⟨hnone, hhandles⟩
      · exact .inl hup
      · exact .inr (by omega)
  | @idleEvicted now =>
    simp only [owned, used_eq, given, evicted, Nat.zero_add] at htidy ⊢
    refine htidy.evict (pooled_evictIdle cfg p now).1 ?_ fun hn => .inl ?_
    · exact (isUp_holdAll _ _ k).trans (isUp_of_conns rfl k)
    · rwa [idling_evictIdle] at hn
  | @noSecondary now hnone =>
    have hw := (pooled_evictSecondary (ω := only k) cfg p now).1
    rw [hnone] at hw
    refine htidy.same hw ?_ ((isUp_holdAll _ _ k).trans (isUp_of_conns rfl k))
    rw [idling, idling, evictSecondary_inner]
  | @secondaryEvicted now hsome =>
    simp only [owned, used_eq, given, evicted, Nat.zero_add] at htidy hk ⊢
    refine htidy.evict (pooled_evictSecondary cfg p now).1 ?_ fun hn => ?_
    · exact (isUp_holdAll _ _ k).trans (isUp_of_conns rfl k)
    · rw [idling, evictSecondary_inner, ← idling] at hn
      by_cases hout : 1 ≤ ((p.evictSecondary cfg now).2.map (only k)).sum
      · have hnone := handles_evicted (sum_only_pos hout)
        exact .inr (by omega)
      · exact .inl (by omega)
  | idleAborted | secondaryAborted =>
    simp only [owned, used_eq, given, evicted, Nat.zero_add] at htidy ⊢
    exact htidy.abort
  | found | noSession | nothingToClose | locked | served | returned | cancelHit | cancelMiss
  | cancelled | taken | nothingToTake | releaseLocked | cleaned | released | pushed | innerDrained
  | secondaryDrained | shutDown => cases ht
  | _ => exact htidy.same rfl rfl rfl

/-- Every connection is in its place: stored, or with the operations that have it. -/
structure InPlace (c : Config Pool Task) : Prop where
  counted : Counted c
  tidy : ∀ k, Tidy c.shared k (c.tasks.map (owned (only k))).sum (c.tasks.map (used (only k))).sum
    (c.tasks.map (evicted (only k))).sum
  browsers : ∀ t ∈ c.tasks, browserTask t = true

theorem sum_arcs {ts : List Task} (h : ∀ t ∈ ts, browserTask t = true) (ω : ConnId → ℕ) :
    (ts.map (arcs ω)).sum =
      (ts.map (owned ω)).sum + (ts.map (used ω)).sum + (ts.map (evicted ω)).sum := by
  rw [← List.sum_map_add, ← List.sum_map_add]
  exact congrArg List.sum (List.map_congr_left fun t ht => arcs_browserTask ω (h t ht))

theorem weights_starts (ω : ConnId → ℕ) (h : starts cfg t = true) :
    owned ω t = 0 ∧ used ω t = 0 ∧ evicted ω t = 0 := by
  cases t <;> first | exact ⟨rfl, rfl, rfl⟩ | cases h

theorem inPlace_connect (now : ℕ) : InPlace (connect now) := by
  refine ⟨counted_connect now, fun k => ?_, by simp [connect]⟩
  have hborn := (counted_connect now).born
  by_cases hk : k = 0
  · subst hk
    exact ⟨le_refl 1, fun _ => rfl, fun _ => rfl⟩
  · have hle : (connect now).shared.conns.length ≤ k := Nat.one_le_iff_ne_zero.mpr hk
    have hnone : pooled (only k) (connect now).shared = 0 := hborn k hle
    refine ⟨?_, fun _ => rfl, fun hin => ?_⟩
    · rw [hnone]
      exact Nat.zero_le 1
    · rw [hnone] at hin
      cases hin

theorem act_inPlace (h : InPlace c) (ha : ∀ t, a = .spawn t → browserTask t = true)
    (hact : (system g cfg).act c a = some c') : InPlace c' := by
  have hcounted := act_counted h.counted hact
  rcases act_cases hact with ⟨t, rfl, ht, rfl⟩ | ⟨i, e, t, p', t', rfl, hi, hs, rfl⟩
  · refine ⟨hcounted, fun k => ?_, fun u hu => ?_⟩
    · obtain ⟨howned, hused, hevicted⟩ := weights_starts (only k) ht
      simpa [howned, hused, hevicted] using h.tidy k
    · rcases List.mem_append.mp hu with hu | hu
      · exact h.browsers u hu
      · exact List.mem_singleton.mp hu ▸ ha t rfl
  · have htask := h.browsers t (List.mem_of_getElem? hi)
    have hstep : Transition g cfg c.shared e t p' t' := step_transition hs
    have hbrowsers : ∀ u ∈ c.tasks.set i t', browserTask u = true := by
      intro u hu
      rcases List.mem_or_eq_of_mem_set hu with hu | rfl
      · exact h.browsers u hu
      · exact transition_browserTask hstep htask
    refine ⟨hcounted, fun k => ?_, hbrowsers⟩
    obtain ⟨o, ho, ho'⟩ := sum_map_others (owned (only k)) hi
    obtain ⟨u, hu, hu'⟩ := sum_map_others (used (only k)) hi
    obtain ⟨x, hx, hx'⟩ := sum_map_others (evicted (only k)) hi
    have hk := h.counted.handles k
    have hk' := hcounted.handles k
    have htidy := h.tidy k
    rw [sum_arcs h.browsers, ho, hu, hx] at hk
    rw [sum_arcs hbrowsers, ho' t', hu' t', hx' t'] at hk'
    rw [ho, hu, hx] at htidy
    simp only [ho', hu', hx']
    exact transition_tidy hstep htask h.counted.born hk hk' htidy

theorem lookup_eraseMany {α β : Type} [DecidableEq α] {m : AList fun _ : α => β}
    {out : List (Sigma fun _ : α => β)} {b : α} (h : ∀ x ∈ out, x.1 ≠ b) :
    (out.foldl (fun m x => m.erase x.1) m).lookup b = m.lookup b := by
  induction out generalizing m with
  | nil => rfl
  | cons x out ih =>
    rw [List.foldl_cons, ih fun y hy => h y (List.mem_cons_of_mem x hy),
      AList.lookup_erase_ne (Ne.symm (h x List.mem_cons_self))]

/-- A registered connection that an operation has an `Arc` of stays registered. -/
theorem transition_registered {database : RustText.Text} {entry : SecondaryBrowserEntry}
    (h : Transition g cfg p e t p' t') (ht : browserTask t = true)
    (hl : p.secondaryBrowsers.lookup database = some entry) (hh : p.handles entry.conn ≠ 0) :
    ∃ entry', p'.secondaryBrowsers.lookup database = some entry' ∧ entry'.conn = entry.conn := by
  have touched {database' : RustText.Text} {entry' : SecondaryBrowserEntry}
      (hl' : p.secondaryBrowsers.lookup database' = some entry') :
      ∃ entry'', (p.secondaryBrowsers.insert database' ⟨e.now, entry'.conn⟩).lookup database =
        some entry'' ∧ entry''.conn = entry.conn := by
    by_cases heq : database = database'
    · subst heq
      obtain rfl := Option.some.inj (hl.symm.trans hl')
      exact ⟨_, AList.lookup_insert _, rfl⟩
    · exact ⟨entry, (AList.lookup_insert_ne heq).trans hl, rfl⟩
  have kept {now : ℕ} : (p.evictSecondary cfg now).1.secondaryBrowsers.lookup database =
      some entry := by
    rw [evictSecondary, holdAll_secondary, setSecondary_secondary, lookup_eraseMany, hl]
    rintro x hx rfl
    obtain ⟨hmem, hcond⟩ := List.mem_filter.mp hx
    obtain rfl := Option.some.inj ((lookup_of_mem hmem).symm.trans hl)
    simp only [Bool.and_eq_true, beq_iff_eq] at hcond
    exact hh hcond.2
  cases h with
  | reserved hr | browserReserved hr =>
    obtain ⟨-, rfl⟩ := reserveConnectionSlot_ok hr
    exact ⟨entry, hl, rfl⟩
  | popped hp =>
    obtain ⟨-, -, -, rfl⟩ := popIdle_some hp
    exact ⟨entry, hl, rfl⟩
  | assigned => exact ⟨entry, by rw [assignLease_secondary, hl], rfl⟩
  | browserHit hl' => exact touched hl'
  | raced hl' => exact touched hl'
  | @inserted database' j hnone =>
    have hne : database ≠ database' := by
      rintro rfl
      cases hl.symm.trans hnone
    exact ⟨entry, (AList.lookup_insert_ne hne).trans hl, rfl⟩
  | duplicateDropped => exact ⟨entry, by rw [letGo_secondary]; exact hl, rfl⟩
  | browsed => exact ⟨entry, by rw [letGo_secondary, hl], rfl⟩
  | idleEvicted => exact ⟨entry, by rw [Pool.evictIdle, holdAll_secondary]; exact hl, rfl⟩
  | noSecondary | secondaryEvicted => exact ⟨entry, kept, rfl⟩
  | idleAborted | secondaryAborted => exact ⟨entry, by rw [abortAll_secondary, hl], rfl⟩
  | found | noSession | nothingToClose | locked | served | returned | cancelHit | cancelMiss
  | cancelled | taken | nothingToTake | releaseLocked | cleaned | released | pushed | innerDrained
  | secondaryDrained | shutDown => cases ht
  | _ => exact ⟨entry, hl, rfl⟩

/-- What an operation is yet to take off `total`, for entries that have left the map and for a
duplicate. -/
def pending : Task → ℕ
  | .evictSecondaryTotal ks => ks.length
  | .browserDuplicate .. => 1
  | _ => 0

/-- How many entries a section removes from the map, and whether it finds that the connection it
has opened is a duplicate. -/
def discards (p p' : Pool) (t : Task) : ℕ :=
  (p.secondaryBrowsers.entries.length - p'.secondaryBrowsers.entries.length) +
    match t with
    | .browserStore database _ => if (p.secondaryBrowsers.lookup database).isSome then 1 else 0
    | _ => 0

/-- What a section takes off `total`, for another reason than a failed opening or an idle
connection. -/
def lowers (p p' : Pool) : Task → ℕ
  | .slotRollBack _ | .evictIdle _ => 0
  | _ => p.inner.total - p'.inner.total

def ofSection (g : PostgresWire.Grammar) (cfg : PgConfig) (f : Pool → Pool → Task → ℕ)
    (c : Config Pool Task) : Action Task Event → ℕ
  | .spawn _ => 0
  | .advance i e => match c.tasks[i]? with
    | none => 0
    | some t => match ConnectionPool.step g cfg c.shared t e with
      | none => 0
      | some r => f c.shared r.1 t

theorem length_evictSecondary (cfg : PgConfig) (p : Pool) (now : ℕ) :
    (p.evictSecondary cfg now).1.secondaryBrowsers.entries.length +
      (p.evictSecondary cfg now).2.length = p.secondaryBrowsers.entries.length := by
  have h := (pooled_evictSecondary (ω := fun _ => 1) cfg p now).1
  have hbefore := stored_eq p
  have hafter := stored_eq (p.evictSecondary cfg now).1
  rw [stored] at hbefore hafter
  rw [length_eq_sum, hbefore, hafter, evictSecondary_inner] at h
  omega

/-- A section that keeps `total` and the map. -/
theorem balance_quiet (hp : pending t' = pending t) (hd : discards p p' t = 0)
    (hl : lowers p p' t = 0) :
    pending t' + lowers p p' t = pending t + discards p p' t := by
  rw [hp, hd, hl]

/-- Every entry that is removed and every duplicate is taken off `total` by a section to come. -/
theorem transition_balance (h : Transition g cfg p e t p' t') (ht : browserTask t = true)
    (hle : pending t ≤ p.inner.total) :
    pending t' + lowers p p' t = pending t + discards p p' t := by
  cases h with
  | @leaseHit s use | @assigned s use =>
    cases use with
    | call call => cases ht
    | browse =>
      apply balance_quiet <;> simp [pending, discards, lowers, Purpose.next]
  | reserved hr | browserReserved hr =>
    obtain ⟨-, rfl⟩ := reserveConnectionSlot_ok hr
    apply balance_quiet <;> simp [pending, discards, lowers, setTotal]
  | popped hp =>
    obtain ⟨-, -, -, rfl⟩ := popIdle_some hp
    apply balance_quiet <;> simp [pending, discards, lowers, setIdle]
  | browserHit hl =>
    apply balance_quiet <;>
      simp [pending, discards, lowers, length_insert_some hl, -AList.entries_insert]
  | raced hl =>
    simp [pending, discards, lowers, length_insert_some hl, hl, -AList.entries_insert]
  | inserted hl =>
    have hlen := weigh_insert_none (w := fun _ => 1) hl
    simp only [weigh_one] at hlen
    apply balance_quiet <;> simp [pending, discards, lowers, hlen, hl, -AList.entries_insert]
  | duplicateDropped =>
    simp only [pending] at hle
    simp only [pending, discards, lowers, letGo_inner, letGo_secondary, releaseConnectionSlot,
      setTotal]
    omega
  | @idleEvicted now =>
    apply balance_quiet <;> simp [pending, discards, lowers, Pool.evictIdle, setTotal, setIdle]
  | @noSecondary now hnone =>
    have hlen := length_evictSecondary cfg p now
    rw [hnone, List.length_nil] at hlen
    apply balance_quiet <;> simp [pending, discards, lowers, evictSecondary_inner, ← hlen]
  | @secondaryEvicted now =>
    have hlen := length_evictSecondary cfg p now
    simp only [pending, discards, lowers, evictSecondary_inner]
    omega
  | @secondaryCounted ks =>
    simp only [pending] at hle
    simp only [pending, discards, lowers, setTotal]
    omega
  | rolledBack =>
    apply balance_quiet <;> simp [pending, discards, lowers, releaseConnectionSlot, setTotal]
  | found | noSession | nothingToClose | locked | served | returned | cancelHit | cancelMiss
  | cancelled | taken | nothingToTake | releaseLocked | cleaned | released | pushed | innerDrained
  | secondaryDrained | shutDown => cases ht
  | _ => apply balance_quiet <;> simp [pending, discards, lowers]

/-- A run of browser operations and evictions has no shutdown. -/
theorem spawn_ne_shutdown (ha : ∀ t, a = .spawn t → browserTask t = true) :
    a ≠ .spawn .shutdownInner := by
  rintro rfl
  cases ha .shutdownInner rfl

theorem act_balance (h : InPlace c) (hacc : Accounted cfg c)
    (hact : (system g cfg).act c a = some c') :
    (c'.tasks.map pending).sum + ofSection g cfg lowers c a =
      (c.tasks.map pending).sum + ofSection g cfg discards c a := by
  rcases act_cases hact with ⟨t, rfl, ht, rfl⟩ | ⟨i, e, t, p', t', rfl, hi, hs, rfl⟩
  · have hpending : pending t = 0 := by
      cases t <;> first | rfl | cases ht
    simp [ofSection, hpending]
  · have hstep : ConnectionPool.step g cfg c.shared t e = some (p', t') := hs
    have htask := h.browsers t (List.mem_of_getElem? hi)
    have hclaims : pending t ≤ claims t := by
      cases t with
      | evictSecondaryTotal ks =>
        simp only [pending, claims, held, length_eq_sum]
        omega
      | browserDuplicate => exact Nat.le_add_right 1 _
      | _ => exact Nat.zero_le _
    have hle : claims t ≤ outstanding c.tasks := le_sum_map claims hi
    have hcovered := hacc.covered
    have hbalance := transition_balance (step_transition hstep) htask (by omega)
    have hset := sum_map_set pending hi t'
    simp only [ofSection, hi, hstep]
    omega

/-- At most one connection is registered for a database, and it is registered for no other. -/
structure OnePerDatabase (p : Pool) : Prop where
  connection : ∀ x ∈ p.secondaryBrowsers.entries, ∀ y ∈ p.secondaryBrowsers.entries,
    x.1 = y.1 → x = y
  database : ∀ x ∈ p.secondaryBrowsers.entries, ∀ y ∈ p.secondaryBrowsers.entries,
    x.2.conn = y.2.conn → x = y

theorem InPlace.onePerDatabase (h : InPlace c) : OnePerDatabase c.shared := by
  have hsame (x) (hx : x ∈ c.shared.secondaryBrowsers.entries) (y)
      (hy : y ∈ c.shared.secondaryBrowsers.entries) (heq : x.1 = y.1) : x = y := by
    obtain ⟨database, entry⟩ := x
    obtain ⟨database', entry'⟩ := y
    obtain rfl : database = database' := heq
    have hx := lookup_of_mem hx
    have hy := lookup_of_mem hy
    obtain rfl := Option.some.inj (hx.symm.trans hy)
    rfl
  refine ⟨hsame, fun x hx y hy heq => hsame x hx y hy ?_⟩
  by_contra hne
  have hle := add_le_weigh (w := fun e : SecondaryBrowserEntry => only x.2.conn e.conn)
    (lookup_of_mem hx) (lookup_of_mem hy) hne
  have honce := (h.tidy x.2.conn).once
  rw [← heq] at hle
  simp only [only_self, pooled] at hle honce
  omega

/-- A connection that an operation was given has its `Arc` and its wire. -/
theorem InPlace.given (h : InPlace c) (ht : t ∈ c.tasks) (hk : given t = some k) :
    c.shared.handles k ≠ 0 ∧ isUp c.shared k = true := by
  obtain ⟨i, hi⟩ := List.getElem?_of_mem ht
  have hle : used (only k) t ≤ _ := le_sum_map (used (only k)) hi
  have hone : used (only k) t = 1 := by simp [used, hk, only_self]
  have hhandles := h.counted.handles k
  rw [sum_arcs h.browsers] at hhandles
  refine ⟨by omega, (h.tidy k).alive (by omega)⟩

/-- What the next action leaves in the map for a connection that an operation was given. -/
theorem InPlace.stays (h : InPlace c) (ht : t ∈ c.tasks) (hk : SharedBrowsers.given t = some k)
    (hact : (system g cfg).act c a = some c') {database : RustText.Text}
    {entry : SecondaryBrowserEntry}
    (hl : c.shared.secondaryBrowsers.lookup database = some entry) (hentry : entry.conn = k) :
    ∃ entry', c'.shared.secondaryBrowsers.lookup database = some entry' ∧ entry'.conn = k := by
  have hheld := (h.given ht hk).1
  rcases act_cases hact with ⟨u, rfl, -, rfl⟩ | ⟨i, e, u, p', u', rfl, hi, hs, rfl⟩
  · exact ⟨entry, hl, hentry⟩
  · subst hentry
    exact transition_registered (step_transition hs) (h.browsers u (List.mem_of_getElem? hi)) hl
      hheld

/-- However browser operations and evictions interleave: one connection is registered for a
database; one that an operation was given keeps its wire, and no action removes it from the map;
and the sections that lower `total` for them have lowered it by one for every entry removed and
every duplicate, but for those whose section is yet to come. -/
theorem browsers_shared (g : PostgresWire.Grammar) (cfg : PgConfig) (now : ℕ)
    (as : List (Action Task Event)) (d : Config Pool Task)
    (hspawn : ∀ t, .spawn t ∈ as → browserTask t = true)
    (hr : (system g cfg).run (connect now) as = some d) :
    OnePerDatabase d.shared ∧
      (∀ t ∈ d.tasks, ∀ k, given t = some k → isUp d.shared k = true ∧
        ∀ a d', (system g cfg).act d a = some d' → ∀ database entry,
          d.shared.secondaryBrowsers.lookup database = some entry → entry.conn = k →
          ∃ entry', d'.shared.secondaryBrowsers.lookup database = some entry' ∧
            entry'.conn = k) ∧
      (d.tasks.map pending).sum +
          (system g cfg).gained (ofSection g cfg lowers) (connect now) as =
        (system g cfg).gained (ofSection g cfg discards) (connect now) as := by
  have hm : (system g cfg).Meets (fun _ a => ∀ t, a = .spawn t → browserTask t = true)
      (connect now) as := meets_of_forall fun a ha t heq => hspawn t (heq ▸ ha)
  have hinv (c a c') (h : InPlace c ∧ Accounted cfg c)
      (ha : ∀ t, a = .spawn t → browserTask t = true)
      (hact : (system g cfg).act c a = some c') : InPlace c' ∧ Accounted cfg c' :=
    ⟨act_inPlace h.1 ha hact, (act_accounted h.2 (spawn_ne_shutdown ha) hact).1⟩
  have hstart : InPlace (connect now) ∧ Accounted cfg (connect now) :=
    ⟨inPlace_connect now, accounted_connect cfg now⟩
  have hd := (run_invariant hinv hstart hm hr).1
  have hbalanced := run_balanced (m := fun c => (c.tasks.map pending).sum) hinv
    (fun c a c' h _ hact => act_balance h.1 h.2 hact) hstart hm hr
  refine ⟨hd.onePerDatabase, fun t ht k hk => ⟨(hd.given ht hk).2, ?_⟩, ?_⟩
  · intro a d' hact database entry hl hentry
    exact hd.stays ht hk hact hl hentry
  · exact hbalanced.trans (Nat.zero_add _)

def eager : PgConfig := ⟨"postgres".toList, none, some 0, some 0⟩

/-- Two operations open a connection to one database; evictions run while both have it, and when
one has let it go. -/
def racedOther : List (Action Task Event) :=
  .spawn (.browserCached ['o']) :: .spawn (.browserCached ['o']) :: .spawn .evict ::
    sections [0, 1, 0, 1, 0, 1, 0, 1, 2, 2, 2, 2, 1, 1] ++
      .spawn .evict :: sections [3, 3, 3, 3, 0] ++ .spawn .evict :: sections [4, 4, 4, 4, 4, 4]

theorem browsers_shared_racedOther :
    ∃ d, (system smallServer eager).run (connect 0) racedOther = some d ∧
      OnePerDatabase d.shared ∧
      (∀ t ∈ d.tasks, ∀ k, given t = some k → isUp d.shared k = true ∧
        ∀ a d', (system smallServer eager).act d a = some d' → ∀ database entry,
          d.shared.secondaryBrowsers.lookup database = some entry → entry.conn = k →
          ∃ entry', d'.shared.secondaryBrowsers.lookup database = some entry' ∧
            entry'.conn = k) ∧
      (d.tasks.map pending).sum +
          (system smallServer eager).gained (ofSection smallServer eager lowers) (connect 0)
            racedOther =
        (system smallServer eager).gained (ofSection smallServer eager discards) (connect 0)
          racedOther := by
  obtain ⟨d, hd⟩ := Option.isSome_iff_exists.mp
    (show ((system smallServer eager).run (connect 0) racedOther).isSome by decide +kernel)
  refine ⟨d, hd, browsers_shared smallServer eager 0 racedOther d ?_ hd⟩
  intro t ht
  simp only [racedOther, List.mem_cons, List.mem_append, spawn_notMem_sections, or_false,
    Action.spawn.injEq] at ht
  rcases ht with (((rfl | rfl | rfl) | rfl) | rfl) <;> rfl

end SshCommander.SharedBrowsers
