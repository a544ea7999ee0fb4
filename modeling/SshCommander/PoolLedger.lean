import SshCommander.ConnectionPool
import SshCommander.MapWeights

/-!
# What the pool holds and what its operations hold

Every connection weighs `ω` where it is stored, in idle, in a lease or as a secondary browser,
and where an operation has it between taking and storing it. The lemmas say how each section
moves weight; with weight one they account for `total`, with an indicator they follow one
connection.
-/

namespace SshCommander.PoolLedger
open InterleavedTasks MapWeights ConnectionPool ConnectionPool.Pool PooledConnection PostgresWire

variable {ω : ConnId → ℕ} {p p' : Pool} {k : ConnId} {s : SessionId} {cfg : PgConfig}

/-- The weight of the connections the pool stores. -/
def pooled (ω : ConnId → ℕ) (p : Pool) : ℕ :=
  (p.inner.idle.map (ω ·.conn)).sum + weigh ω p.inner.leased +
    weigh (ω ·.conn) p.secondaryBrowsers

/-- The weight of the connections an operation has out of the pool, with their slots. -/
def held (ω : ConnId → ℕ) : Task → ℕ
  | .leaseAssign _ _ k | .releaseWaiting _ k | .releasing _ k _ | .returning _ k
  | .browserStore _ k | .browserDuplicate k _ => ω k
  | .evictSecondaryTotal ks => (ks.map ω).sum
  | _ => 0

def reserved : Task → ℕ
  | .leaseOpening .. | .browserOpening _ | .slotRollBack _ => 1
  | _ => 0

@[simp] theorem abort_inner (p : Pool) (k : ConnId) : (p.abort k).inner = p.inner := rfl
@[simp] theorem hold_inner (p : Pool) (k : ConnId) : (p.hold k).inner = p.inner := rfl
@[simp] theorem unhold_inner (p : Pool) (k : ConnId) : (p.unhold k).inner = p.inner := rfl
@[simp] theorem setLocked_inner (p : Pool) (k : ConnId) (b : Bool) :
    (p.setLocked k b).inner = p.inner := rfl
@[simp] theorem setConn_inner (p : Pool) (k : ConnId) (conn : Conn) :
    (p.setConn k conn).inner = p.inner := rfl
@[simp] theorem add_inner (p : Pool) : p.add.1.inner = p.inner := rfl
@[simp] theorem setSecondary_inner (p : Pool) (m : AList fun _ : RustText.Text => SecondaryBrowserEntry) :
    (p.setSecondary m).inner = p.inner := rfl

@[simp] theorem abort_secondary (p : Pool) (k : ConnId) :
    (p.abort k).secondaryBrowsers = p.secondaryBrowsers := rfl
@[simp] theorem hold_secondary (p : Pool) (k : ConnId) :
    (p.hold k).secondaryBrowsers = p.secondaryBrowsers := rfl
@[simp] theorem unhold_secondary (p : Pool) (k : ConnId) :
    (p.unhold k).secondaryBrowsers = p.secondaryBrowsers := rfl
@[simp] theorem setLocked_secondary (p : Pool) (k : ConnId) (b : Bool) :
    (p.setLocked k b).secondaryBrowsers = p.secondaryBrowsers := rfl
@[simp] theorem setConn_secondary (p : Pool) (k : ConnId) (conn : Conn) :
    (p.setConn k conn).secondaryBrowsers = p.secondaryBrowsers := rfl
@[simp] theorem add_secondary (p : Pool) : p.add.1.secondaryBrowsers = p.secondaryBrowsers := rfl
@[simp] theorem setSecondary_secondary (p : Pool)
    (m : AList fun _ : RustText.Text => SecondaryBrowserEntry) :
    (p.setSecondary m).secondaryBrowsers = m := rfl

@[simp] theorem reap_inner (p : Pool) (k : ConnId) : (p.reap k).inner = p.inner := by
  unfold reap
  split <;> rfl

@[simp] theorem reap_secondary (p : Pool) (k : ConnId) :
    (p.reap k).secondaryBrowsers = p.secondaryBrowsers := by
  unfold reap
  split <;> rfl

@[simp] theorem letGo_inner (p : Pool) (k : ConnId) : (p.letGo k).inner = p.inner :=
  reap_inner _ _

@[simp] theorem letGo_secondary (p : Pool) (k : ConnId) :
    (p.letGo k).secondaryBrowsers = p.secondaryBrowsers := reap_secondary _ _

@[simp] theorem abortAll_inner (p : Pool) (ks : List ConnId) : (p.abortAll ks).inner = p.inner := by
  unfold abortAll
  induction ks generalizing p with
  | nil => rfl
  | cons k ks ih => simp [ih]

@[simp] theorem abortAll_secondary (p : Pool) (ks : List ConnId) :
    (p.abortAll ks).secondaryBrowsers = p.secondaryBrowsers := by
  unfold abortAll
  induction ks generalizing p with
  | nil => rfl
  | cons k ks ih => simp [ih]

@[simp] theorem holdAll_inner (p : Pool) (ks : List ConnId) : (p.holdAll ks).inner = p.inner := by
  unfold holdAll
  induction ks generalizing p with
  | nil => rfl
  | cons k ks ih => simp [ih]

@[simp] theorem holdAll_secondary (p : Pool) (ks : List ConnId) :
    (p.holdAll ks).secondaryBrowsers = p.secondaryBrowsers := by
  unfold holdAll
  induction ks generalizing p with
  | nil => rfl
  | cons k ks ih => simp [ih]

theorem pooled_congr (hi : p'.inner = p.inner) (hs : p'.secondaryBrowsers = p.secondaryBrowsers) :
    pooled ω p' = pooled ω p := by simp only [pooled, hi, hs]

theorem popIdle_some (h : p.popIdle = some (p', k)) :
    ∃ e, p.inner.idle = p.inner.idle.dropLast ++ [e] ∧ e.conn = k ∧
      p' = (p.setIdle p.inner.idle.dropLast).hold k := by
  simp only [popIdle, Option.map_eq_some_iff, Prod.mk.injEq] at h
  obtain ⟨e, he, rfl, rfl⟩ := h
  exact ⟨e, (List.dropLast_append_getLast? e he).symm, rfl, rfl⟩

theorem pooled_popIdle (h : p.popIdle = some (p', k)) :
    pooled ω p' + ω k = pooled ω p ∧ p'.inner.total = p.inner.total := by
  obtain ⟨e, he, rfl, rfl⟩ := popIdle_some h
  refine ⟨?_, rfl⟩
  have hsum : (p.inner.idle.map (ω ·.conn)).sum =
      (p.inner.idle.dropLast.map (ω ·.conn)).sum + ω e.conn := by
    rw [he]
    simp
  simp only [pooled, hold_inner, hold_secondary, setIdle, hsum]
  omega

theorem pooled_returned (p : Pool) (now : ℕ) (k : ConnId) :
    pooled ω ((p.setIdle (p.inner.idle ++ [⟨now, k⟩])).unhold k) = pooled ω p + ω k := by
  simp only [pooled, unhold_inner, unhold_secondary, setIdle, List.map_append, List.sum_append,
    List.map_cons, List.map_nil, List.sum_cons, List.sum_nil]
  omega

@[simp] theorem assignLease_total (p : Pool) (s : SessionId) (k : ConnId) :
    (p.assignLease s k).inner.total = p.inner.total := by
  unfold assignLease
  split
  · rfl
  · rw [reap_inner]
    rfl

@[simp] theorem assignLease_idle (p : Pool) (s : SessionId) (k : ConnId) :
    (p.assignLease s k).inner.idle = p.inner.idle := by
  unfold assignLease
  split
  · rfl
  · rw [reap_inner]
    rfl

def replaced (ω : ConnId → ℕ) (p : Pool) (s : SessionId) : ℕ :=
  match p.inner.leased.lookup s with
  | none => 0
  | some old => ω old

theorem pooled_assignLease (p : Pool) (s : SessionId) (k : ConnId) :
    pooled ω (p.assignLease s k) + replaced ω p s = pooled ω p + ω k := by
  unfold assignLease replaced
  cases h : p.inner.leased.lookup s with
  | none =>
    have hw := weigh_insert_none (w := ω) h k
    simp only [pooled, setLeased, hw]
    omega
  | some old =>
    have hw := weigh_insert_some (w := ω) h k
    simp only [pooled, reap_inner, reap_secondary, setLeased]
    omega

theorem pooled_releaseTake (h : p.inner.leased.lookup s = some k) :
    pooled ω ((p.setLeased (p.inner.leased.erase s)).hold k) + ω k = pooled ω p := by
  have hw := weigh_erase (w := ω) h
  simp only [pooled, hold_inner, hold_secondary, setLeased]
  omega

theorem pooled_touchSecondary {database : RustText.Text} {entry : SecondaryBrowserEntry}
    (h : p.secondaryBrowsers.lookup database = some entry) (now : ℕ) :
    pooled ω ((p.setSecondary (p.secondaryBrowsers.insert database ⟨now, entry.conn⟩)).hold
      entry.conn) = pooled ω p := by
  have hw := weigh_insert_some (w := fun e : SecondaryBrowserEntry => ω e.conn) h ⟨now, entry.conn⟩
  dsimp only at hw
  simp only [pooled, hold_inner, hold_secondary, setSecondary_inner, setSecondary_secondary]
  omega

theorem pooled_storeSecondary {database : RustText.Text}
    (h : p.secondaryBrowsers.lookup database = none) (now : ℕ) (k : ConnId) :
    pooled ω (p.setSecondary (p.secondaryBrowsers.insert database ⟨now, k⟩)) =
      pooled ω p + ω k := by
  have hw := weigh_insert_none (w := fun e : SecondaryBrowserEntry => ω e.conn) h ⟨now, k⟩
  simp only [pooled, setSecondary_inner, setSecondary_secondary, hw]
  omega

theorem evictLoop_sum (cfg : PgConfig) (now : ℕ) (rest keep : List IdleEntry) (drop : List ConnId) :
    ((evictLoop cfg now rest keep drop).1.map (ω ·.conn)).sum +
        ((evictLoop cfg now rest keep drop).2.map ω).sum =
      (rest.map (ω ·.conn)).sum + (keep.map (ω ·.conn)).sum + (drop.map ω).sum := by
  induction rest generalizing keep drop with
  | nil => simp [evictLoop]
  | cons entry rest ih =>
    simp only [evictLoop]
    split
    · rw [ih]
      simp only [List.map_cons, List.sum_cons, List.map_append, List.map_nil, List.sum_append,
        List.sum_nil]
      omega
    · rw [ih]
      simp only [List.map_cons, List.sum_cons, List.map_append, List.map_nil, List.sum_append,
        List.sum_nil]
      omega

theorem pooled_evictIdle (cfg : PgConfig) (p : Pool) (now : ℕ) :
    pooled ω (p.evictIdle cfg now).1 + ((p.evictIdle cfg now).2.map ω).sum = pooled ω p ∧
      (p.evictIdle cfg now).1.inner.total =
        p.inner.total - (p.evictIdle cfg now).2.length := by
  have h := evictLoop_sum (ω := ω) cfg now p.inner.idle [] []
  simp only [List.map_nil, List.sum_nil, Nat.add_zero] at h
  simp only [evictIdle, pooled, holdAll_inner, holdAll_secondary, setTotal, setIdle]
  refine ⟨?_, trivial⟩
  omega

theorem pooled_evictSecondary (cfg : PgConfig) (p : Pool) (now : ℕ) :
    pooled ω (p.evictSecondary cfg now).1 + ((p.evictSecondary cfg now).2.map ω).sum =
        pooled ω p ∧
      (p.evictSecondary cfg now).1.inner.total = p.inner.total := by
  have h := weigh_eraseFilter (w := fun e : SecondaryBrowserEntry => ω e.conn) p.secondaryBrowsers
    fun e => decide (cfg.idleTimeout ≤ now - e.2.since) && p.handles e.2.conn == 0
  simp only [evictSecondary, evictableSecondary, pooled, holdAll_inner, holdAll_secondary,
    setSecondary_inner, setSecondary_secondary, List.map_map, Function.comp_def]
  refine ⟨?_, trivial⟩
  omega

theorem evictSecondary_inner (cfg : PgConfig) (p : Pool) (now : ℕ) :
    (p.evictSecondary cfg now).1.inner = p.inner := by
  rw [Pool.evictSecondary, holdAll_inner]
  rfl

theorem reserveConnectionSlot_ok (h : p.reserveConnectionSlot cfg = .ok p') :
    p.inner.total < cfg.maxSize ∧ p' = p.setTotal (p.inner.total + 1) := by
  unfold reserveConnectionSlot at h
  split at h
  · cases h
  · rename_i hlt
    exact ⟨by omega, (Except.ok.inj h).symm⟩

def isShutdown : Task → Bool
  | .shutdownInner | .shutdownSecondary _ | .shutdownAbort _ => true
  | _ => false

/-- What an operation accounts for in `total`: the connections it has out and its slots. -/
def claims (t : Task) : ℕ := held (fun _ => 1) t + reserved t

def stored (p : Pool) : ℕ := pooled (fun _ => 1) p

theorem setTotal_total (p : Pool) (n : ℕ) : (p.setTotal n).inner.total = n := rfl

theorem stored_setTotal (p : Pool) (n : ℕ) : stored (p.setTotal n) = stored p := rfl

/-- One when the step replaces a lease, whose connection is then counted by nothing. -/
def leaks (p : Pool) : Task → ℕ
  | .leaseAssign s _ _ => replaced (fun _ => 1) p s
  | _ => 0

theorem claims_next (use : Purpose) (s : SessionId) (k : ConnId) : claims (use.next s k) = 0 := by
  cases use <;> rfl

/-- `total` and what is accounted for move together, but for a replaced lease. -/
structure Balanced (cfg : PgConfig) (p : Pool) (t : Task) (p' : Pool) (t' : Task) : Prop where
  books : p'.inner.total + stored p + claims t =
    p.inner.total + stored p' + claims t' + leaks p t
  bound : p.inner.total ≤ cfg.maxSize → p'.inner.total ≤ cfg.maxSize
  noShutdown : isShutdown t' = false

theorem Balanced.quiet {t t' : Task} (hi : p'.inner = p.inner)
    (hs : p'.secondaryBrowsers = p.secondaryBrowsers) (hc : claims t' = claims t)
    (hl : leaks p t = 0) (ht : isShutdown t' = false) : Balanced cfg p t p' t' := by
  have hp : stored p' = stored p := pooled_congr hi hs
  exact ⟨by rw [hi, hp, hc, hl]; rfl, by rw [hi]; exact id, ht⟩

theorem isShutdown_next (use : Purpose) (s : SessionId) (k : ConnId) :
    isShutdown (use.next s k) = false := by
  cases use <;> rfl

theorem Balanced.sameTotal {t t' : Task} (htotal : p'.inner.total = p.inner.total)
    (hbooks : stored p + claims t = stored p' + claims t' + leaks p t)
    (ht : isShutdown t' = false) : Balanced cfg p t p' t' :=
  ⟨by omega, by rw [htotal]; exact id, ht⟩

/-- Every section keeps the books. -/
theorem transition_balanced {g : PostgresWire.Grammar} {t t' : Task} {e : Event}
    (h : Transition g cfg p e t p' t') (ht : isShutdown t = false)
    (hle : stored p + claims t ≤ p.inner.total) : Balanced cfg p t p' t' := by
  cases h with
  | leaseHit => exact .quiet rfl rfl (claims_next _ _ _) rfl (isShutdown_next _ _ _)
  | popped h =>
    obtain ⟨hp, htotal⟩ := pooled_popIdle (ω := fun _ => 1) h
    refine .sameTotal htotal ?_ rfl
    simp only [stored, claims, held, reserved, leaks]
    omega
  | @assigned s use k =>
    have hp := pooled_assignLease (ω := fun _ => 1) p s k
    refine .sameTotal (assignLease_total p s k) ?_ (isShutdown_next _ _ _)
    rw [claims_next]
    simp only [stored, claims, held, reserved, leaks]
    omega
  | reserved h | browserReserved h =>
    obtain ⟨hlt, rfl⟩ := reserveConnectionSlot_ok h
    refine ⟨?_, fun _ => hlt, rfl⟩
    simp only [stored_setTotal, setTotal_total, claims, held, reserved, leaks]
    omega
  | rolledBack =>
    simp only [claims, held, reserved] at hle
    refine ⟨?_, fun hb => (Nat.sub_le _ _).trans hb, rfl⟩
    simp only [releaseConnectionSlot, stored_setTotal, setTotal_total, claims, held, reserved, leaks]
    omega
  | taken h =>
    have hp := pooled_releaseTake (ω := fun _ => 1) h
    refine .sameTotal rfl ?_ rfl
    simp only [stored, claims, held, reserved, leaks]
    omega
  | @pushed s k =>
    have hp := pooled_returned (ω := fun _ => 1) p e.now k
    refine .sameTotal rfl ?_ rfl
    simp only [stored, claims, held, reserved, leaks]
    omega
  | browserHit h | raced h =>
    have hp := pooled_touchSecondary (ω := fun _ => 1) h e.now
    refine .sameTotal rfl ?_ rfl
    simp only [stored, claims, held, reserved, leaks]
    omega
  | @inserted database k h =>
    have hp := pooled_storeSecondary (ω := fun _ => 1) h e.now k
    refine .sameTotal rfl ?_ rfl
    simp only [stored, claims, held, reserved, leaks]
    omega
  | @duplicateDropped own existing =>
    have hp : stored (p.releaseConnectionSlot.letGo own) = stored p :=
      pooled_congr (p := p.releaseConnectionSlot) (by simp) (by simp)
    have htotal : (p.releaseConnectionSlot.letGo own).inner.total = p.inner.total - 1 := by
      rw [letGo_inner]
      rfl
    simp only [claims, held, reserved] at hle
    refine ⟨?_, fun hb => htotal ▸ (Nat.sub_le _ _).trans hb, rfl⟩
    simp only [hp, htotal, claims, held, reserved, leaks]
    omega
  | @idleEvicted now =>
    obtain ⟨hp, htotal⟩ := pooled_evictIdle (ω := fun _ => 1) cfg p now
    have hlen : ((p.evictIdle cfg now).2.map fun _ => 1).sum =
        (p.evictIdle cfg now).2.length := by simp
    simp only [claims, held, reserved, stored] at hle
    refine ⟨?_, fun hb => htotal ▸ (Nat.sub_le _ _).trans hb, rfl⟩
    simp only [htotal, stored, claims, held, reserved, leaks]
    omega
  | @noSecondary now h =>
    obtain ⟨hp, htotal⟩ := pooled_evictSecondary (ω := fun _ => 1) cfg p now
    refine .sameTotal htotal ?_ rfl
    simp only [h, List.map_nil, List.sum_nil] at hp
    simp only [stored, claims, held, reserved, leaks]
    omega
  | @secondaryEvicted now =>
    obtain ⟨hp, htotal⟩ := pooled_evictSecondary (ω := fun _ => 1) cfg p now
    refine .sameTotal htotal ?_ rfl
    simp only [stored, claims, held, reserved, leaks]
    omega
  | @secondaryCounted ks =>
    have hlen : (ks.map fun _ => 1).sum = ks.length := by simp
    simp only [claims, held, reserved] at hle
    refine ⟨?_, fun hb => (Nat.sub_le _ _).trans hb, rfl⟩
    simp only [stored_setTotal, setTotal_total, claims, held, reserved, leaks]
    omega
  | innerDrained | secondaryDrained | shutDown => cases ht
  | returned => exact .quiet (by simp) (by simp) rfl rfl rfl
  | cancelled | browsed => exact .quiet (by simp) (by simp) rfl rfl rfl
  | idleAborted | secondaryAborted => exact .quiet (by simp) (by simp) rfl rfl rfl
  | _ => exact .quiet rfl rfl rfl rfl rfl

end SshCommander.PoolLedger
