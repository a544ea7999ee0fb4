import SshCommander.PoolAccounting

/-!
# Who has a connection

While sessions only call, cancel and release and the eviction loop runs, every connection is in
one place: idle, in one lease, or out with one operation. So the session a connection is leased
to, or is being released by, is unique.
-/

namespace SshCommander.ConnectionOwnership
open InterleavedTasks InterleavedTasks.TaskSystem MapWeights ConnectionPool ConnectionPool.Pool
  PooledConnection PoolLedger

variable {g : PostgresWire.Grammar} {cfg : PgConfig} {c c' d : Config Pool Task}
  {a : Action Task Event} {p p' : Pool} {t t' u : Task} {e : Event} {s s' : SessionId} {k : ConnId}

/-- A call, cancel or release of a session, or an eviction while nothing is browsed. -/
def sessionTask : Task → Bool
  | .leaseFast _ use | .leasePop _ use | .leaseCheck _ use | .leaseReserve _ use
  | .leaseOpening _ use | .leaseAssign _ use _ =>
    match use with
    | .call _ => true
    | .browse => false
  | .browserCached _ | .browserReserve _ | .browserOpening _ | .browserStore .. |
    .browserDuplicate .. | .browsing _ | .evictSecondaryTotal _ | .evictSecondaryAbort _
  | .shutdownInner | .shutdownSecondary _ | .shutdownAbort _ => false
  | _ => true

def user : Task → Option (SessionId × ConnId)
  | .waiting s k _ | .running s k .. | .cancelling s k => some (s, k)
  | _ => none

/-- The session and the connection a release has taken and not put back. -/
def releaser : Task → Option (SessionId × ConnId)
  | .releaseWaiting s k | .releasing s k _ | .returning s k => some (s, k)
  | _ => none

/-- The connections an operation has that belong to no session. -/
def between : Task → List ConnId
  | .leaseAssign _ _ k => [k]
  | .evictAbort _ ks => ks
  | _ => []

/-- The weight of the connections an operation has out of the pool. -/
def out (ω : ConnId → ℕ) (t : Task) : ℕ :=
  ((releaser t).map (ω ·.2)).getD 0 + ((between t).map ω).sum

theorem sessionTask_next {use : Purpose} (h : sessionTask (.leaseAssign s use k) = true) :
    ∃ call, use = .call call := by
  cases use with
  | call call => exact ⟨call, rfl⟩
  | browse => cases h

theorem evictSecondary_of_empty (h : p.secondaryBrowsers = ∅) (cfg : PgConfig) (now : ℕ) :
    (p.evictSecondary cfg now).2 = [] ∧ (p.evictSecondary cfg now).1.inner = p.inner ∧
      (p.evictSecondary cfg now).1.secondaryBrowsers = ∅ ∧
      (p.evictSecondary cfg now).1.conns = p.conns := by
  have hnil : p.evictableSecondary cfg now = [] := by
    simp [evictableSecondary, h]
  simp [evictSecondary, hnil, holdAll, setSecondary, h]

@[simp] theorem abort_length (p : Pool) (k : ConnId) :
    (p.abort k).conns.length = p.conns.length := List.length_modify ..

@[simp] theorem hold_length (p : Pool) (k : ConnId) :
    (p.hold k).conns.length = p.conns.length := List.length_modify ..

@[simp] theorem unhold_length (p : Pool) (k : ConnId) :
    (p.unhold k).conns.length = p.conns.length := List.length_modify ..

@[simp] theorem setLocked_length (p : Pool) (k : ConnId) (b : Bool) :
    (p.setLocked k b).conns.length = p.conns.length := List.length_modify ..

@[simp] theorem setConn_length (p : Pool) (k : ConnId) (conn : Conn) :
    (p.setConn k conn).conns.length = p.conns.length := List.length_modify ..

@[simp] theorem reap_length (p : Pool) (k : ConnId) :
    (p.reap k).conns.length = p.conns.length := by
  unfold reap
  split
  · rfl
  · exact abort_length p k

@[simp] theorem letGo_length (p : Pool) (k : ConnId) :
    (p.letGo k).conns.length = p.conns.length := by
  rw [letGo, reap_length, unhold_length]

@[simp] theorem abortAll_length (p : Pool) (ks : List ConnId) :
    (p.abortAll ks).conns.length = p.conns.length := by
  unfold abortAll
  induction ks generalizing p with
  | nil => rfl
  | cons k ks ih => simp [ih]

@[simp] theorem holdAll_length (p : Pool) (ks : List ConnId) :
    (p.holdAll ks).conns.length = p.conns.length := by
  unfold holdAll
  induction ks generalizing p with
  | nil => rfl
  | cons k ks ih => simp [ih]

@[simp] theorem assignLease_length (p : Pool) (s : SessionId) (k : ConnId) :
    (p.assignLease s k).conns.length = p.conns.length := by
  unfold assignLease
  split
  · rfl
  · exact reap_length _ _

@[simp] theorem assignLease_secondary (p : Pool) (s : SessionId) (k : ConnId) :
    (p.assignLease s k).secondaryBrowsers = p.secondaryBrowsers := by
  unfold assignLease
  split
  · rfl
  · exact reap_secondary _ _

/-- Where the connections are after a section: each where it was, or moved, or a new one with the
operation that opened it. -/
inductive Moved (p : Pool) (t : Task) (p' : Pool) (t' : Task) : Prop where
  | opened (use : Purpose) (s : SessionId) (started : t = .leaseOpening s use) (pool : p' = p.add.1)
      (next : t' = .leaseAssign s use p.conns.length)
  | kept (length : p'.conns.length = p.conns.length)
      (weight : ∀ ω, pooled ω p' + out ω t' ≤ pooled ω p + out ω t)

structure Served (p : Pool) (t : Task) (p' : Pool) (t' : Task) : Prop where
  noSecondary : p'.secondaryBrowsers = ∅
  session : sessionTask t' = true
  moved : Moved p t p' t'

theorem Served.quiet (hi : p'.inner = p.inner) (hs : p'.secondaryBrowsers = p.secondaryBrowsers)
    (hp : p.secondaryBrowsers = ∅) (hl : p'.conns.length = p.conns.length)
    (ho : ∀ ω, out ω t' = out ω t) (ht : sessionTask t' = true) : Served p t p' t' :=
  ⟨hs.trans hp, ht, .kept hl fun ω => by rw [pooled_congr hi hs, ho]⟩

theorem transition_served (h : Transition g cfg p e t p' t') (ht : sessionTask t = true)
    (hp : p.secondaryBrowsers = ∅) : Served p t p' t' := by
  cases h with
  | @leaseHit s use k =>
    obtain ⟨call, rfl⟩ : ∃ call, use = .call call := sessionTask_next (s := s) (k := k) ht
    exact .quiet rfl rfl hp (by simp) (fun _ => rfl) rfl
  | leaseMiss | noneIdle | room => exact .quiet rfl rfl hp rfl (fun _ => rfl) ht
  | popped h =>
    refine ⟨?_, ht, .kept ?_ fun ω => ?_⟩
    · obtain ⟨entry, -, -, rfl⟩ := popIdle_some h
      exact hp
    · obtain ⟨entry, -, -, rfl⟩ := popIdle_some h
      exact hold_length _ _
    · have hw := (pooled_popIdle (ω := ω) h).1
      simp only [out, releaser, between, Option.map_none, Option.getD_none, List.map_cons,
        List.map_nil, List.sum_cons, List.sum_nil]
      omega
  | @assigned s use k =>
    obtain ⟨call, rfl⟩ := sessionTask_next ht
    refine ⟨by simpa using hp, rfl, .kept (assignLease_length p s k) fun ω => ?_⟩
    have hw := pooled_assignLease (ω := ω) p s k
    simp only [out, releaser, between, Purpose.next, Option.map_none, Option.getD_none,
      List.map_cons, List.map_nil, List.sum_cons, List.sum_nil]
    omega
  | reserved h =>
    obtain ⟨-, rfl⟩ := reserveConnectionSlot_ok h
    exact ⟨hp, ht, .kept rfl fun _ => Nat.le_refl _⟩
  | rolledBack => exact ⟨hp, rfl, .kept rfl fun _ => Nat.le_refl _⟩
  | @opened s use => exact ⟨hp, ht, .opened use s rfl rfl rfl⟩
  | taken h =>
    refine ⟨hp, rfl, .kept (hold_length _ _) fun ω => ?_⟩
    have hw := pooled_releaseTake (ω := ω) h
    simp only [out, releaser, between, Option.map_none, Option.getD_none, Option.map_some,
      Option.getD_some, List.map_nil, List.sum_nil]
    omega
  | @pushed s k =>
    refine ⟨hp, rfl, .kept (unhold_length _ _) fun ω => ?_⟩
    have hw := pooled_returned (ω := ω) p e.now k
    simp only [out, releaser, between, Option.map_none, Option.getD_none, Option.map_some,
      Option.getD_some, List.map_nil, List.sum_nil]
    omega
  | @idleEvicted now =>
    have hsec : (p.evictIdle cfg now).1.secondaryBrowsers = ∅ := by
      simp only [evictIdle, holdAll_secondary]
      exact hp
    refine ⟨hsec, rfl, .kept (by simp [evictIdle, setTotal, setIdle]) fun ω => ?_⟩
    have hw := (pooled_evictIdle (ω := ω) cfg p now).1
    simp only [out, releaser, between, Option.map_none, Option.getD_none, List.map_nil,
      List.sum_nil]
    omega
  | @idleAborted now ks =>
    refine ⟨by simpa using hp, rfl, .kept (by simp) fun ω => ?_⟩
    have hw : pooled ω (p.abortAll ks) = pooled ω p := pooled_congr (by simp) (by simp)
    simp only [hw, out, releaser, between, Option.map_none, Option.getD_none, List.map_nil,
      List.sum_nil]
    omega
  | @noSecondary now =>
    obtain ⟨-, hinner, hsec, hconns⟩ := evictSecondary_of_empty hp cfg now
    exact .quiet hinner (hsec.trans hp.symm) hp (by rw [hconns]) (fun _ => rfl) rfl
  | @secondaryEvicted now h => exact absurd (evictSecondary_of_empty hp cfg now).1 h
  | returned | cancelled =>
    exact .quiet (by simp) (by simp) hp (by simp) (fun _ => rfl) rfl
  | browserHit | browserMiss | browserReserved | browserNotReserved | browserOpened
  | browserNotOpened | raced | inserted | duplicateDropped | browsed | secondaryCounted
  | secondaryAborted | innerDrained | secondaryDrained | shutDown => cases ht
  | _ => exact .quiet rfl rfl hp (by simp) (fun _ => rfl) rfl

def only (k : ConnId) : ConnId → ℕ := fun j => if j = k then 1 else 0

def occurrences (c : Config Pool Task) (k : ConnId) : ℕ :=
  pooled (only k) c.shared + (c.tasks.map (out (only k))).sum

structure Owned (c : Config Pool Task) : Prop where
  once : ∀ k, occurrences c k ≤ 1
  unborn : ∀ k, c.shared.conns.length ≤ k → occurrences c k = 0
  noSecondary : c.shared.secondaryBrowsers = ∅
  session : ∀ t ∈ c.tasks, sessionTask t = true

theorem out_starts (ω : ConnId → ℕ) (h : starts cfg t = true) : out ω t = 0 := by
  cases t <;> first | rfl | cases h

theorem out_leaseAssign (ω : ConnId → ℕ) (s : SessionId) (use : Purpose) (k : ConnId) :
    out ω (.leaseAssign s use k) = ω k := by
  simp [out, releaser, between]

theorem owned_connect (now : ℕ) : Owned (connect now) := by
  refine ⟨fun k => ?_, fun k hk => ?_, rfl, by simp [connect]⟩
  · simp only [occurrences, connect, pooled, weigh, only, List.map_cons, List.map_nil,
      List.sum_cons, List.sum_nil]
    split <;> simp
  · have hne : 0 ≠ k := by
      simp only [connect, List.length_singleton] at hk
      omega
    simp [occurrences, connect, pooled, weigh, only, hne]

theorem owned_spawn (h : Owned c) (ht : starts cfg t = true) (hsession : sessionTask t = true) :
    Owned ⟨c.shared, c.tasks ++ [t]⟩ := by
  have hocc (k : ConnId) : occurrences ⟨c.shared, c.tasks ++ [t]⟩ k = occurrences c k := by
    simp [occurrences, out_starts _ ht]
  refine ⟨fun k => hocc k ▸ h.once k, fun k hk => hocc k ▸ h.unborn k hk, h.noSecondary,
    fun u hu => ?_⟩
  rcases List.mem_append.mp hu with hu | hu
  · exact h.session u hu
  · exact List.mem_singleton.mp hu ▸ hsession

theorem owned_step {i : ℕ} (h : Owned c) (hi : c.tasks[i]? = some t)
    (hs : ConnectionPool.step g cfg c.shared t e = some (p', t')) :
    Owned ⟨p', c.tasks.set i t'⟩ := by
  obtain ⟨hsec, hsession, hmoved⟩ := transition_served (step_transition hs)
    (h.session t (List.mem_of_getElem? hi)) h.noSecondary
  have hset (k : ConnId) := sum_map_set (out (only k)) hi t'
  have htasks : ∀ u ∈ c.tasks.set i t', sessionTask u = true := by
    intro u hu
    rcases List.mem_or_eq_of_mem_set hu with hu | rfl
    · exact h.session u hu
    · exact hsession
  cases hmoved with
  | kept length weight =>
    have hle (k : ConnId) : occurrences ⟨p', c.tasks.set i t'⟩ k ≤ occurrences c k := by
      have hw := weight (only k)
      have hk := hset k
      simp only [occurrences]
      omega
    refine ⟨fun k => (hle k).trans (h.once k), fun k hk => ?_, hsec, htasks⟩
    rw [length] at hk
    exact Nat.le_zero.mp (h.unborn k hk ▸ hle k)
  | opened use s started pool next =>
    subst started pool next
    have hocc (k : ConnId) : occurrences ⟨c.shared.add.1, c.tasks.set i
        (.leaseAssign s use c.shared.conns.length)⟩ k =
        occurrences c k + only k c.shared.conns.length := by
      have hk := hset k
      have hpool : pooled (only k) c.shared.add.1 = pooled (only k) c.shared := rfl
      have hold : out (only k) (.leaseOpening s use) = 0 := rfl
      rw [out_leaseAssign, hold] at hk
      simp only [occurrences, hpool]
      omega
    have hlen : c.shared.add.1.conns.length = c.shared.conns.length + 1 := by simp [add]
    refine ⟨fun k => ?_, fun k hk => ?_, hsec, htasks⟩
    · rw [hocc]
      by_cases hk : c.shared.conns.length = k
      · rw [h.unborn k (Nat.le_of_eq hk), only, if_pos hk]
      · rw [only, if_neg hk]
        exact h.once k
    · rw [hlen] at hk
      have hne : c.shared.conns.length ≠ k := by omega
      rw [hocc, h.unborn k (by omega), only, if_neg hne]

/-- Connection `k` is leased to `s`, or a release of `s` has taken it and not put it back. -/
def Has (c : Config Pool Task) (s : SessionId) (k : ConnId) : Prop :=
  c.shared.inner.leased.lookup s = some k ∨ ∃ u ∈ c.tasks, releaser u = some (s, k)

/-- Connection `k` is idle, or an operation has it for no session yet, or evicts it. -/
def Loose (c : Config Pool Task) (k : ConnId) : Prop :=
  (∃ entry ∈ c.shared.inner.idle, entry.conn = k) ∨ ∃ u ∈ c.tasks, k ∈ between u

theorem only_self (k : ConnId) : only k k = 1 := if_pos rfl

theorem out_releaser (h : releaser t = some (s, k)) : 1 ≤ out (only k) t := by
  simp [out, h, only_self]

theorem le_sum_of_mem {ω : ConnId → ℕ} {ks : List ConnId} (h : k ∈ ks) : ω k ≤ (ks.map ω).sum :=
  List.single_le_sum (by simp) _ (List.mem_map_of_mem h)

theorem out_between (h : k ∈ between t) : 1 ≤ out (only k) t := by
  have hle := le_sum_of_mem (ω := only k) h
  rw [only_self] at hle
  simp only [out]
  omega

theorem not_releaser_of_between (h : k ∈ between t) : releaser t = none := by
  cases t <;> first | rfl | cases h

theorem weigh_leased (h : c.shared.inner.leased.lookup s = some k) :
    1 ≤ weigh (only k) c.shared.inner.leased :=
  only_self k ▸ le_weigh h

theorem has_leased_releaser (h : Owned c) (hl : c.shared.inner.leased.lookup s = some k)
    (hu : u ∈ c.tasks) (hr : releaser u = some (s', k)) : False := by
  have honce := h.once k
  have hweigh := weigh_leased hl
  have hout := out_releaser hr
  obtain ⟨i, hi⟩ := List.getElem?_of_mem hu
  have hsum : out (only k) u ≤ _ := le_sum_map (out (only k)) hi
  simp only [occurrences, pooled] at honce
  omega

theorem has_born (h : Owned c) (hs : Has c s k) : k < c.shared.conns.length := by
  by_contra hk
  have hzero := h.unborn k (Nat.le_of_not_lt hk)
  simp only [occurrences, pooled] at hzero
  rcases hs with hl | ⟨u, hu, hr⟩
  · have hweigh := weigh_leased hl
    omega
  · have hout := out_releaser hr
    obtain ⟨i, hi⟩ := List.getElem?_of_mem hu
    have hsum : out (only k) u ≤ _ := le_sum_map (out (only k)) hi
    omega

/-- At most one session has a connection. -/
theorem has_unique (h : Owned c) (hs : Has c s k) (hs' : Has c s' k) : s = s' := by
  rcases hs with hl | ⟨u, hu, hr⟩ <;> rcases hs' with hl' | ⟨u', hu', hr'⟩
  · by_contra hne
    have hle := add_le_weigh (w := only k) hl hl' hne
    have honce := h.once k
    rw [only_self] at hle
    simp only [occurrences, pooled] at honce
    omega
  · exact (has_leased_releaser h hl hu' hr').elim
  · exact (has_leased_releaser h hl' hu hr).elim
  · by_cases heq : u = u'
    · subst heq
      exact (Prod.mk.inj (Option.some.inj (hr.symm.trans hr'))).1
    · have hle := add_le_sum_map (out (only k)) hu hu' heq
      have hout := out_releaser hr
      have hout' := out_releaser hr'
      have honce := h.once k
      simp only [occurrences] at honce
      omega

/-- A connection that a session has is not loose. -/
theorem not_loose_of_has (h : Owned c) (hs : Has c s k) : ¬Loose c k := by
  have honce := h.once k
  simp only [occurrences, pooled] at honce
  have hidle {entry : IdleEntry} (he : entry ∈ c.shared.inner.idle) (hk : entry.conn = k) :
      1 ≤ (c.shared.inner.idle.map (only k ·.conn)).sum := by
    have hle := List.single_le_sum (by simp) _
      (List.mem_map_of_mem (f := fun e : IdleEntry => only k e.conn) he)
    rwa [hk, only_self] at hle
  rcases hs with hl | ⟨u, hu, hr⟩
  · have hweigh := weigh_leased hl
    rintro (⟨entry, he, hk⟩ | ⟨u, hu, hb⟩)
    · have := hidle he hk
      omega
    · have hout := out_between hb
      obtain ⟨i, hi⟩ := List.getElem?_of_mem hu
      have hsum : out (only k) u ≤ _ := le_sum_map (out (only k)) hi
      omega
  · have hout := out_releaser hr
    rintro (⟨entry, he, hk⟩ | ⟨u', hu', hb⟩)
    · have := hidle he hk
      obtain ⟨i, hi⟩ := List.getElem?_of_mem hu
      have hsum : out (only k) u ≤ _ := le_sum_map (out (only k)) hi
      omega
    · have hne : u ≠ u' := by
        rintro rfl
        rw [not_releaser_of_between hb] at hr
        cases hr
      have hle := add_le_sum_map (out (only k)) hu hu' hne
      have hout' := out_between hb
      omega

end SshCommander.ConnectionOwnership
