import SshCommander.IdleEviction

/-!
# How old an idle connection gets

A sweep of the eviction loop leaves at most `min_idle` connections that had aged when it read the
clock, and what is released later is younger. So the age of all others is bounded by the timeout
and the time since the last sweep.
-/

namespace SshCommander.IdleAges
open InterleavedTasks InterleavedTasks.TaskSystem ConnectionPool ConnectionPool.Pool PoolLedger
  PoolAccounting IdleEviction SessionCalls

/-- `EVICTION_INTERVAL`, the period of the ticker of `run_eviction`, in seconds. -/
def evictionInterval : ℕ := 30

/-- The latest time at which a sweep that has gone over the idle list read the clock; the time of
the connect before the first one. -/
def noteSweep (c : Config Pool Task) : Action Task Event → ℕ → ℕ
  | .spawn _, swept => swept
  | .advance i _, swept =>
    match c.tasks[i]? with
    | some (.evictIdle now) => max swept now
    | _ => swept

def lastSweep (g : PostgresWire.Grammar) (cfg : PgConfig) (now : ℕ)
    (as : List (Action Task Event)) : ℕ :=
  (system g cfg).noted noteSweep (connect now) now as

/-- An idle entry that a sweep at that time would have found aged. -/
def leftOver (cfg : PgConfig) (swept : ℕ) (entry : IdleEntry) : Bool :=
  decide (entry.since + cfg.idleTimeout ≤ swept ∧ entry.since < swept)

def olderThan (age now : ℕ) (idle : List IdleEntry) : List IdleEntry :=
  idle.filter fun entry => decide (entry.since + age < now)

variable {g : PostgresWire.Grammar} {cfg : PgConfig} {p p' : Pool} {t t' : Task} {e : Event}
  {c c' d : Config Pool Task} {as : List (Action Task Event)} {idle idle' : List IdleEntry}
  {now swept swept' : ℕ}

def LeftOvers (cfg : PgConfig) (swept : ℕ) (idle : List IdleEntry) : Prop :=
  (idle.filter (leftOver cfg swept)).length ≤ cfg.minIdle

theorem LeftOvers.sublist (h : LeftOvers cfg swept idle) (hsub : idle'.Sublist idle) :
    LeftOvers cfg swept idle' :=
  (hsub.filter _).length_le.trans h

/-- What is released after a sweep is none of its left overs. -/
theorem LeftOvers.push (h : LeftOvers cfg swept idle) (hnow : swept ≤ now) (k : ConnId) :
    LeftOvers cfg swept (idle ++ [⟨now, k⟩]) := by
  have hnew : leftOver cfg swept ⟨now, k⟩ = false :=
    decide_eq_false fun hold => Nat.not_lt.mpr hnow hold.2
  rw [LeftOvers, List.filter_append, List.filter_cons_of_neg (by simp [hnew]), List.filter_nil,
    List.append_nil]
  exact h

/-- A sweep keeps no more of the aged entries than `min_idle`. -/
theorem leftOvers_evictIdle (h : Ordered p.inner.idle) (cfg : PgConfig) (now : ℕ) :
    LeftOvers cfg now (p.evictIdle cfg now).1.inner.idle := by
  have hyoung : (p.inner.idle.filter (! aged cfg now ·)).filter (leftOver cfg now) = [] := by
    rw [List.filter_filter, List.filter_eq_nil_iff]
    intro entry _ hboth
    simp only [leftOver, aged, Bool.and_eq_true, decide_eq_true_eq, Bool.not_eq_true',
      decide_eq_false_iff_not] at hboth
    omega
  rw [LeftOvers, (evictIdle_kept h cfg now).1, List.filter_append, hyoung, List.append_nil]
  exact (List.length_filter_le _ _).trans (List.length_take_le _ _)

/-- No sweep has read a time that is yet to come. -/
structure Swept (cfg : PgConfig) (now : ℕ) (c : Config Pool Task) (swept : ℕ) : Prop where
  ordered : OrderedUntil now c.shared.inner.idle
  past : swept ≤ now
  reading : ∀ t ∈ c.tasks, ∀ reading, t = .evictIdle reading → reading ≤ now
  leftOvers : LeftOvers cfg swept c.shared.inner.idle

theorem transition_reading (h : Transition g cfg p e t p' t') (ht : t' = .evictIdle now) :
    now = e.now := by
  cases h with
  | clockRead =>
    cases ht
    rfl
  | @leaseHit _ use | @assigned _ use => cases use <;> cases ht
  | _ => cases ht

theorem Swept.spawn (h : Swept cfg now c swept) (hs : ConnectionPool.starts cfg t = true) :
    Swept cfg now ⟨c.shared, c.tasks ++ [t]⟩ swept := by
  refine ⟨h.ordered, h.past, ?_, h.leftOvers⟩
  intro u hu reading heq
  rcases List.mem_append.mp hu with hu | hu
  · exact h.reading u hu reading heq
  · obtain rfl := List.mem_singleton.mp hu
    subst heq
    cases hs

theorem Swept.advance {i : ℕ} (h : Swept cfg now c swept) (hnow : now ≤ e.now)
    (hi : c.tasks[i]? = some t) (hs : Transition g cfg c.shared e t p' t') :
    Swept cfg e.now ⟨p', c.tasks.set i t'⟩ (noteSweep c (.advance i e) swept) := by
  have hmem : t ∈ c.tasks := List.mem_of_getElem? hi
  have hreading (u : Task) (hu : u ∈ c.tasks.set i t') (reading : ℕ)
      (heq : u = .evictIdle reading) : reading ≤ e.now := by
    rcases List.mem_or_eq_of_mem_set hu with hu | rfl
    · exact (h.reading u hu reading heq).trans hnow
    · exact (transition_reading hs heq).le
  have hkept : LeftOvers cfg swept p'.inner.idle := by
    rcases transition_idle hs with hsub | ⟨k, hk⟩
    · exact h.leftOvers.sublist hsub
    · rw [hk]
      exact h.leftOvers.push (h.past.trans hnow) k
  simp only [noteSweep, hi]
  split
  · rename_i reading heq
    obtain rfl := Option.some.inj heq
    have hpast := h.reading _ hmem reading rfl
    refine ⟨h.ordered.transition hnow hs, max_le (h.past.trans hnow) (hpast.trans hnow), hreading, ?_⟩
    rcases Nat.le_total reading swept with hle | hle
    · rwa [max_eq_left hle]
    · rw [max_eq_right hle]
      cases hs
      exact leftOvers_evictIdle h.ordered.ordered cfg reading
  · exact ⟨h.ordered.transition hnow hs, h.past.trans hnow, hreading, hkept⟩

theorem run_swept (h : Swept cfg now c swept) (hclock : Clocked now as)
    (hr : (system g cfg).run c as = some d) :
    LeftOvers cfg ((system g cfg).noted noteSweep c swept as) d.shared.inner.idle := by
  induction as generalizing c now swept with
  | nil => exact Option.some.inj hr ▸ h.leftOvers
  | cons a as ih =>
    obtain ⟨c', hact, hr⟩ := run_cons hr
    simp only [noted, hact]
    rcases act_cases hact with ⟨t, rfl, hs, rfl⟩ | ⟨i, e, t, p', t', rfl, hi, hs, rfl⟩
    · exact ih (h.spawn hs) hclock hr
    · have hstep : ConnectionPool.step g cfg c.shared t e = some (p', t') := hs
      exact ih (h.advance hclock.1 hi (step_transition hstep)) hclock.2 hr

/-- In every run whose clock does not go back, with any calls, sweeps and shutdowns at once: as
long as the last sweep is no further back than the eviction interval, at most `min_idle` idle
connections have been idle for longer than `idle_timeout` and the interval. -/
theorem idle_ages_bounded (g : PostgresWire.Grammar) (cfg : PgConfig) (start : ℕ)
    (as : List (Action Task Event)) (d : Config Pool Task) (hclock : Clocked start as)
    (hr : (system g cfg).run (connect start) as = some d) (now : ℕ)
    (hswept : now ≤ lastSweep g cfg start as + evictionInterval) :
    (olderThan (cfg.idleTimeout + evictionInterval) now d.shared.inner.idle).length ≤
      cfg.minIdle := by
  have hfirst : ∀ entry ∈ (connect start).shared.inner.idle, entry.since = start := by
    intro entry he
    obtain rfl := List.mem_singleton.mp he
    rfl
  have hstart : Swept cfg start (connect start) start := by
    refine ⟨⟨List.pairwise_singleton _ _, fun entry he => (hfirst entry he).le⟩, le_refl _,
      nofun, ?_⟩
    have hnone : (connect start).shared.inner.idle.filter (leftOver cfg start) = [] := by
      rw [List.filter_eq_nil_iff]
      intro entry he hold
      have hsince := hfirst entry he
      simp only [leftOver, decide_eq_true_eq] at hold
      omega
    rw [LeftOvers, hnone]
    exact Nat.zero_le _
  refine le_trans (List.Sublist.length_le ?_) (run_swept hstart hclock hr)
  refine List.monotone_filter_right _ fun entry hold => ?_
  rw [decide_eq_true_eq] at hold
  rw [lastSweep] at hswept
  exact decide_eq_true (by omega)

/-- A session is released, and a sweep five minutes later drops its connection. -/
def releasedThenSwept : List (Action Task Event) :=
  browse :: sections [0, 0, 0, 0] ++
    .spawn (.releaseTake browserSessionId) :: List.replicate 5 (.advance 1 { tick with now := 7 }) ++
    .spawn .evict :: List.replicate 4 (.advance 2 { tick with now := 310 })

theorem idle_ages_bounded_releasedThenSwept :
    ∃ d, (system smallServer { defaultPool with minIdleConnections := some 0 }).run (connect 0)
        releasedThenSwept = some d ∧
      (olderThan 330 340 d.shared.inner.idle).length ≤ 0 := by
  obtain ⟨d, hd⟩ := Option.isSome_iff_exists.mp
    (show ((system smallServer { defaultPool with minIdleConnections := some 0 }).run (connect 0)
      releasedThenSwept).isSome by decide +kernel)
  exact ⟨d, hd, idle_ages_bounded smallServer { defaultPool with minIdleConnections := some 0 } 0
    releasedThenSwept d (by decide) hd 340 (by decide +kernel)⟩

end SshCommander.IdleAges
