import SshCommander.PoolLedger

/-!
# The count of connections

In every interleaving without a shutdown, `total` covers every stored connection, every
connection an operation has out and every reserved slot, and stays within the pool's bound. The
two sides differ by the leases that were replaced, whose connections nothing counts down.
-/

namespace SshCommander.PoolAccounting
open InterleavedTasks InterleavedTasks.TaskSystem MapWeights ConnectionPool ConnectionPool.Pool
  SessionCalls PoolLedger

variable {g : PostgresWire.Grammar} {cfg : PgConfig} {c c' d : Config Pool Task}
  {a : Action Task Event} {as : List (Action Task Event)}

def outstanding (ts : List Task) : ℕ := (ts.map claims).sum

structure Accounted (cfg : PgConfig) (c : Config Pool Task) : Prop where
  covered : stored c.shared + outstanding c.tasks ≤ c.shared.inner.total
  bound : c.shared.inner.total ≤ cfg.maxSize
  noShutdown : ∀ t ∈ c.tasks, isShutdown t = false

/-- What `total` counts and nothing accounts for. -/
def leaked (c : Config Pool Task) : ℕ :=
  c.shared.inner.total - (stored c.shared + outstanding c.tasks)

def leaksAt (c : Config Pool Task) : Action Task Event → ℕ
  | .spawn _ => 0
  | .advance i _ => match c.tasks[i]? with
    | none => 0
    | some t => leaks c.shared t

theorem claims_starts {t : Task} (h : starts cfg t = true) : claims t = 0 := by
  cases t <;> first | rfl | cases h

theorem isShutdown_starts {t : Task} (h : starts cfg t = true) (hne : t ≠ .shutdownInner) :
    isShutdown t = false := by
  cases t <;> first | rfl | exact absurd rfl hne | cases h

theorem act_accounted (h : Accounted cfg c) (ha : a ≠ .spawn .shutdownInner)
    (hact : (system g cfg).act c a = some c') :
    Accounted cfg c' ∧ leaked c' = leaked c + leaksAt c a := by
  have hcov := h.covered
  rcases act_cases hact with ⟨t, rfl, ht, rfl⟩ | ⟨i, e, t, p', t', rfl, hi, hs, rfl⟩
  · have hout : outstanding (c.tasks ++ [t]) = outstanding c.tasks := by
      simp [outstanding, claims_starts ht]
    refine ⟨⟨by rw [hout]; exact hcov, h.bound, fun u hu => ?_⟩, ?_⟩
    · rcases List.mem_append.mp hu with hu | hu
      · exact h.noShutdown u hu
      · obtain rfl := List.mem_singleton.mp hu
        exact isShutdown_starts ht fun heq => ha (by rw [heq])
    · simp only [leaked, hout, leaksAt, Nat.add_zero]
  · have hmem := List.mem_of_getElem? hi
    have hle := le_sum_map claims hi
    have hset := sum_map_set claims hi t'
    obtain ⟨books, bound, noShutdown⟩ := transition_balanced (step_transition hs)
      (h.noShutdown t hmem) (by simp only [outstanding] at hcov; omega)
    refine ⟨⟨?_, bound h.bound, fun u hu => ?_⟩, ?_⟩
    · simp only [outstanding] at hcov ⊢
      omega
    · rcases List.mem_or_eq_of_mem_set hu with hu | rfl
      · exact h.noShutdown u hu
      · exact noShutdown
    · simp only [leaked, outstanding, leaksAt, hi] at hcov ⊢
      omega

theorem accounted_connect (cfg : PgConfig) (now : ℕ) : Accounted cfg (connect now) :=
  ⟨le_refl 1, cfg.maxSize_pos, by simp [connect]⟩

theorem run_accounted {now : ℕ} (hns : Action.spawn .shutdownInner ∉ as)
    (hr : (system g cfg).run (connect now) as = some d) :
    Accounted cfg d ∧ leaked d = (system g cfg).gained leaksAt (connect now) as := by
  have hm : (system g cfg).Meets (fun _ a => a ≠ .spawn .shutdownInner) (connect now) as :=
    meets_of_forall fun a ha heq => hns (heq ▸ ha)
  refine ⟨run_invariant (fun c a c' h ha hact => (act_accounted h ha hact).1)
    (accounted_connect cfg now) hm hr, ?_⟩
  rw [run_gained (m := leaked) (fun c a c' h ha hact => (act_accounted h ha hact).1)
    (fun c a c' h ha hact => (act_accounted h ha hact).2) (accounted_connect cfg now) hm hr]
  exact Nat.zero_add _

theorem stored_eq (p : Pool) : stored p = p.inner.idle.length + p.inner.leased.entries.length +
    p.secondaryBrowsers.entries.length := by
  simp [stored, pooled, weigh]

/-- How often the next section of an operation subtracts one from `total`. -/
def subtractions (cfg : PgConfig) (p : Pool) : Task → ℕ
  | .slotRollBack _ | .browserDuplicate .. => 1
  | .evictIdle now => (p.evictIdle cfg now).2.length
  | .evictSecondaryTotal ks => ks.length
  | _ => 0

theorem length_eq_sum (ks : List ConnId) : (ks.map fun _ => 1).sum = ks.length := by simp

/-- An operation subtracts what it claims, but for the idle connections it takes out. -/
theorem subtractions_le (cfg : PgConfig) (p : Pool) (t : Task) :
    subtractions cfg p t ≤ stored p + claims t := by
  cases t with
  | evictIdle now =>
    have h := (pooled_evictIdle (ω := fun _ => 1) cfg p now).1
    rw [length_eq_sum] at h
    simp only [subtractions, stored]
    omega
  | evictSecondaryTotal ks =>
    simp only [subtractions, claims, held, length_eq_sum]
    omega
  | slotRollBack | browserDuplicate =>
    simp only [subtractions, claims, held, reserved]
    omega
  | _ => exact Nat.zero_le _

/-- In every interleaving without a shutdown `total` covers all that is stored, held and
reserved, stays within `max_size`, and no operation subtracts more from it than it has. -/
theorem total_bounded (g : PostgresWire.Grammar) (cfg : PgConfig) (now : ℕ)
    (as : List (Action Task Event)) (d : Config Pool Task)
    (hns : Action.spawn .shutdownInner ∉ as)
    (hr : (system g cfg).run (connect now) as = some d) :
    d.shared.inner.idle.length + d.shared.inner.leased.entries.length +
        d.shared.secondaryBrowsers.entries.length + (d.tasks.map (held fun _ => 1)).sum +
        (d.tasks.map reserved).sum ≤ d.shared.inner.total ∧
      d.shared.inner.total ≤ cfg.maxSize ∧
      ∀ t ∈ d.tasks, subtractions cfg d.shared t ≤ d.shared.inner.total := by
  have h := (run_accounted hns hr).1
  have hcov := h.covered
  refine ⟨?_, h.bound, fun t ht => ?_⟩
  · have hsum : outstanding d.tasks =
        (d.tasks.map (held fun _ => 1)).sum + (d.tasks.map reserved).sum := List.sum_map_add
    rw [stored_eq, hsum] at hcov
    omega
  · obtain ⟨i, hi⟩ := List.getElem?_of_mem ht
    have hle : claims t ≤ outstanding d.tasks := le_sum_map claims hi
    have hsub := subtractions_le cfg d.shared t
    omega

/-- Two browser operations find no lease; one takes the idle connection, the other opens one. -/
def racedBrowsers : List (Action Task Event) :=
  browse :: browse :: sections [0, 1, 0, 1, 1, 1, 1, 0, 1, 0, 1]

theorem shutdown_notMem_racedBrowsers : Action.spawn Task.shutdownInner ∉ racedBrowsers := by
  simp [racedBrowsers, browse, spawn_notMem_sections]

theorem total_bounded_racedBrowsers :
    ∃ d, (system smallServer defaultPool).run (connect 0) racedBrowsers = some d ∧
      (d.shared.inner.idle.length + d.shared.inner.leased.entries.length +
          d.shared.secondaryBrowsers.entries.length + (d.tasks.map (held fun _ => 1)).sum +
          (d.tasks.map reserved).sum ≤ d.shared.inner.total ∧
        d.shared.inner.total ≤ defaultPool.maxSize ∧
        ∀ t ∈ d.tasks, subtractions defaultPool d.shared t ≤ d.shared.inner.total) := by
  obtain ⟨d, hd⟩ := Option.isSome_iff_exists.mp
    (show ((system smallServer defaultPool).run (connect 0) racedBrowsers).isSome by
      decide +kernel)
  exact ⟨d, hd, total_bounded smallServer defaultPool 0 racedBrowsers d
    shutdown_notMem_racedBrowsers hd⟩

/-- The action does not assign a lease to a session that has one. -/
def AssignsNew (c : Config Pool Task) : Action Task Event → Prop
  | .spawn _ => True
  | .advance i _ => ∀ s use k, c.tasks[i]? = some (.leaseAssign s use k) →
    c.shared.inner.leased.lookup s = none

theorem leaksAt_eq_zero (c : Config Pool Task) (a : Action Task Event) :
    leaksAt c a = 0 ↔ AssignsNew c a := by
  cases a with
  | spawn t => exact ⟨fun _ => trivial, fun _ => rfl⟩
  | advance i e =>
    simp only [leaksAt, AssignsNew]
    cases hi : c.tasks[i]? with
    | none => simp
    | some t =>
      cases t with
      | leaseAssign s use k => cases hl : c.shared.inner.leased.lookup s <;> simp [leaks, replaced, hl]
      | _ => simp [leaks]

theorem outstanding_of_done {ts : List Task} (h : ∀ t ∈ ts, t.done = true) : outstanding ts = 0 := by
  refine sum_map_eq_zero claims fun t ht => ?_
  have := h t ht
  cases t <;> first | rfl | cases this

/-- Once no operation is in flight, `total` is the number of stored connections exactly when no
lease was assigned to a session that had one. -/
theorem total_matches_iff (g : PostgresWire.Grammar) (cfg : PgConfig) (now : ℕ)
    (as : List (Action Task Event)) (d : Config Pool Task)
    (hns : Action.spawn .shutdownInner ∉ as)
    (hr : (system g cfg).run (connect now) as = some d) (hdone : ∀ t ∈ d.tasks, t.done = true) :
    d.shared.inner.total = d.shared.inner.idle.length + d.shared.inner.leased.entries.length +
        d.shared.secondaryBrowsers.entries.length ↔
      (system g cfg).Meets AssignsNew (connect now) as := by
  obtain ⟨hacc, hleak⟩ := run_accounted hns hr
  have hcov := hacc.covered
  have hout : outstanding d.tasks = 0 := outstanding_of_done hdone
  have hmeets : (system g cfg).Meets AssignsNew (connect now) as ↔ leaked d = 0 := by
    rw [hleak, gained_eq_zero]
    exact ⟨meets_mono fun c a => (leaksAt_eq_zero c a).mpr,
      meets_mono fun c a => (leaksAt_eq_zero c a).mp⟩
  rw [hmeets, ← stored_eq]
  simp only [leaked, hout] at hcov ⊢
  omega

theorem total_matches_iff_racedBrowsers :
    ∃ d, (system smallServer defaultPool).run (connect 0) racedBrowsers = some d ∧
      (d.shared.inner.total = d.shared.inner.idle.length + d.shared.inner.leased.entries.length +
          d.shared.secondaryBrowsers.entries.length ↔
        (system smallServer defaultPool).Meets AssignsNew (connect 0) racedBrowsers) := by
  have hrun : ∃ d, (system smallServer defaultPool).run (connect 0) racedBrowsers = some d ∧
      ∀ t ∈ d.tasks, t.done = true := run_decided (by decide +kernel)
  obtain ⟨d, hd, hdone⟩ := hrun
  exact ⟨d, hd, total_matches_iff smallServer defaultPool 0 racedBrowsers d
    shutdown_notMem_racedBrowsers hd hdone⟩

/-- Both operations have returned; `total` is two, and one connection is stored. -/
theorem racedBrowsers_leaked :
    Action.spawn Task.shutdownInner ∉ racedBrowsers ∧
      ∃ d, (system smallServer defaultPool).run (connect 0) racedBrowsers = some d ∧
        (∀ t ∈ d.tasks, t.done = true) ∧
        d.shared.inner.total ≠ d.shared.inner.idle.length +
          d.shared.inner.leased.entries.length + d.shared.secondaryBrowsers.entries.length := by
  exact ⟨shutdown_notMem_racedBrowsers, run_decided (by decide +kernel)⟩

end SshCommander.PoolAccounting
