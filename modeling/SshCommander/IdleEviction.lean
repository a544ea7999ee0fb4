import SshCommander.PoolAccounting

/-!
# What the idle eviction keeps

A connection goes to the back of the idle list with the time of its release, and is taken from
the back. So the list is ordered by age, the aged entries come first, and the eviction pins the
first of them.
-/

namespace SshCommander.IdleEviction
open InterleavedTasks InterleavedTasks.TaskSystem ConnectionPool ConnectionPool.Pool PoolLedger
  PoolAccounting SessionCalls

variable {g : PostgresWire.Grammar} {cfg : PgConfig} {p p' : Pool} {t t' : Task} {e : Event}
  {now : ℕ} {idle old young keep rest : List IdleEntry} {drop : List ConnId}

def aged (cfg : PgConfig) (now : ℕ) (entry : IdleEntry) : Bool :=
  decide (cfg.idleTimeout ≤ now - entry.since)

def Ordered (idle : List IdleEntry) : Prop :=
  idle.Pairwise fun entry later => entry.since ≤ later.since

theorem evictLoop_young (h : ∀ entry ∈ young, aged cfg now entry = false) :
    evictLoop cfg now young keep drop = (keep ++ young, drop) := by
  induction young generalizing keep with
  | nil => rw [evictLoop, List.append_nil]
  | cons entry young ih =>
    have hyoung : ¬cfg.idleTimeout ≤ now - entry.since :=
      of_decide_eq_false (h entry List.mem_cons_self)
    rw [evictLoop, if_pos (.inl hyoung), ih fun e he => h e (List.mem_cons_of_mem _ he),
      List.append_assoc, List.singleton_append]

/-- Aged entries are kept up to `min_idle` and dropped from there. -/
theorem evictLoop_aged (h : ∀ entry ∈ old, aged cfg now entry = true) :
    evictLoop cfg now (old ++ rest) keep drop =
      evictLoop cfg now rest (keep ++ old.take (cfg.minIdle - keep.length))
        (drop ++ (old.drop (cfg.minIdle - keep.length)).map (·.conn)) := by
  induction old generalizing keep drop with
  | nil => simp
  | cons entry old ih =>
    have haged : cfg.idleTimeout ≤ now - entry.since :=
      of_decide_eq_true (h entry List.mem_cons_self)
    have hold : ∀ entry ∈ old, aged cfg now entry = true :=
      fun e he => h e (List.mem_cons_of_mem _ he)
    by_cases hroom : keep.length < cfg.minIdle
    · have hsucc : cfg.minIdle - keep.length =
          cfg.minIdle - (keep ++ [entry]).length + 1 := by
        rw [List.length_append, List.length_singleton]
        omega
      rw [List.cons_append, evictLoop, if_pos (.inr hroom), ih hold, hsucc, List.take_succ_cons,
        List.drop_succ_cons, List.append_assoc, List.singleton_append]
    · have hfull : cfg.minIdle - keep.length = 0 := by omega
      have hdrop : ¬(¬cfg.idleTimeout ≤ now - entry.since ∨ keep.length < cfg.minIdle) := by
        rintro (hyoung | hlt)
        · exact hyoung haged
        · exact hroom hlt
      rw [List.cons_append, evictLoop, if_neg hdrop, ih hold, hfull]
      simp

/-- What is kept comes in its order. -/
theorem evictLoop_sublist (cfg : PgConfig) (now : ℕ) (rest keep : List IdleEntry)
    (drop : List ConnId) : (evictLoop cfg now rest keep drop).1.Sublist (keep ++ rest) := by
  induction rest generalizing keep drop with
  | nil => simp [evictLoop]
  | cons entry rest ih =>
    rw [evictLoop]
    split
    · simpa using ih (keep ++ [entry]) drop
    · exact (ih keep _).trans (List.Sublist.append_left (List.sublist_cons_self entry rest) keep)

/-- An ordered list begins with its aged entries. -/
theorem aged_first (h : Ordered idle) (cfg : PgConfig) (now : ℕ) :
    idle = idle.filter (aged cfg now) ++ idle.filter (! aged cfg now ·) := by
  induction idle with
  | nil => rfl
  | cons entry idle ih =>
    obtain ⟨hfirst, hrest⟩ := List.pairwise_cons.mp h
    cases ha : aged cfg now entry with
    | true =>
      rw [List.filter_cons_of_pos ha, List.filter_cons_of_neg (by simp [ha]), List.cons_append,
        ← ih hrest]
    | false =>
      have hyoung : ∀ later ∈ entry :: idle, aged cfg now later = false := by
        intro later hlater
        have hsince : entry.since ≤ later.since := by
          rcases List.mem_cons.mp hlater with rfl | hlater
          · exact le_refl _
          · exact hfirst later hlater
        have hnot : ¬cfg.idleTimeout ≤ now - entry.since := of_decide_eq_false ha
        exact decide_eq_false (by omega)
      have hnone : (entry :: idle).filter (aged cfg now) = [] :=
        List.filter_eq_nil_iff.mpr fun later hl => by simp [hyoung later hl]
      have hall : (entry :: idle).filter (! aged cfg now ·) = entry :: idle :=
        List.filter_eq_self.mpr fun later hl => by simp [hyoung later hl]
      rw [hnone, hall, List.nil_append]

/-- An eviction of an ordered list. -/
theorem evictLoop_ordered (h : Ordered idle) (cfg : PgConfig) (now : ℕ) :
    evictLoop cfg now idle [] [] =
      ((idle.filter (aged cfg now)).take cfg.minIdle ++ idle.filter (! aged cfg now ·),
        ((idle.filter (aged cfg now)).drop cfg.minIdle).map (·.conn)) := by
  have hold : ∀ entry ∈ idle.filter (aged cfg now), aged cfg now entry = true :=
    fun entry he => (List.mem_filter.mp he).2
  have hyoung : ∀ entry ∈ idle.filter (! aged cfg now ·), aged cfg now entry = false :=
    fun entry he => by simpa using (List.mem_filter.mp he).2
  conv_lhs => rw [aged_first h cfg now]
  rw [evictLoop_aged hold, evictLoop_young hyoung]
  rfl

theorem evictIdle_idle (cfg : PgConfig) (p : Pool) (now : ℕ) :
    (p.evictIdle cfg now).1.inner.idle = (evictLoop cfg now p.inner.idle [] []).1 := by
  rw [Pool.evictIdle, holdAll_inner]
  rfl

/-- A section takes entries out of the idle list, or puts one at its back with the time. -/
theorem transition_idle (h : Transition g cfg p e t p' t') :
    p'.inner.idle.Sublist p.inner.idle ∨ ∃ k, p'.inner.idle = p.inner.idle ++ [⟨e.now, k⟩] := by
  cases h with
  | popped h =>
    obtain ⟨entry, -, -, rfl⟩ := popIdle_some h
    exact .inl (List.dropLast_sublist _)
  | @pushed s k => exact .inr ⟨k, rfl⟩
  | @idleEvicted now =>
    refine .inl ?_
    rw [evictIdle_idle]
    exact evictLoop_sublist cfg now p.inner.idle [] []
  | noSecondary | secondaryEvicted =>
    refine .inl ?_
    rw [evictSecondary_inner]
  | innerDrained =>
    refine .inl ?_
    rw [drainInner, holdAll_inner]
    exact List.nil_sublist _
  | secondaryDrained =>
    refine .inl ?_
    rw [drainSecondary, holdAll_inner]
    exact List.Sublist.refl _
  | reserved h | browserReserved h =>
    obtain ⟨-, rfl⟩ := reserveConnectionSlot_ok h
    exact .inl (List.Sublist.refl _)
  | assigned => exact .inl (by rw [assignLease_idle])
  | returned | cancelled | browsed | duplicateDropped | idleAborted | secondaryAborted | shutDown =>
    refine .inl ?_
    simp only [letGo_inner, abortAll_inner]
    exact List.Sublist.refl _
  | _ => exact .inl (List.Sublist.refl _)

/-- No section takes place before `now` or before an earlier one. -/
def Clocked : ℕ → List (Action Task Event) → Prop
  | _, [] => True
  | now, .spawn _ :: as => Clocked now as
  | now, .advance _ e :: as => now ≤ e.now ∧ Clocked e.now as

instance decidableClocked : (now : ℕ) → (as : List (Action Task Event)) → Decidable (Clocked now as)
  | _, [] => .isTrue trivial
  | now, .spawn _ :: as => decidableClocked now as
  | now, .advance _ e :: as =>
    have := decidableClocked e.now as
    inferInstanceAs (Decidable (now ≤ e.now ∧ Clocked e.now as))

/-- The idle list is ordered, and nothing in it is from after `now`. -/
structure OrderedUntil (now : ℕ) (idle : List IdleEntry) : Prop where
  ordered : Ordered idle
  past : ∀ entry ∈ idle, entry.since ≤ now

theorem OrderedUntil.transition (h : OrderedUntil now p.inner.idle) (hnow : now ≤ e.now)
    (hstep : Transition g cfg p e t p' t') : OrderedUntil e.now p'.inner.idle := by
  rcases transition_idle hstep with hsub | ⟨k, hk⟩
  · exact ⟨h.ordered.sublist hsub, fun entry he => (h.past entry (hsub.subset he)).trans hnow⟩
  · rw [hk]
    constructor
    · refine List.pairwise_append.mpr ⟨h.ordered, List.pairwise_singleton _ _, ?_⟩
      intro entry he last hlast
      obtain rfl := List.mem_singleton.mp hlast
      exact (h.past entry he).trans hnow
    · intro entry he
      rcases List.mem_append.mp he with he | he
      · exact (h.past entry he).trans hnow
      · obtain rfl := List.mem_singleton.mp he
        exact le_refl _

theorem run_ordered {c d : Config Pool Task} {as : List (Action Task Event)}
    (h : OrderedUntil now c.shared.inner.idle) (hclock : Clocked now as)
    (hr : (system g cfg).run c as = some d) : Ordered d.shared.inner.idle := by
  induction as generalizing c now with
  | nil => exact Option.some.inj hr ▸ h.ordered
  | cons a as ih =>
    obtain ⟨c', hact, hr⟩ := run_cons hr
    rcases act_cases hact with ⟨t, rfl, -, rfl⟩ | ⟨i, e, t, p', t', rfl, -, hs, rfl⟩
    · exact ih (c := ⟨c.shared, c.tasks ++ [t]⟩) h hclock hr
    · have hstep : ConnectionPool.step g cfg c.shared t e = some (p', t') := hs
      exact ih (h.transition hclock.1 (step_transition hstep)) hclock.2 hr

/-- The eviction keeps, in order, the first aged entries up to `min_idle` and all young ones, and
nothing is left for another one at the same instant. -/
structure EvictsRight (cfg : PgConfig) (now : ℕ) (p : Pool) : Prop where
  kept : (p.evictIdle cfg now).1.inner.idle =
    (p.inner.idle.filter (aged cfg now)).take
      (min cfg.minIdle (p.inner.idle.filter (aged cfg now)).length) ++
        p.inner.idle.filter (! aged cfg now ·)
  inOrder : (p.evictIdle cfg now).1.inner.idle.Sublist p.inner.idle
  dropped : (p.evictIdle cfg now).2 = ((p.inner.idle.filter (aged cfg now)).drop
    (min cfg.minIdle (p.inner.idle.filter (aged cfg now)).length)).map (·.conn)
  counted : (p.evictIdle cfg now).1.inner.total + (p.evictIdle cfg now).2.length = p.inner.total
  enough : min cfg.minIdle p.inner.idle.length ≤ (p.evictIdle cfg now).1.inner.idle.length
  settled : ((p.evictIdle cfg now).1.evictIdle cfg now).2 = []

theorem evictIdle_kept (h : Ordered p.inner.idle) (cfg : PgConfig) (now : ℕ) :
    (p.evictIdle cfg now).1.inner.idle =
        (p.inner.idle.filter (aged cfg now)).take cfg.minIdle ++
          p.inner.idle.filter (! aged cfg now ·) ∧
      (p.evictIdle cfg now).2 = ((p.inner.idle.filter (aged cfg now)).drop cfg.minIdle).map
        (·.conn) := by
  rw [evictIdle_idle]
  simp only [Pool.evictIdle, evictLoop_ordered h]
  exact ⟨trivial, trivial⟩

theorem take_min_length {α : Type} (xs : List α) (n : ℕ) :
    xs.take (min n xs.length) = xs.take n := by
  rw [List.take_eq_take_iff]
  omega

theorem drop_min_length {α : Type} (xs : List α) (n : ℕ) :
    xs.drop (min n xs.length) = xs.drop n := by
  rcases Nat.le_total n xs.length with h | h
  · rw [min_eq_left h]
  · rw [min_eq_right h, List.drop_length, List.drop_eq_nil_of_le h]

/-- What is kept has no more aged entries than `min_idle`. -/
theorem evictIdle_twice (h : Ordered p.inner.idle) (cfg : PgConfig) (now : ℕ) :
    ((p.evictIdle cfg now).1.evictIdle cfg now).2 = [] := by
  obtain ⟨hkept, -⟩ := evictIdle_kept h cfg now
  have hsub : (p.evictIdle cfg now).1.inner.idle.Sublist p.inner.idle := by
    rw [evictIdle_idle]
    exact evictLoop_sublist cfg now p.inner.idle [] []
  obtain ⟨-, hdropped⟩ := evictIdle_kept (h.sublist hsub) cfg now
  have haged : ((p.evictIdle cfg now).1.inner.idle.filter (aged cfg now)) =
      (p.inner.idle.filter (aged cfg now)).take cfg.minIdle := by
    have hold : ∀ entry ∈ (p.inner.idle.filter (aged cfg now)).take cfg.minIdle,
        aged cfg now entry = true :=
      fun entry he => (List.mem_filter.mp (List.mem_of_mem_take he)).2
    have hyoung : (p.inner.idle.filter (! aged cfg now ·)).filter (aged cfg now) = [] := by
      rw [List.filter_filter, List.filter_eq_nil_iff]
      simp
    rw [hkept, List.filter_append, List.filter_eq_self.mpr hold, hyoung, List.append_nil]
  rw [hdropped, haged, List.drop_eq_nil_of_le (List.length_take_le _ _), List.map_nil]

theorem evictsRight (h : Ordered p.inner.idle) (hcount : stored p ≤ p.inner.total)
    (cfg : PgConfig) (now : ℕ) : EvictsRight cfg now p := by
  obtain ⟨hkept, hdropped⟩ := evictIdle_kept h cfg now
  obtain ⟨-, htotal⟩ := pooled_evictIdle (ω := fun _ => 1) cfg p now
  have hlen : (p.inner.idle.filter (aged cfg now)).length +
      (p.inner.idle.filter (! aged cfg now ·)).length = p.inner.idle.length := by
    rw [← List.length_append, ← aged_first h cfg now]
  refine ⟨?_, ?_, ?_, ?_, ?_, evictIdle_twice h cfg now⟩
  · rw [take_min_length, hkept]
  · rw [evictIdle_idle]
    exact evictLoop_sublist cfg now p.inner.idle [] []
  · rw [drop_min_length, hdropped]
  · rw [stored_eq] at hcount
    rw [htotal, hdropped, List.length_map, List.length_drop]
    omega
  · rw [hkept, List.length_append, List.length_take]
    omega

/-- In every run without a shutdown whose clock does not go back, the idle list is ordered, and an
eviction under any timeout, minimum and time keeps exactly the right entries. -/
theorem evictions_exact (g : PostgresWire.Grammar) (cfg : PgConfig) (now : ℕ)
    (as : List (Action Task Event)) (d : Config Pool Task)
    (hns : Action.spawn .shutdownInner ∉ as) (hclock : Clocked now as)
    (hr : (system g cfg).run (connect now) as = some d) :
    Ordered d.shared.inner.idle ∧ ∀ cfg' now', EvictsRight cfg' now' d.shared := by
  have hstart : OrderedUntil now (connect now).shared.inner.idle :=
    ⟨List.pairwise_singleton _ _, fun entry he => by
      obtain rfl := List.mem_singleton.mp he
      exact le_refl _⟩
  have hordered := run_ordered hstart hclock hr
  have hcovered := (run_accounted hns hr).1.covered
  exact ⟨hordered, evictsRight hordered (by omega)⟩

def browsedThenReleased : List (Action Task Event) :=
  browse :: sections [0, 0, 0, 0] ++
    .spawn (.releaseTake browserSessionId) :: List.replicate 5 (.advance 1 { tick with now := 7 })

theorem evictions_exact_browsedThenReleased :
    ∃ d, (system smallServer defaultPool).run (connect 0) browsedThenReleased = some d ∧
      Ordered d.shared.inner.idle ∧ ∀ cfg' now', EvictsRight cfg' now' d.shared := by
  obtain ⟨d, hd⟩ := Option.isSome_iff_exists.mp
    (show ((system smallServer defaultPool).run (connect 0) browsedThenReleased).isSome by
      decide +kernel)
  have hns : Action.spawn Task.shutdownInner ∉ browsedThenReleased := by
    simp [browsedThenReleased, browse, spawn_notMem_sections]
  exact ⟨d, hd, evictions_exact smallServer defaultPool 0 browsedThenReleased d hns
    (by decide) hd⟩

end SshCommander.IdleEviction
