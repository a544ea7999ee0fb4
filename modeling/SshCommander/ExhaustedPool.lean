import SshCommander.PoolHandles

/-!
# When the pool says that it is exhausted

Operations that run one after another leave the pool at rest: no connection is in use, and `total`
counts what is stored. A session that finds no idle connection looks at nothing else before it
gives up, and a browser operation on another database looks at its own entry only.
-/

namespace SshCommander.ExhaustedPool
open InterleavedTasks InterleavedTasks.TaskSystem MapWeights ConnectionPool ConnectionPool.Pool
  PooledConnection PoolLedger PoolAccounting ConnectionOwnership PoolHandles SessionCalls

variable {g : PostgresWire.Grammar} {cfg : PgConfig} {p p' : Pool} {t t' : Task} {e : Event}
  {es : List Event} {s : SessionId} {k : ConnId}

/-- An operation, with what the environment decides in each of its sections. -/
structure Operation where
  start : Task
  events : List Event

/-- The sections of one operation while no other is in flight. -/
def perform (g : PostgresWire.Grammar) (cfg : PgConfig) :
    Pool → Task → List Event → Option (Pool × Task)
  | p, t, [] => some (p, t)
  | p, t, e :: es => (ConnectionPool.step g cfg p t e).bind fun r => perform g cfg r.1 r.2 es

/-- Every operation of a sequence satisfies the condition in the pool that those before it left. -/
def Along (g : PostgresWire.Grammar) (cfg : PgConfig) (cond : Pool → Operation → Prop) :
    Pool → List Operation → Prop
  | _, [] => True
  | p, op :: ops => cond p op ∧
      ∀ p' t', perform g cfg p op.start op.events = some (p', t') → Along g cfg cond p' ops

theorem along_cons {cond : Pool → Operation → Prop} {op : Operation} {ops : List Operation}
    (hp : perform g cfg p op.start op.events = some (p', t')) :
    Along g cfg cond p (op :: ops) ↔ cond p op ∧ Along g cfg cond p' ops := by
  refine and_congr_right fun _ => ⟨fun h => h p' t' hp, fun h q u hq => ?_⟩
  obtain ⟨rfl, rfl⟩ := Prod.mk.inj (Option.some.inj (hp.symm.trans hq))
  exact h

/-- An operation other than a shutdown, from its start to its return. `open_one` itself does not
answer that the pool is exhausted. -/
structure Whole (g : PostgresWire.Grammar) (cfg : PgConfig) (p : Pool) (op : Operation) : Prop where
  starts : starts cfg op.start = true
  noShutdown : op.start ≠ .shutdownInner
  opens : ∀ e ∈ op.events, ∀ n m, e.opened ≠ .error (.poolExhausted n m)
  returns : ∃ p' t', perform g cfg p op.start op.events = some (p', t') ∧ t'.done = true

/-- Every connection that is counted is leased: none is idle, and none of the secondary browsers
is unused. -/
structure Honest (p : Pool) : Prop where
  leased : p.inner.total = p.inner.leased.entries.length
  idle : p.inner.idle = []
  secondary : ∀ x ∈ p.secondaryBrowsers.entries, p.handles x.2.conn ≠ 0

/-- The operation answers that the pool is exhausted only if it is, and leaves it as it was. -/
def HonestAt (g : PostgresWire.Grammar) (cfg : PgConfig) (p : Pool) (op : Operation) : Prop :=
  ∀ p' n m, perform g cfg p op.start op.events = some (p', .failed (.poolExhausted n m)) →
    Honest p' ∧ p' = p

/-- The operation finds a connection or room for one, or nothing that could be given up for it. -/
def Spared (cfg : PgConfig) (p : Pool) (op : Operation) : Prop :=
  match op.start with
  | .leaseFast s _ => p.inner.leased.lookup s ≠ none ∨ p.inner.idle ≠ [] ∨
      p.inner.total < cfg.maxSize ∨ p.secondaryBrowsers.entries = []
  | .browserCached database => p.secondaryBrowsers.lookup database ≠ none ∨
      p.inner.total < cfg.maxSize ∨ p.inner.idle = [] ∧ p.secondaryBrowsers.entries = []
  | _ => True

/-- The session that a lease is being found for. -/
def leasing : Task → Option SessionId
  | .leasePop s _ | .leaseCheck s _ | .leaseReserve s _ | .leaseOpening s _
  | .leaseAssign s _ _ => some s
  | _ => none

structure Alone (p : Pool) (t : Task) : Prop where
  handles : ∀ k, p.handles k = arcs (only k) t
  born : Born p
  counted : p.inner.total = stored p + claims t
  unleased : ∀ s, leasing t = some s → p.inner.leased.lookup s = none
  noShutdown : isShutdown t = false

theorem transition_leasing (h : Transition g cfg p e t p' t') (hs : leasing t' = some s) :
    p'.inner.leased = p.inner.leased ∧
      (leasing t = some s ∨ p.inner.leased.lookup s = none) := by
  cases h with
  | @leaseHit s use | @assigned s use => cases use <;> cases hs
  | leaseMiss h =>
    obtain rfl := Option.some.inj hs
    exact ⟨rfl, .inr h⟩
  | popped h =>
    obtain ⟨-, -, -, rfl⟩ := popIdle_some h
    exact ⟨rfl, .inl hs⟩
  | reserved h =>
    obtain ⟨-, rfl⟩ := reserveConnectionSlot_ok h
    exact ⟨rfl, .inl hs⟩
  | noneIdle | room | opened => exact ⟨rfl, .inl hs⟩
  | _ => cases hs

theorem Alone.leaks (h : Alone p t) : leaks p t = 0 := by
  cases t with
  | leaseAssign s use k =>
    have hnone := h.unleased s rfl
    simp [PoolLedger.leaks, replaced, hnone]
  | _ => rfl

theorem Alone.step (h : Alone p t) (hstep : ConnectionPool.step g cfg p t e = some (p', t')) :
    Alone p' t' := by
  have htransition := step_transition hstep
  have hle (k : ConnId) : arcs (only k) t ≤ p.handles k := (h.handles k).ge
  have hfollowed := transition_followed htransition h.born hle
  obtain ⟨hbooks, -, hnoShutdown⟩ :=
    transition_balanced htransition h.noShutdown h.counted.ge
  refine ⟨fun k => ?_, hfollowed.born h.born hle, ?_, fun s hs => ?_, hnoShutdown⟩
  · have hk := hfollowed.handles k
    have hbefore := h.handles k
    omega
  · have hcounted := h.counted
    have hleaks := h.leaks
    omega
  · obtain ⟨hleased, hbefore | hnone⟩ := transition_leasing htransition hs
    · rw [hleased]
      exact h.unleased s hbefore
    · rw [hleased]
      exact hnone

theorem Alone.perform (h : Alone p t) (hp : perform g cfg p t es = some (p', t')) :
    Alone p' t' := by
  induction es generalizing p t with
  | nil =>
    obtain ⟨rfl, rfl⟩ := Prod.mk.inj (Option.some.inj hp)
    exact h
  | cons e es ih =>
    obtain ⟨r, hstep, hrest⟩ := Option.bind_eq_some_iff.mp hp
    exact ih (h.step hstep) hrest

/-- A pool between operations: nothing is in use, and `total` is what is stored. -/
structure AtRest (p : Pool) : Prop where
  unused : ∀ k, p.handles k = 0
  born : Born p
  counted : p.inner.total = stored p

theorem leasing_starts (ht : starts cfg t = true) : leasing t = none := by
  cases t <;> first | rfl | cases ht

theorem AtRest.alone (h : AtRest p) (ht : starts cfg t = true) (hne : t ≠ .shutdownInner) :
    Alone p t := by
  refine ⟨fun k => ?_, h.born, ?_, fun s hs => ?_, isShutdown_starts ht hne⟩
  · rw [h.unused, arcs_starts (only k) ht]
  · rw [h.counted, claims_starts ht, Nat.add_zero]
  · cases (leasing_starts ht).symm.trans hs

theorem Alone.atRest (h : Alone p t) (ht : t.done = true) : AtRest p := by
  have hnone : (∀ k, arcs (only k) t = 0) ∧ claims t = 0 := by
    cases t <;> first | exact ⟨fun _ => rfl, rfl⟩ | cases ht
  refine ⟨fun k => ?_, h.born, ?_⟩
  · rw [h.handles, hnone.1]
  · rw [h.counted, hnone.2, Nat.add_zero]

theorem atRest_connect (now : ℕ) : AtRest (connect now).shared := by
  refine ⟨fun k => ?_, (counted_connect now).born, rfl⟩
  exact (counted_connect now).handles k

/-- At rest the pool is honest as soon as only leases are stored. -/
theorem AtRest.honest_iff (h : AtRest p) :
    Honest p ↔ p.inner.idle = [] ∧ p.secondaryBrowsers.entries = [] := by
  constructor
  · intro hp
    refine ⟨hp.idle, List.eq_nil_iff_forall_not_mem.mpr fun x hx => ?_⟩
    exact hp.secondary x hx (h.unused x.2.conn)
  · rintro ⟨hidle, hsecondary⟩
    refine ⟨?_, hidle, by simp [hsecondary]⟩
    rw [h.counted]
    simp [stored, pooled, weigh, hidle, hsecondary]

/-- A task that finds no connection and no room: every section to come leaves the pool alone, and
the last one answers that it is exhausted. -/
def Blocked (cfg : PgConfig) (p : Pool) : Task → Prop
  | .leaseFast s _ => p.inner.leased.lookup s = none ∧ p.inner.idle = [] ∧
      cfg.maxSize ≤ p.inner.total
  | .leasePop .. => p.inner.idle = [] ∧ cfg.maxSize ≤ p.inner.total
  | .leaseCheck .. | .leaseReserve .. | .browserReserve _ => cfg.maxSize ≤ p.inner.total
  | .browserCached database => p.secondaryBrowsers.lookup database = none ∧
      cfg.maxSize ≤ p.inner.total
  | .failed (.poolExhausted ..) => True
  | _ => False

/-- The slot of a connection that could not be opened is given back, because the pool is
exhausted. -/
def rollsBackExhausted : Task → Bool
  | .slotRollBack (.poolExhausted ..) => true
  | _ => false

/-- One section of a task does not decide whether it is blocked. -/
structure Kept (cfg : PgConfig) (p : Pool) (t : Task) (p' : Pool) (t' : Task) : Prop where
  blocked : Blocked cfg p' t' ↔ Blocked cfg p t
  unchanged : Blocked cfg p t → p' = p
  rollsBack : rollsBackExhausted t' = false

theorem Kept.free (h : ¬Blocked cfg p t) (h' : ¬Blocked cfg p' t')
    (hroll : rollsBackExhausted t' = false) : Kept cfg p t p' t' :=
  ⟨⟨fun hb => absurd hb h', fun hb => absurd hb h⟩, fun hb => absurd hb h, hroll⟩

theorem kept_slotRollBack {err : PgError} (h : ¬Blocked cfg p t)
    (hopens : ∀ n m, err ≠ .poolExhausted n m) : Kept cfg p t p (.slotRollBack err) := by
  refine .free h id ?_
  cases err with
  | poolExhausted n m => exact absurd rfl (hopens n m)
  | _ => rfl

theorem popIdle_none (h : p.popIdle = none) : p.inner.idle = [] := by
  simpa [popIdle] using h

theorem popIdle_ne_nil (h : p.popIdle = some (p', k)) : p.inner.idle ≠ [] := by
  rintro hidle
  simp [popIdle, hidle] at h

theorem step_kept (h : ConnectionPool.step g cfg p t e = some (p', t'))
    (hopens : ∀ n m, e.opened ≠ .error (.poolExhausted n m))
    (hroll : rollsBackExhausted t = false) : Kept cfg p t p' t' := by
  cases t with
  | leaseFast s use =>
    cases step_transition h with
    | leaseHit hs =>
      refine .free (fun hb => ?_) ?_ ?_
      · cases hs.symm.trans hb.1
      all_goals cases use <;> first | exact id | rfl
    | leaseMiss hs => exact ⟨by simp [Blocked, hs], fun _ => rfl, rfl⟩
  | leasePop s use =>
    cases step_transition h with
    | popped hk => exact .free (fun hb => popIdle_ne_nil hk hb.1) id rfl
    | noneIdle hidle => exact ⟨by simp [Blocked, popIdle_none hidle], fun _ => rfl, rfl⟩
  | leaseCheck s use =>
    simp only [ConnectionPool.step] at h
    split at h <;> obtain ⟨rfl, rfl⟩ := h
    · exact ⟨iff_of_true trivial ‹_›, fun _ => rfl, rfl⟩
    · exact ⟨Iff.rfl, fun _ => rfl, rfl⟩
  | leaseReserve s use | browserReserve database =>
    by_cases hfull : cfg.maxSize ≤ p.inner.total
    · simp only [ConnectionPool.step, reserveConnectionSlot, hfull, if_true] at h
      obtain ⟨rfl, rfl⟩ := h
      exact ⟨iff_of_true trivial hfull, fun _ => rfl, rfl⟩
    · simp only [ConnectionPool.step, reserveConnectionSlot, hfull, if_false] at h
      obtain ⟨rfl, rfl⟩ := h
      exact .free hfull id rfl
  | browserCached database =>
    cases step_transition h with
    | browserHit hd => exact .free (fun hb => by cases hd.symm.trans hb.1) id rfl
    | browserMiss hd => exact ⟨by simp [Blocked, hd], fun _ => rfl, rfl⟩
  | leaseOpening s use | browserOpening database =>
    simp only [ConnectionPool.step] at h
    split at h <;> obtain ⟨rfl, rfl⟩ := h
    · exact .free id id rfl
    · rename_i he
      exact kept_slotRollBack id fun n m herr => hopens n m (herr ▸ he)
  | slotRollBack err =>
    obtain ⟨rfl, rfl⟩ := h
    cases err with
    | poolExhausted n m => cases hroll
    | _ => exact .free id id rfl
  | leaseAssign s use k =>
    obtain ⟨rfl, rfl⟩ := h
    cases use <;> exact .free id id rfl
  | lookup s call =>
    simp only [ConnectionPool.step] at h
    split at h <;> obtain ⟨rfl, rfl⟩ := h <;> exact .free id id rfl
  | _ => cases step_transition h <;> exact .free id id rfl

theorem perform_kept (h : perform g cfg p t es = some (p', t'))
    (hopens : ∀ e ∈ es, ∀ n m, e.opened ≠ .error (.poolExhausted n m))
    (hroll : rollsBackExhausted t = false) : Kept cfg p t p' t' := by
  induction es generalizing p t with
  | nil =>
    obtain ⟨rfl, rfl⟩ := Prod.mk.inj (Option.some.inj h)
    exact ⟨Iff.rfl, fun _ => rfl, hroll⟩
  | cons e es ih =>
    obtain ⟨⟨q, u⟩, hstep, hrest⟩ := Option.bind_eq_some_iff.mp h
    have hfirst := step_kept hstep (hopens e List.mem_cons_self) hroll
    have hlast := ih hrest (fun x hx => hopens x (List.mem_cons_of_mem e hx)) hfirst.rollsBack
    refine ⟨hlast.blocked.trans hfirst.blocked, fun hb => ?_, hlast.rollsBack⟩
    rw [hlast.unchanged (hfirst.blocked.mpr hb), hfirst.unchanged hb]

/-- An operation performed alone is a run of the tasks in which only that operation advances. -/
theorem run_perform {ts : List Task} (ht : starts cfg t = true) :
    (system g cfg).run ⟨p, ts⟩ (.spawn t :: es.map (.advance ts.length)) =
      (perform g cfg p t es).map fun r => ⟨r.1, ts ++ [r.2]⟩ := by
  have hadvance : ∀ p t, (system g cfg).run ⟨p, ts ++ [t]⟩ (es.map (.advance ts.length)) =
      (perform g cfg p t es).map fun r => ⟨r.1, ts ++ [r.2]⟩ := by
    induction es with
    | nil => exact fun _ _ => rfl
    | cons e es ih =>
      intro p t
      cases hstep : ConnectionPool.step g cfg p t e with
      | none => simp [run, act, system, perform, hstep]
      | some r => simpa [run, act, system, perform, hstep] using ih r.1 r.2
  have hspawn : (system g cfg).act ⟨p, ts⟩ (.spawn t) = some ⟨p, ts ++ [t]⟩ := if_pos ht
  simp [run, hspawn, hadvance]

theorem AtRest.spared_iff {op : Operation} (h : AtRest p) (hstart : starts cfg op.start = true) :
    Spared cfg p op ↔ (Blocked cfg p op.start → Honest p) := by
  rw [h.honest_iff]
  obtain ⟨t, es⟩ := op
  cases t with
  | leaseFast s use =>
    simp only [Spared, Blocked, ← Nat.not_le]
    tauto
  | browserCached database =>
    simp only [Spared, Blocked, ← Nat.not_le]
    tauto
  | leasePop | leaseCheck | leaseReserve | browserReserve | failed => cases hstart
  | _ => exact iff_of_true trivial False.elim

theorem blocked_done (ht : t.done = true) :
    Blocked cfg p t ↔ ∃ n m, t = .failed (.poolExhausted n m) := by
  cases t with
  | failed err => cases err <;> simp [Blocked]
  | answered | finished => simp [Blocked]
  | _ => cases ht

theorem rollsBack_starts (ht : starts cfg t = true) : rollsBackExhausted t = false := by
  cases t <;> first | rfl | cases ht

/-- An operation is honest exactly if it is not blocked by a pool that holds more than leases. -/
theorem AtRest.honestAt_iff {op : Operation} (h : AtRest p) (hop : Whole g cfg p op) :
    HonestAt g cfg p op ↔ Spared cfg p op := by
  rw [h.spared_iff hop.starts]
  have hroll := rollsBack_starts hop.starts
  constructor
  · intro hhonest hblocked
    obtain ⟨q, u, hp, hdone⟩ := hop.returns
    have hkept := perform_kept hp hop.opens hroll
    obtain ⟨n, m, rfl⟩ := (blocked_done hdone).mp (hkept.blocked.mpr hblocked)
    obtain ⟨hq, rfl⟩ := hhonest q n m hp
    exact hq
  · intro hspared q n m hp
    have hkept := perform_kept hp hop.opens hroll
    have hblocked := hkept.blocked.mp trivial
    obtain rfl := hkept.unchanged hblocked
    exact ⟨hspared hblocked, rfl⟩

/-- Every answer that the pool is exhausted is honest exactly if every operation finds a
connection or room, or the pool holds nothing else that could be given up. -/
theorem exhausted_honest_iff {ops : List Operation} (now : ℕ)
    (hwhole : Along g cfg (Whole g cfg) (connect now).shared ops) :
    Along g cfg (HonestAt g cfg) (connect now).shared ops ↔
      Along g cfg (Spared cfg) (connect now).shared ops := by
  have hrest := atRest_connect now
  generalize (connect now).shared = p at hwhole hrest ⊢
  induction ops generalizing p with
  | nil => exact Iff.rfl
  | cons op ops ih =>
    have hop := hwhole.1
    obtain ⟨q, u, hp, hdone⟩ := hop.returns
    have hrest' := ((hrest.alone hop.starts hop.noShutdown).perform hp).atRest hdone
    rw [along_cons hp] at hwhole ⊢
    rw [along_cons hp]
    exact and_congr (hrest.honestAt_iff hop) (ih q hwhole.2 hrest')

def onePool : PgConfig := ⟨"postgres".toList, some 1, none, none⟩

def browseOwn : Operation := ⟨.leaseFast browserSessionId .browse, [tick, tick, tick, tick]⟩

def browseOther : Operation := ⟨.browserCached "other".toList, [tick, tick]⟩

/-- A session that comes when the only connection is leased. -/
def lateSession : Operation :=
  ⟨.leaseFast "a".toList (.call (.execute selectOne 1 "u".toList)), [tick, tick, tick]⟩

theorem whole_of {op : Operation} (hstart : starts cfg op.start = true)
    (hshut : op.start ≠ .shutdownInner) (hevents : ∀ e ∈ op.events, e = tick)
    (hp : perform g cfg p op.start op.events = some (p', t')) (hdone : t'.done = true) :
    Whole g cfg p op := by
  refine ⟨hstart, hshut, fun e he n m herr => ?_, p', t', hp, hdone⟩
  rw [hevents e he] at herr
  cases herr

theorem exhausted_honest_iff_lateSession :
    Along smallServer onePool (HonestAt smallServer onePool) (connect 0).shared
      [browseOwn, lateSession] := by
  have hown : perform smallServer onePool (connect 0).shared browseOwn.start browseOwn.events =
      some (_, .finished) := rfl
  refine (exhausted_honest_iff 0 ?_).mpr ?_
  · rw [along_cons hown]
    refine ⟨whole_of rfl nofun (by simp [browseOwn]) hown rfl, ?_⟩
    exact ⟨whole_of rfl nofun (by simp [lateSession]) rfl rfl, fun _ _ _ => trivial⟩
  · rw [along_cons hown]
    exact ⟨.inr (.inl nofun), .inr (.inr (.inr rfl)), fun _ _ _ => trivial⟩

/-- Right after `connect` the only connection is idle, and another database is refused. -/
theorem browseOther_not_honest :
    Along smallServer onePool (Whole smallServer onePool) (connect 0).shared [browseOther] ∧
      ¬Along smallServer onePool (HonestAt smallServer onePool) (connect 0).shared [browseOther] := by
  have hother : perform smallServer onePool (connect 0).shared browseOther.start
      browseOther.events = some ((connect 0).shared, .failed (.poolExhausted 1 1)) := rfl
  refine ⟨⟨whole_of rfl nofun (by simp [browseOther]) hother rfl, fun _ _ _ => trivial⟩, fun h => ?_⟩
  have hidle := (h.1 _ 1 1 hother).1.idle
  cases hidle

end SshCommander.ExhaustedPool
