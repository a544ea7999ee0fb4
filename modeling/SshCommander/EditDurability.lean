import SshCommander.PoolAccounting
import SshCommander.PostgresWireLaws

/-!
# Acknowledged edits

The effect of an edit that runs outside a transaction block is committed with its message, and
nothing that happens to the wire afterwards discards it. An edit that runs in the block of a
paging cursor is acknowledged before anything is committed.
-/

namespace SshCommander.EditDurability
open InterleavedTasks InterleavedTasks.TaskSystem InteractionPrograms ConnectionPool
  ConnectionPool.Pool SqlStatementSplit PostgresWire PostgresWire.Wire PooledConnection SessionCalls
  PoolAccounting

variable {g : Grammar} {w w' w'' : Wire} {o : Origin} {ch : Choice}

/-- `P` survives every way a wire changes. -/
structure Lasting (P : Wire → Prop) : Prop where
  endBlock : ∀ w e, P w → P (w.endBlock e)
  enter : ∀ w, P w → P w.enter
  begin : ∀ w o, P w → P (w.begin o)
  fail : ∀ w b, w.block = some b → P w → P { w with block := some { b with failed := true } }
  plain : ∀ o w w', PlainStep o w w' → P w → P w'
  down : ∀ w, P w → P { w with up := false, cursors := [] }

variable {P : Wire → Prop}

theorem Lasting.lose (h : Lasting P) (hw : P w) : P w.lose := h.down _ (h.endBlock w .lost hw)

theorem Lasting.abort (h : Lasting P) (hw : P w) : P w.abort := by
  cases hb : w.block with
  | none => rwa [abort_none hb]
  | some b =>
    by_cases ho : b.owner = none
    · rw [abort_implicit hb ho]
      exact h.endBlock w .error hw
    · rw [abort_explicit hb ho]
      exact h.fail w b hb hw

theorem Lasting.finish (h : Lasting P) (hw : P w) : P w.finish := by
  cases hb : w.block with
  | none => rwa [finish_none hb]
  | some b =>
    by_cases ho : b.owner = none
    · rw [finish_implicit hb ho]
      exact h.endBlock w .auto hw
    · rwa [finish_explicit hb ho]

theorem Lasting.keeps (h : Lasting P) (o : Origin) (sts : List Stmt) : Keeps P P o sts where
  stmt w w' rows n st ms _ hw hs := by
    rcases stmt_cases hs with ⟨-, rfl⟩ | ⟨-, rfl⟩ | ⟨-, rfl⟩ | ⟨-, hp⟩
    · exact h.begin w o hw
    · exact h.enter _ (h.endBlock w _ hw)
    · exact h.enter _ (h.endBlock w _ hw)
    · exact h.plain o w w' hp hw
  abort w hw := h.abort hw
  finish w hw := h.finish hw
  lose w hw := h.lose hw

theorem Lasting.simpleQuery (h : Lasting P) (hw : P w) (o : Origin) (parsed : Option (List Stmt))
    (ch : Choice) : P (w.simpleQuery o parsed ch).1 := by
  cases parsed with
  | some sts => exact (h.keeps o sts).simpleQuery ch (fun _ => hw) (h.enter w hw)
  | none =>
    cases hup : w.up with
    | false => rwa [simpleQuery_down hup]
    | true =>
      rw [simpleQuery_none hup]
      exact h.abort hw

theorem Lasting.prepare (h : Lasting P) (hw : P w) (parsed : Option (List Stmt)) (ch : Choice) :
    P (w.prepare parsed ch).1 := by
  rcases prepare_wire w parsed ch with hp | hp | hp <;> rw [hp]
  · exact hw
  · exact h.lose hw
  · exact h.abort hw

theorem Lasting.serve (h : Lasting P) {conn : Conn} (hw : P conn.wire) (q : Request) (ch : Choice) :
    P (Conn.serve g conn q ch).1.wire := by
  cases q with
  | takeCursor | readCursor | setCursor => exact hw
  | takeCursorIf id => exact (Conn.takeIf_wire conn id).symm ▸ hw
  | send c =>
    cases c with
    | prepare sql => exact h.prepare hw _ ch
    | extended sql params q => exact (h.keeps .pool _).extended ch hw (h.enter _ hw)
    | batchExecute | simpleQuery | beginDeclare | fetchForward | closeCommit | rollback =>
      exact h.simpleQuery hw _ _ ch

/-- Every effect on record has a number that was given out. -/
structure Numbered (w : Wire) : Prop where
  ended : ∀ r ∈ w.history, ∀ n ∈ r.effects, n < w.nextEffect
  pending : ∀ b, w.block = some b → ∀ n ∈ b.pending, n < w.nextEffect

/-- Effect `n` is committed and nothing can discard it. -/
structure Settled (n : ℕ) (w : Wire) : Prop where
  given : n < w.nextEffect
  committed : n ∈ w.committed
  notDiscarded : n ∉ w.discarded
  notPending : ∀ b, w.block = some b → n ∉ b.pending

theorem mem_committed {n : ℕ} : n ∈ w.committed ↔ ∃ r ∈ w.history, r.kept = true ∧ n ∈ r.effects := by
  simp [committed, and_assoc]

theorem mem_discarded {n : ℕ} :
    n ∈ w.discarded ↔ ∃ r ∈ w.history, r.kept = false ∧ n ∈ r.effects := by
  simp [discarded, and_assoc]

theorem numbered_lasting : Lasting Numbered where
  endBlock w e h := by
    cases hb : w.block with
    | none => rwa [endBlock_none hb]
    | some b =>
      refine ⟨fun r hr n hn => ?_, by simp⟩
      rw [endBlock_history hb] at hr
      rw [endBlock_nextEffect]
      rcases List.mem_cons.mp hr with rfl | hr
      · exact h.pending b hb n hn
      · exact h.ended r hr n hn
  enter w h := by
    refine ⟨by simpa using h.ended, fun b hb n hn => ?_⟩
    rw [enter_nextEffect]
    rcases enter_block w with ⟨he, -⟩ | ⟨he, -⟩
    · obtain rfl := Option.some.inj (he.symm.trans hb)
      cases hn
    · exact h.pending b (he ▸ hb) n hn
  begin w o h := by
    unfold Wire.begin
    split
    · rename_i failed pending hb
      refine ⟨h.ended, fun b' hb' n hn => ?_⟩
      obtain rfl := Option.some.inj hb'
      exact h.pending _ hb n hn
    · exact h
  fail w b hb h := by
    refine ⟨h.ended, fun b' hb' n hn => ?_⟩
    obtain rfl := Option.some.inj hb'
    exact h.pending b hb n hn
  plain o w w' hp h := by
    cases hb : w.block with
    | none =>
      obtain ⟨hnone, hnext⟩ := hp.outside hb
      refine ⟨?_, by simp [hnone]⟩
      rw [hp.history, hnext]
      exact h.ended
    | some b =>
      rcases hp.inside b hb with ⟨hsame, hnext⟩ | ⟨hmore, hnext⟩
      · refine ⟨?_, fun b' hb' n hn => ?_⟩
        · rw [hp.history, hnext]
          exact h.ended
        · rw [hnext]
          exact h.pending b' (hb.trans (hsame.symm.trans hb')) n hn
      · refine ⟨fun r hr n hn => ?_, fun b' hb' n hn => ?_⟩
        · rw [hp.history] at hr
          rw [hnext]
          exact Nat.lt_succ_of_lt (h.ended r hr n hn)
        · obtain rfl := Option.some.inj (hmore.symm.trans hb')
          rw [hnext]
          rcases List.mem_cons.mp hn with rfl | hn
          · exact Nat.lt_succ_self _
          · exact Nat.lt_succ_of_lt (h.pending b hb n hn)
  down w h := ⟨h.ended, h.pending⟩

theorem settled_lasting (n : ℕ) : Lasting (Settled n) where
  endBlock w e h := by
    cases hb : w.block with
    | none => rwa [endBlock_none hb]
    | some b =>
      refine ⟨by simpa using h.given, ?_, fun hd => ?_, by simp⟩
      · obtain ⟨r, hr, hk, hn⟩ := mem_committed.mp h.committed
        refine mem_committed.mpr ⟨r, ?_, hk, hn⟩
        rw [endBlock_history hb]
        exact List.mem_cons_of_mem _ hr
      · obtain ⟨r, hr, hk, hn⟩ := mem_discarded.mp hd
        rw [endBlock_history hb] at hr
        rcases List.mem_cons.mp hr with rfl | hr
        · exact h.notPending b hb hn
        · exact h.notDiscarded (mem_discarded.mpr ⟨r, hr, hk, hn⟩)
  enter w h := by
    refine ⟨by simpa using h.given, by simpa [committed] using h.committed,
      by simpa [discarded] using h.notDiscarded, fun b hb hn => ?_⟩
    rcases enter_block w with ⟨he, -⟩ | ⟨he, -⟩
    · obtain rfl := Option.some.inj (he.symm.trans hb)
      cases hn
    · exact h.notPending b (he ▸ hb) hn
  begin w o h := by
    unfold Wire.begin
    split
    · rename_i failed pending hb
      refine ⟨h.given, h.committed, h.notDiscarded, fun b' hb' hn => ?_⟩
      obtain rfl := Option.some.inj hb'
      exact h.notPending _ hb hn
    · exact h
  fail w b hb h := by
    refine ⟨h.given, h.committed, h.notDiscarded, fun b' hb' hn => ?_⟩
    obtain rfl := Option.some.inj hb'
    exact h.notPending b hb hn
  plain o w w' hp h := by
    have hcommitted : n ∈ w'.committed := by simpa only [committed, hp.history] using h.committed
    have hdiscarded : n ∉ w'.discarded := by simpa only [discarded, hp.history] using h.notDiscarded
    cases hb : w.block with
    | none =>
      obtain ⟨hnone, hnext⟩ := hp.outside hb
      exact ⟨hnext ▸ h.given, hcommitted, hdiscarded, by simp [hnone]⟩
    | some b =>
      rcases hp.inside b hb with ⟨hsame, hnext⟩ | ⟨hmore, hnext⟩
      · exact ⟨hnext ▸ h.given, hcommitted, hdiscarded,
          fun b' hb' => h.notPending b' (hb.trans (hsame.symm.trans hb'))⟩
      · refine ⟨hnext ▸ Nat.lt_succ_of_lt h.given, hcommitted, hdiscarded, fun b' hb' hn => ?_⟩
        obtain rfl := Option.some.inj (hmore.symm.trans hb')
        rcases List.mem_cons.mp hn with rfl | hn
        · exact lt_irrefl _ h.given
        · exact h.notPending b hb hn
  down w h := ⟨h.given, h.committed, h.notDiscarded, h.notPending⟩

theorem abort_nextEffect (w : Wire) : w.abort.nextEffect = w.nextEffect := by
  unfold Wire.abort
  split
  · rfl
  · split
    · exact endBlock_nextEffect w .error
    · rfl

theorem refused_in_failed {b : Block} {rows : List Row} {n : ℕ} {ms : List Message} {q : Query}
    (hb : w.block = some b) (hf : b.failed = true)
    (h : w.stmt o rows n (.query q) = .ok (w', ms)) : False := by
  obtain ⟨owner, failed, pending⟩ := b
  obtain rfl : failed = true := hf
  simp [stmt, hb, Stmt.endsBlock] at h

/-- The message of an edit outside a block, when its statement runs. -/
theorem finish_query {rows : List Row} {n : ℕ} {ms : List Message} {q : Query}
    (hb : w.block = none) (h : w.enter.stmt o rows n (.query q) = .ok (w', ms)) :
    w'.finish.block = none ∧
      (w'.finish.nextEffect = w.nextEffect ∨ w'.finish.nextEffect = w.nextEffect + 1 ∧
        w'.finish.history = ⟨none, false, .auto, [w.nextEffect]⟩ :: w.history) := by
  rw [enter_none hb] at h
  have hopen := stmt_ok h
  simp only [stmtOpen, Except.ok.injEq, Prod.mk.injEq] at hopen
  obtain ⟨rfl, -⟩ := hopen
  cases q.writes with
  | false => exact ⟨rfl, .inl rfl⟩
  | true => exact ⟨rfl, .inr ⟨rfl, rfl⟩⟩

/-- An edit sent outside an open block settles the effect it has. -/
theorem extended_settled {q : Query} {n : ℕ} (hnum : Numbered w)
    (hb : ∀ b, w.block = some b → b.failed = true) (hlo : w.nextEffect ≤ n)
    (hhi : n < (w.extended q ch).1.nextEffect) : Settled n (w.extended q ch).1 := by
  unfold Wire.extended at hhi ⊢
  by_cases hup : w.up = false
  · rw [if_pos hup] at hhi
    exact absurd hhi (by simpa using hlo)
  rw [if_neg hup] at hhi ⊢
  by_cases hclient : ch.fault = .client
  · rw [if_pos hclient] at hhi
    exact absurd hhi (by simpa using hlo)
  rw [if_neg hclient] at hhi ⊢
  rcases runOne_cases w.enter .pool ch 0 (.query q) with ⟨hr, -⟩ | ⟨code, hr, -⟩ |
    ⟨w', ms, hr, -, hs⟩
  · rw [hr] at hhi
    simp only [lose_nextEffect, enter_nextEffect] at hhi
    omega
  · rw [hr] at hhi
    simp only [abort_nextEffect, enter_nextEffect] at hhi
    omega
  · rw [hr] at hhi ⊢
    dsimp only at hhi ⊢
    cases hblock : w.block with
    | some b =>
      rw [enter_some hblock] at hs
      exact (refused_in_failed hblock (hb b hblock) hs).elim
    | none =>
      obtain ⟨hnone, hsame | ⟨hnext, hhistory⟩⟩ := finish_query hblock hs
      · omega
      · obtain rfl : n = w.nextEffect := by omega
        refine ⟨by omega, mem_committed.mpr ⟨⟨none, false, .auto, [w.nextEffect]⟩, ?_, rfl,
          List.mem_cons_self⟩, fun hd => ?_, by simp [hnone]⟩
        · rw [hhistory]
          exact List.mem_cons_self
        · obtain ⟨r, hr, hk, hn⟩ := mem_discarded.mp hd
          rw [hhistory] at hr
          rcases List.mem_cons.mp hr with rfl | hr
          · cases hk
          · exact lt_irrefl _ (hnum.ended r hr _ hn)

/-- What lasts on the first wire lasts on the second. -/
def Later (w w' : Wire) : Prop := ∀ P, Lasting P → P w → P w'

theorem Later.refl (w : Wire) : Later w w := fun _ _ hw => hw

theorem Later.trans (h : Later w w') (h' : Later w' w'') : Later w w'' :=
  fun P hP hw => h' P hP (h P hP hw)

inductive Follows : Option Wire → Option Wire → Prop where
  | absent : Follows none none
  | opened {w : Wire} (h : Later .fresh w) : Follows none (some w)
  | later {w w' : Wire} (h : Later w w') : Follows (some w) (some w')

variable {p p' p'' : Pool} {k j : ConnId}

def wireAt (p : Pool) (k : ConnId) : Option Wire := (p.conns[k]?).map (·.conn.wire)

def Progress (p p' : Pool) : Prop := ∀ k, Follows (wireAt p k) (wireAt p' k)

theorem Progress.refl (p : Pool) : Progress p p := fun k => by
  cases wireAt p k with
  | none => exact .absent
  | some w => exact .later (.refl w)

theorem Progress.trans (h : Progress p p') (h' : Progress p' p'') : Progress p p'' := fun k => by
  have hk := h k
  have hk' := h' k
  generalize wireAt p k = a at hk
  generalize wireAt p' k = b at hk hk'
  generalize wireAt p'' k = c at hk'
  cases hk with
  | absent => exact hk'
  | opened h =>
    cases hk' with
    | later h' => exact .opened (h.trans h')
  | later h =>
    cases hk' with
    | later h' => exact .later (h.trans h')

theorem Progress.congr (h : Progress p' p'') (hp : p'.conns = p.conns) : Progress p p'' := fun k => by
  have hk : wireAt p' k = wireAt p k := by rw [wireAt, wireAt, hp]
  exact hk ▸ h k

theorem progress_modify {f : ConnectionPool.PooledConnection → ConnectionPool.PooledConnection}
    (hp : p'.conns = p.conns.modify k f)
    (hf : ∀ pc, p.conns[k]? = some pc → Later pc.conn.wire (f pc).conn.wire) : Progress p p' := by
  intro j
  simp only [wireAt, hp, List.getElem?_modify]
  cases hj : p.conns[j]? with
  | none => exact .absent
  | some pc =>
    by_cases hk : k = j
    · subst hk
      simpa using .later (hf pc hj)
    · simpa [hk] using .later (.refl _)

theorem progress_abort (p : Pool) (k : ConnId) : Progress p (p.abort k) :=
  progress_modify rfl fun _ _ _ hP hw => hP.lose hw

theorem progress_hold (p : Pool) (k : ConnId) : Progress p (p.hold k) :=
  progress_modify rfl fun _ _ => .refl _

theorem progress_unhold (p : Pool) (k : ConnId) : Progress p (p.unhold k) :=
  progress_modify rfl fun _ _ => .refl _

theorem progress_setLocked (p : Pool) (k : ConnId) (b : Bool) : Progress p (p.setLocked k b) :=
  progress_modify rfl fun _ _ => .refl _

theorem progress_served {pc : ConnectionPool.PooledConnection} (h : p.conns[k]? = some pc)
    (q : Request) (ch : Choice) : Progress p (p.setConn k (Conn.serve g pc.conn q ch).1) := by
  refine progress_modify rfl fun pc' hpc' P hP hw => ?_
  obtain rfl := Option.some.inj (h.symm.trans hpc')
  exact hP.serve hw q ch

theorem progress_add (p : Pool) : Progress p p.add.1 := by
  intro j
  simp only [wireAt, add]
  rcases Nat.lt_trichotomy j p.conns.length with hj | rfl | hj
  · rw [List.getElem?_append_left hj]
    exact Progress.refl p j
  · simpa [Conn.fresh] using .opened (.refl _)
  · rw [List.getElem?_eq_none hj.le, List.getElem?_eq_none (by simpa using Nat.succ_le_of_lt hj)]
    exact .absent

theorem progress_reap (p : Pool) (k : ConnId) : Progress p (p.reap k) := by
  unfold reap
  split
  · exact .refl p
  · exact progress_abort p k

theorem progress_letGo (p : Pool) (k : ConnId) : Progress p (p.letGo k) :=
  (progress_unhold p k).trans (progress_reap _ k)

theorem progress_abortAll (p : Pool) (ks : List ConnId) : Progress p (p.abortAll ks) := by
  unfold abortAll
  induction ks generalizing p with
  | nil => exact .refl p
  | cons k ks ih => exact ((progress_abort p k).trans (progress_letGo _ k)).trans (ih _)

theorem progress_holdAll (p : Pool) (ks : List ConnId) : Progress p (p.holdAll ks) := by
  unfold holdAll
  induction ks generalizing p with
  | nil => exact .refl p
  | cons k ks ih => exact (progress_hold p k).trans (ih _)

theorem progress_assignLease (p : Pool) (s : SessionId) (k : ConnId) :
    Progress p (p.assignLease s k) := by
  unfold assignLease
  split
  · exact .refl p
  · rename_i old _
    exact progress_reap (p.setLeased (p.inner.leased.insert s k)) old

theorem transition_progress {cfg : PgConfig} {t t' : Task} {e : Event}
    (h : Transition g cfg p e t p' t') : Progress p p' := by
  cases h with
  | leaseHit | found | cancelHit => exact progress_hold p _
  | popped h =>
    simp only [popIdle, Option.map_eq_some_iff, Prod.mk.injEq] at h
    obtain ⟨entry, -, rfl, -⟩ := h
    exact progress_hold (p.setIdle _) _
  | assigned => exact progress_assignLease p _ _
  | reserved h | browserReserved h =>
    unfold reserveConnectionSlot at h
    split at h
    · cases h
    · exact Except.ok.inj h ▸ .refl p
  | opened | browserOpened => exact progress_add p
  | locked | releaseLocked => exact progress_setLocked p _ true
  | served h | cleaned h => exact progress_served h _ _
  | returned => exact (progress_setLocked p _ false).trans (progress_letGo _ _)
  | cancelled | browsed => exact progress_letGo p _
  | taken => exact progress_hold (p.setLeased _) _
  | released => exact progress_setLocked p _ false
  | pushed => exact progress_unhold (p.setIdle _) _
  | browserHit | raced => exact progress_hold (p.setSecondary _) _
  | duplicateDropped => exact progress_letGo p.releaseConnectionSlot _
  | idleEvicted =>
    dsimp only [evictIdle]
    exact (progress_holdAll _ _).congr rfl
  | noSecondary | secondaryEvicted =>
    dsimp only [evictSecondary]
    exact (progress_holdAll _ _).congr rfl
  | idleAborted | secondaryAborted | shutDown => exact progress_abortAll p _
  | innerDrained => exact (progress_holdAll { p with inner := ⟨[], ∅, 0⟩ } _).congr rfl
  | secondaryDrained => exact (progress_holdAll (p.setSecondary ∅) _).congr rfl
  | _ => exact .refl p

variable {cfg : PgConfig} {c c' d : Config Pool Task} {t t' u : Task} {e : Event} {i : ℕ}

def Numbers (g : Grammar) (x : Exchange Conn Request Choice) (n : ℕ) : Prop :=
  x.before.wire.nextEffect ≤ n ∧ n < (Conn.serve g x.before x.asked x.choice).1.wire.nextEffect

instance (g : Grammar) (x : Exchange Conn Request Choice) (n : ℕ) : Decidable (Numbers g x n) :=
  inferInstanceAs (Decidable (_ ∧ _))

/-- The connection of an edit whose next section sends its statement. -/
def editing : Task → Option ConnId
  | .running _ k call (.ask _ _) _ => if call.isEdit then some k else none
  | _ => none

def editLog : Task → Option (ConnId × List (Exchange Conn Request Choice))
  | .running _ k call _ log | .answered _ k call _ log =>
    if call.isEdit then some (k, log) else none
  | _ => none

/-- An edit sends its statement while its wire is in no block, or in an aborted one, which
refuses it. -/
def SentOutside (c : Config Pool Task) : Action Task Event → Prop
  | .spawn _ => True
  | .advance i _ => ∀ t ∈ c.tasks[i]?, ∀ k ∈ editing t, ∀ w ∈ wireAt c.shared k,
    ∀ b ∈ w.block, b.failed = true

instance : ∀ c a, Decidable (SentOutside c a)
  | _, .spawn _ => inferInstanceAs (Decidable True)
  | c, .advance i _ => inferInstanceAs (Decidable (∀ t ∈ c.tasks[i]?, ∀ k ∈ editing t,
      ∀ w ∈ wireAt c.shared k, ∀ b ∈ w.block, b.failed = true))

structure Acknowledged (g : Grammar) (c : Config Pool Task) : Prop where
  numbered : ∀ k w, wireAt c.shared k = some w → Numbered w
  form : ∀ s k call prog log, .running s k call prog log ∈ c.tasks → call.isEdit = true →
    log = [] ∧ EditForm prog ∨ ∃ r, prog = .ret r
  settled : ∀ t ∈ c.tasks, ∀ y ∈ editLog t, ∀ x ∈ y.2, ∀ n, Numbers g x n →
    ∃ w, wireAt c.shared y.1 = some w ∧ Settled n w

theorem numbered_fresh : Numbered .fresh := ⟨by simp [Wire.fresh], by simp [Wire.fresh]⟩

theorem Progress.numbered (h : Progress p p') (hn : ∀ k w, wireAt p k = some w → Numbered w)
    (hk : wireAt p' k = some w') : Numbered w' := by
  have hf := h k
  rw [hk] at hf
  cases hw : wireAt p k with
  | none =>
    rw [hw] at hf
    cases hf with
    | opened hl => exact hl Numbered numbered_lasting numbered_fresh
  | some w =>
    rw [hw] at hf
    cases hf with
    | later hl => exact hl Numbered numbered_lasting (hn k w hw)

theorem Progress.settled {n : ℕ} (h : Progress p p')
    (hs : ∃ w, wireAt p k = some w ∧ Settled n w) : ∃ w, wireAt p' k = some w ∧ Settled n w := by
  obtain ⟨w, hw, hs⟩ := hs
  have hf := h k
  rw [hw] at hf
  cases hw' : wireAt p' k with
  | none =>
    rw [hw'] at hf
    cases hf
  | some w' =>
    rw [hw'] at hf
    cases hf with
    | later hl => exact ⟨w', rfl, hl (Settled n) (settled_lasting n) hs⟩

theorem wireAt_setConn {pc : ConnectionPool.PooledConnection} (h : p.conns[k]? = some pc)
    (conn : Conn) : wireAt (p.setConn k conn) k = some conn.wire := by
  simp [wireAt, setConn, h]

theorem editForm_next {q : Request} {f : Reply q → Dialogue CallResult} {r : Reply q}
    (h : EditForm (.ask q f)) : ∃ a, f r = .ret a := by
  cases h with
  | sent sql params f k herr hok =>
    cases r with
    | error e => exact ⟨_, herr e⟩
    | ok reply => exact ⟨_, hok reply⟩

theorem editForm_settled {q : Request} {f : Reply q → Dialogue CallResult} {conn : Conn} {n : ℕ}
    (h : EditForm (.ask q f)) (hnum : Numbered conn.wire)
    (hb : ∀ b, conn.wire.block = some b → b.failed = true) (hn : Numbers g ⟨conn, q, ch⟩ n) :
    Settled n (Conn.serve g conn q ch).1.wire := by
  cases h with
  | sent sql params f k => exact extended_settled hnum hb hn.1 hn.2

/-- The log of an edit grows only by its statement. -/
theorem transition_editLog (h : Transition g cfg p e t p' t') :
    (∀ y ∈ editLog t', y ∈ editLog t ∨ y.2 = []) ∨
    ∃ s k call q f log pc, t = .running s k call (.ask q f) log ∧ p.conns[k]? = some pc ∧
      p' = p.setConn k (Conn.serve g pc.conn q e.choice).1 ∧
      t' = .running s k call (f (Conn.serve g pc.conn q e.choice).2)
        (log ++ [⟨pc.conn, q, e.choice⟩]) := by
  cases h with
  | served h => exact .inr ⟨_, _, _, _, _, _, _, rfl, h, rfl, rfl⟩
  | @locked s k call =>
    refine .inl fun y hy => .inr ?_
    simp only [editLog, Option.mem_def, Option.ite_none_right_eq_some, Option.some.injEq] at hy
    rw [← hy.2]
  | returned => exact .inl fun y hy => .inl hy
  | leaseHit | assigned =>
    rename Purpose => use
    cases use <;> exact .inl fun y hy => by cases hy
  | _ => exact .inl fun y hy => by cases hy

theorem transition_running (h : Transition g cfg p e t p' t') {s : SessionId} {call : Call}
    {prog : Dialogue CallResult} {log : List (Exchange Conn Request Choice)}
    (ht : t' = .running s k call prog log) :
    log = [] ∧ prog = call.prog ∨ ∃ q f log₀ r, t = .running s k call (.ask q f) log₀ ∧ prog = f r := by
  cases h with
  | locked =>
    cases ht
    exact .inl ⟨rfl, rfl⟩
  | served =>
    cases ht
    exact .inr ⟨_, _, _, _, rfl, rfl⟩
  | leaseHit | assigned =>
    rename Purpose => use
    cases use <;> cases ht
  | _ => cases ht

theorem acknowledged_step (h : Acknowledged g c) (hout : SentOutside c (.advance i e))
    (hi : c.tasks[i]? = some t)
    (hs : ConnectionPool.step g cfg c.shared t e = some (p', t')) :
    Acknowledged g ⟨p', c.tasks.set i t'⟩ := by
  have htrans := step_transition hs
  have hprogress := transition_progress htrans
  have hmem := List.mem_of_getElem? hi
  refine ⟨fun k w hw => hprogress.numbered h.numbered hw, fun s k call prog log hu hedit => ?_,
    fun u hu y hy x hx n hn => ?_⟩
  · rcases List.mem_or_eq_of_mem_set hu with hu | hu
    · exact h.form s k call prog log hu hedit
    · rcases transition_running htrans hu.symm with ⟨rfl, rfl⟩ | ⟨q, f, log₀, r, rfl, rfl⟩
      · exact .inl ⟨rfl, Call.edit_form hedit⟩
      · rcases h.form _ _ _ _ _ hmem hedit with ⟨-, hform⟩ | ⟨_, hret⟩
        · exact .inr (editForm_next hform)
        · cases hret
  · rcases List.mem_or_eq_of_mem_set hu with hu | rfl
    · exact hprogress.settled (h.settled u hu y hy x hx n hn)
    · rcases transition_editLog htrans with hlog | ⟨s, k, call, q, f, log, pc, rfl, hpc, rfl, rfl⟩
      · rcases hlog y hy with hy | hnil
        · exact hprogress.settled (h.settled t hmem y hy x hx n hn)
        · rw [hnil] at hx
          cases hx
      · simp only [editLog, Option.mem_def, Option.ite_none_right_eq_some, Option.some.injEq] at hy
        obtain ⟨hedit, rfl⟩ := hy
        rcases h.form _ _ _ _ _ hmem hedit with ⟨rfl, hform⟩ | ⟨_, hret⟩
        · obtain rfl := List.mem_singleton.mp hx
          have hw : wireAt c.shared k = some pc.conn.wire := by simp [wireAt, hpc]
          have hb : ∀ b, pc.conn.wire.block = some b → b.failed = true :=
            hout _ hi k (by simp [editing, hedit]) _ hw
          exact ⟨_, wireAt_setConn hpc _, editForm_settled hform (h.numbered k _ hw) hb hn⟩
        · cases hret

theorem acknowledged_spawn (h : Acknowledged g c) (ht : starts cfg t = true) :
    Acknowledged g ⟨c.shared, c.tasks ++ [t]⟩ := by
  refine ⟨h.numbered, fun s k call prog log hu hedit => ?_, fun u hu => ?_⟩
  · rcases List.mem_append.mp hu with hu | hu
    · exact h.form s k call prog log hu hedit
    · rw [← List.mem_singleton.mp hu] at ht
      cases ht
  · rcases List.mem_append.mp hu with hu | hu
    · exact h.settled u hu
    · obtain rfl := List.mem_singleton.mp hu
      intro y hy
      cases u <;> first | cases hy | cases ht

theorem acknowledged_connect (now : ℕ) : Acknowledged g (connect now) := by
  refine ⟨fun k w hw => ?_, fun s k call prog log hu => absurd hu List.not_mem_nil,
    fun u hu => absurd hu List.not_mem_nil⟩
  cases k with
  | zero => exact Option.some.inj hw ▸ numbered_fresh
  | succ k => cases hw

/-- Of every edit that returned Ok, each effect is committed and nothing has discarded it. -/
def EditsDurable (g : Grammar) (d : Config Pool Task) : Prop :=
  ∀ s k call v log, .answered s k call (.ok v) log ∈ d.tasks → call.isEdit = true →
    ∀ x ∈ log, ∀ n, Numbers g x n →
      ∃ w, wireAt d.shared k = some w ∧ n ∈ w.committed ∧ n ∉ w.discarded

/-- In every run in which the edits send their statements outside an open block, the edits that
returned Ok are durable in every configuration. -/
theorem acknowledged_edits_durable (g : Grammar) (cfg : PgConfig) (now : ℕ)
    (as : List (Action Task Event)) (d : Config Pool Task)
    (hm : (system g cfg).Meets SentOutside (connect now) as)
    (hr : (system g cfg).run (connect now) as = some d) : EditsDurable g d := by
  have hstep (c : Config Pool Task) (a : Action Task Event) (c' : Config Pool Task)
      (h : Acknowledged g c) (ha : SentOutside c a) (hact : (system g cfg).act c a = some c') :
      Acknowledged g c' := by
    rcases act_cases hact with ⟨t, rfl, ht, rfl⟩ | ⟨i, e, t, p', t', rfl, hi, hs, rfl⟩
    · exact acknowledged_spawn h ht
    · exact acknowledged_step h ha hi hs
  have hd := run_invariant hstep (acknowledged_connect now) hm hr
  intro s k call v log hanswer hedit x hx n hn
  have hlog : (k, log) ∈ editLog (.answered s k call (.ok v) log) := by simp [editLog, hedit]
  obtain ⟨w, hw, hsettled⟩ := hd.settled _ hanswer (k, log) hlog x hx n hn
  exact ⟨w, hw, hsettled.committed, hsettled.notDiscarded⟩

def clearCellFor (s : SessionId) : Action Task Event :=
  .spawn (.leaseFast s (.call (.updateCell "public".toList "t".toList "n".toList "int4".toList none
    "(0,1)".toList)))

def editThenShutdown : List (Action Task Event) :=
  clearCellFor "a".toList :: sections [0, 0, 0, 0, 0, 0] ++
    .spawn .shutdownInner :: sections [1, 1, 1]

theorem acknowledged_edits_durable_editThenShutdown :
    ∃ d, (system smallServer defaultPool).run (connect 0) editThenShutdown = some d ∧
      (wireAt d.shared 0).map (·.committed) = some [0] ∧ EditsDurable smallServer d := by
  have hrun : ∃ d, (system smallServer defaultPool).run (connect 0) editThenShutdown = some d ∧
      (wireAt d.shared 0).map (·.committed) = some [0] := run_decided (by decide +kernel)
  obtain ⟨d, hd, hcommitted⟩ := hrun
  exact ⟨d, hd, hcommitted, acknowledged_edits_durable smallServer defaultPool 0
    editThenShutdown d (by decide +kernel) hd⟩

/-- The same with a paging cursor of the session open. -/
def editUnderCursor : List (Action Task Event) :=
  selectFor "a".toList :: pages [0, 0, 0, 0, 0, 0, 0, 0, 0, 0] ++
    clearCellFor "a".toList :: sections [1, 1, 1, 1] ++ .spawn .shutdownInner :: sections [2, 2, 2]

def returnedOk : Task → Bool
  | .answered _ k call (.ok _) log =>
    k == 0 && call.isEdit && log.any fun x => decide (Numbers smallServer x 0)
  | _ => false

/-- The edit has answered Ok, and the shutdown has discarded its effect. -/
theorem editUnderCursor_not_durable :
    ∃ d, (system smallServer defaultPool).run (connect 0) editUnderCursor = some d ∧
      (wireAt d.shared 0).map (·.discarded) = some [0] ∧ ¬EditsDurable smallServer d := by
  have hrun : ∃ d, (system smallServer defaultPool).run (connect 0) editUnderCursor = some d ∧
      (wireAt d.shared 0).map (·.discarded) = some [0] ∧ ∃ t ∈ d.tasks, returnedOk t = true :=
    run_decided (by decide +kernel)
  obtain ⟨d, hd, hdiscarded, t, ht, hok⟩ := hrun
  refine ⟨d, hd, hdiscarded, fun hdurable => ?_⟩
  unfold returnedOk at hok
  split at hok
  · simp only [Bool.and_eq_true, beq_iff_eq, List.any_eq_true, decide_eq_true_eq] at hok
    obtain ⟨⟨rfl, hedit⟩, x, hx, hn⟩ := hok
    obtain ⟨w, hw, -, hnot⟩ := hdurable _ _ _ _ _ ht hedit x hx 0 hn
    rw [hw] at hdiscarded
    have hlist : w.discarded = [0] := by simpa using hdiscarded
    exact hnot (by simp [hlist])
  · cases hok

end SshCommander.EditDurability
