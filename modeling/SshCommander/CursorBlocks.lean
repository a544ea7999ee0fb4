import SshCommander.PostgresWireLaws
import SshCommander.PooledConnection

/-!
# The block the pool pages in

Away from a cursor of the pool the wire is `Idle`: outside any block, with no cursor of the
pool. Inside the pool's own BEGIN it is a `PoolBlock`, open or aborted, that carries the
cursors the pool declared there. Each command of the pool moves between the two.
-/

namespace SshCommander.CursorBlocks
open RustText SqlStatementSplit PostgresWire PostgresWire.Wire PooledConnection

def poolCursors (w : Wire) : List Text := (w.cursors.filter (·.owner == .pool)).map (·.name)

structure Idle (w : Wire) : Prop where
  outside : w.block = none
  users : ∀ k ∈ w.cursors, k.owner = .user

/-- Inside a message that no BEGIN has made explicit. -/
structure Implicit (w : Wire) : Prop where
  block : ∀ b, w.block = some b → b.owner = none
  users : ∀ k ∈ w.cursors, k.owner = .user

structure PoolBlock (w : Wire) (names : List Text) : Prop where
  up : w.up = true
  block : ∃ b, w.block = some b ∧ b.owner = some .pool
  fresh : ∀ k ∈ w.cursors, k.owner = .pool → k.fresh = true ∧ k.hold = false
  names : poolCursors w = names

def Live (w : Wire) : Prop := ∀ b, w.block = some b → b.failed = false

variable {w w' : Wire} {ch : Choice} {names : List Text}

theorem Idle.poolCursors (h : Idle w) : poolCursors w = [] := by
  have hf : w.cursors.filter (·.owner == .pool) = [] := by
    refine List.filter_eq_nil_iff.mpr fun k hk => ?_
    simp [h.users k hk]
  rw [CursorBlocks.poolCursors, hf, List.map_nil]

theorem PoolBlock.enter (h : PoolBlock w names) : w.enter = w := by
  obtain ⟨b, hb, -⟩ := h.block
  exact enter_some hb

theorem endBlock_users (h : ∀ k ∈ w.cursors, k.owner = .user) (e : Ending) :
    ∀ k ∈ (w.endBlock e).cursors, k.owner = .user := by
  intro k hk
  obtain ⟨k₀, hk₀, -, ho, -⟩ := mem_endBlock_cursors hk
  exact ho ▸ h k₀ hk₀

theorem Idle.enter (h : Idle w) : Implicit w.enter := by
  rw [enter_none h.outside]
  refine ⟨fun b hb => ?_, h.users⟩
  obtain rfl := Option.some.inj hb
  rfl

theorem Implicit.ended (h : Implicit w) (e : Ending) : Idle (w.endBlock e) :=
  ⟨endBlock_block w e, endBlock_users h.users e⟩

theorem Implicit.outside (h : Implicit w) (hb : w.block = none) : Idle w := ⟨hb, h.users⟩

theorem Implicit.abort (h : Implicit w) : Idle w.abort := by
  cases hb : w.block with
  | none => exact (abort_none hb).symm ▸ h.outside hb
  | some b => exact (abort_implicit hb (h.block b hb)).symm ▸ h.ended .error

theorem Implicit.finish (h : Implicit w) : Idle w.finish := by
  cases hb : w.block with
  | none => exact (finish_none hb).symm ▸ h.outside hb
  | some b => exact (finish_implicit hb (h.block b hb)).symm ▸ h.ended .auto

theorem lose_idle (w : Wire) : Idle w.lose := ⟨lose_block w, by simp⟩

theorem Idle.abort (h : Idle w) : Idle w.abort := (abort_none h.outside).symm ▸ h

/-- A cursor of the pool never outlives the block it was declared in. -/
theorem PoolBlock.ended (h : PoolBlock w names) (e : Ending) : Idle (w.endBlock e) := by
  refine ⟨endBlock_block w e, fun k hk => ?_⟩
  obtain ⟨b, hb, -⟩ := h.block
  obtain ⟨k₀, hk₀, -, ho, hh, hkept⟩ := mem_endBlock_cursors hk
  cases hk' : k.owner with
  | user => rfl
  | pool =>
    obtain ⟨hfresh, hhold⟩ := h.fresh k₀ hk₀ (ho.trans hk')
    rcases (hkept (by simp [hb])).1 with hc | hc
    · exact absurd (hh.symm.trans hhold) (by simp [hc])
    · exact absurd hfresh (by simp [hc])

theorem PoolBlock.abort (h : PoolBlock w names) : PoolBlock w.abort names := by
  obtain ⟨b, hb, ho⟩ := h.block
  rw [abort_explicit hb (by simp [ho])]
  exact ⟨h.up, ⟨_, rfl, ho⟩, h.fresh, h.names⟩

theorem PoolBlock.finish (h : PoolBlock w names) : w.finish = w := by
  obtain ⟨b, hb, ho⟩ := h.block
  exact finish_explicit hb (by simp [ho])

theorem Implicit.plain {o : Origin} (h : Implicit w) (hp : PlainStep o w w')
    (hc : ∀ k ∈ w'.cursors, k.owner = .user) : Implicit w' := by
  refine ⟨fun b hb => ?_, hc⟩
  cases hw : w.block with
  | none => exact absurd (hb.symm.trans (hp.outside hw).1) (by simp)
  | some b₀ =>
    rcases hp.inside b₀ hw with ⟨hb', -⟩ | ⟨hb', -⟩
    · exact h.block b (hw.trans (hb'.symm.trans hb))
    · obtain rfl := Option.some.inj (hb'.symm.trans hb)
      exact h.block b₀ hw

/-- A text without transaction control, sent outside a block, stays outside. -/
theorem Idle.userText {parsed : Option (List Stmt)} (h : Idle w)
    (hfree : ∀ sts, parsed = some sts → ∀ st ∈ sts, st.isControl = false) :
    Idle (w.simpleQuery .user parsed ch).1 := by
  cases parsed with
  | none =>
    unfold simpleQuery
    split
    · exact h
    · exact h.abort
  | some sts =>
    have hkeeps : Keeps Implicit Idle .user sts := by
      refine ⟨fun w w' rows n st ms hm hw hs => ?_, fun _ => Implicit.abort,
        fun _ => Implicit.finish, fun w _ => lose_idle w⟩
      have hc := hfree sts rfl st hm
      rcases stmt_cases hs with ⟨rfl, -⟩ | ⟨rfl, -⟩ | ⟨rfl, -⟩ | ⟨-, hp⟩
      · cases hc
      · cases hc
      · cases hc
      · refine hw.plain hp fun k hk => ?_
        rcases hp.cursors k hk with ⟨ho, -⟩ | ⟨k₀, hk₀, -, ho, -⟩
        · exact ho
        · exact ho ▸ hw.users k₀ hk₀
    exact hkeeps.simpleQuery ch (fun _ => h) h.enter

theorem Idle.prepare (h : Idle w) (parsed : Option (List Stmt)) : Idle (w.prepare parsed ch).1 := by
  rcases prepare_wire w parsed ch with hw | hw | hw
  · exact hw.symm ▸ h
  · exact hw.symm ▸ lose_idle w
  · exact hw.symm ▸ h.abort

theorem stmt_query {o : Origin} {rows : List Row} {n : ℕ} {q : Query} {ms : List Message}
    (h : w.stmt o rows n (.query q) = .ok (w', ms)) : w' = w.record q.writes := by
  have h := stmt_ok h
  simp only [stmtOpen, Except.ok.injEq, Prod.mk.injEq] at h
  exact h.1.symm

theorem Idle.extended (h : Idle w) (q : Query) : Idle (w.extended q ch).1 := by
  have hkeeps : Keeps Implicit Idle .pool [.query q] := by
    refine ⟨fun w w' rows n st ms hm hw hs => ?_, fun _ => Implicit.abort,
      fun _ => Implicit.finish, fun w _ => lose_idle w⟩
    obtain rfl := List.mem_singleton.mp hm
    obtain rfl := stmt_query hs
    exact hw.plain (plainStep_record .pool w q.writes)
      fun k hk => hw.users k (record_cursors w q.writes ▸ hk)
  exact hkeeps.extended ch h h.enter

theorem PoolBlock.record (h : PoolBlock w names) (writes : Bool) :
    PoolBlock (w.record writes) names := by
  have hp := plainStep_record .pool w writes
  obtain ⟨b, hb, ho⟩ := h.block
  have hc := record_cursors w writes
  refine ⟨hp.up.trans h.up, ?_, fun k hk => h.fresh k (hc ▸ hk), ?_⟩
  · rcases hp.inside b hb with ⟨hb', -⟩ | ⟨hb', -⟩
    · exact ⟨b, hb', ho⟩
    · exact ⟨_, hb', ho⟩
  · rw [poolCursors, hc]
    exact h.names

theorem PoolBlock.extended (h : PoolBlock w names) (q : Query) :
    PoolBlock (w.extended q ch).1 names ∨
      Idle (w.extended q ch).1 ∧ (w.extended q ch).1.up = false := by
  have hkeeps : Keeps (PoolBlock · names) (fun w => PoolBlock w names ∨ Idle w ∧ w.up = false)
      .pool [.query q] := by
    refine ⟨fun w w' rows n st ms hm hw hs => ?_, fun w hw => .inl hw.abort,
      fun w hw => .inl (hw.finish.symm ▸ hw), fun w _ => .inr ⟨lose_idle w, rfl⟩⟩
    obtain rfl := List.mem_singleton.mp hm
    exact stmt_query hs ▸ hw.record q.writes
  exact hkeeps.extended ch (.inl h) (h.enter.symm ▸ h)

/-- ROLLBACK fails only by losing the wire. -/
theorem runOne_rollback (w : Wire) (o : Origin) (ch : Choice) (i : ℕ) :
    w.runOne o ch i .rollback = (w.lose, .error .closed) ∨
    w.runOne o ch i .rollback =
      ((w.endBlock (.rollback o)).enter, .ok [.commandComplete 0]) := by
  have hstmt : w.stmt o (ch.rows i) (ch.affected i) .rollback =
      .ok ((w.endBlock (.rollback o)).enter, [.commandComplete 0]) := by
    unfold stmt
    split <;> rfl
  have hcode : ch.fault.codeAt i .rollback = none := by
    unfold Fault.codeAt
    split <;> simp [Stmt.isRollback]
  unfold runOne
  split
  · exact .inl rfl
  · rw [hstmt, hcode]
    exact .inr rfl

theorem rollback_idle (h : (∃ names, PoolBlock w names) ∨ Idle w) :
    Idle (w.simpleQuery .pool (some [.rollback]) ch).1 := by
  have hended : Idle (w.enter.endBlock (.rollback .pool)) := by
    rcases h with ⟨names, h⟩ | h
    · exact h.enter.symm ▸ h.ended _
    · exact h.enter.ended _
  unfold simpleQuery
  split
  · rename_i hdown
    rcases h with ⟨names, h⟩ | h
    · exact absurd h.up (by simp [hdown])
    · exact h
  · simp only [runStmts]
    rcases runOne_rollback w.enter .pool ch 0 with hr | hr
    · rw [hr]
      exact lose_idle _
    · rw [hr]
      exact hended.enter.finish

/-- The three outcomes of a message of one statement in the pool's block. -/
theorem PoolBlock.single (h : PoolBlock w names) (ch : Choice) (st : Stmt) :
    (w.simpleQuery .pool (some [st]) ch = (w.lose, .error .closed)) ∨
    (∃ code, w.simpleQuery .pool (some [st]) ch = (w.abort, .error (.server code))) ∨
    (∃ w' ms, w.simpleQuery .pool (some [st]) ch = (w'.finish, .ok ms) ∧
      w.stmt .pool (ch.rows 0) (ch.affected 0) st = .ok (w', ms)) := by
  have hup : ¬w.up = false := by simp [h.up]
  simp only [simpleQuery, if_neg hup, h.enter, runStmts]
  rcases runOne_cases w .pool ch 0 st with ⟨hr, -⟩ | ⟨code, hr, -⟩ | ⟨w', ms, hr, -, hs⟩
  · exact .inl (by rw [hr])
  · exact .inr (.inl ⟨code, by rw [hr]⟩)
  · exact .inr (.inr ⟨w', ms, by rw [hr]; rfl, hs⟩)

/-- An aborted block runs nothing but what ends it. -/
theorem stmt_live {o : Origin} {rows : List Row} {n : ℕ} {st : Stmt} {ms : List Message}
    (h : w.stmt o rows n st = .ok (w', ms)) (hst : st.endsBlock = false) : Live w := by
  intro b hb
  obtain ⟨owner, failed, pending⟩ := b
  cases failed with
  | false => rfl
  | true => simp [stmt, hb, hst] at h

theorem poolCursors_map {f : Cursor → Cursor} (hn : ∀ k, (f k).name = k.name)
    (ho : ∀ k, (f k).owner = k.owner) (cs : List Cursor) :
    ((cs.map f).filter (·.owner == .pool)).map (·.name) =
      (cs.filter (·.owner == .pool)).map (·.name) := by
  induction cs with
  | nil => rfl
  | cons k cs ih => by_cases hk : k.owner = .pool <;> simp_all

theorem PoolBlock.fetched {rows : List Row} {n count : ℕ} {c : Text} {ms : List Message}
    (h : PoolBlock w names) (hs : w.stmt .pool rows n (.fetch count c) = .ok (w', ms)) :
    PoolBlock w' names ∧ Live w' := by
  have hlive := stmt_live hs rfl
  have hopen := stmt_ok hs
  simp only [stmtOpen] at hopen
  split at hopen
  · cases hopen
  · simp only [Except.ok.injEq, Prod.mk.injEq] at hopen
    obtain ⟨rfl, -⟩ := hopen
    refine ⟨⟨h.up, h.block, fun k hk ho => ?_, ?_⟩, hlive⟩
    · obtain ⟨k₀, hk₀, rfl⟩ := List.mem_map.mp hk
      have hf := h.fresh k₀ hk₀
      split <;> rename_i hn <;> simp only [hn] at ho <;> exact hf ho
    · rw [← h.names]
      refine poolCursors_map ?_ ?_ w.cursors <;> intro k <;> split <;> rfl

/-- FETCH leaves the block and its cursors; it succeeds only in a block that is not aborted. -/
theorem PoolBlock.fetch (h : PoolBlock w names) (ch : Choice) (n : ℕ) (c : Text) :
    Leads (fun w' => PoolBlock w' names ∧ Live w')
      (fun w' => PoolBlock w' names ∨ Idle w' ∧ w'.up = false)
      (w.simpleQuery .pool (some [.fetch n c]) ch) := by
  rcases h.single ch (.fetch n c) with hq | ⟨code, hq⟩ | ⟨w', ms, hq, hs⟩
  · rw [hq]
    exact leads_error (.inr ⟨lose_idle w, rfl⟩)
  · rw [hq]
    exact leads_error (.inl h.abort)
  · have h' := h.fetched hs
    rw [hq, h'.1.finish]
    exact leads_ok h'

def FailsBefore (ch : Choice) (n : ℕ) : Prop := ∃ i code, ch.fault = .error i code ∧ i < n

theorem codeAt_some {f : Fault} {i : ℕ} {st : Stmt} {code : String}
    (h : f.codeAt i st = some code) : f = .error i code := by
  unfold Fault.codeAt at h
  split at h
  · rename_i j code'
    split at h
    · rename_i hj
      rw [hj.1, Option.some.inj h]
    · cases h
  · cases h

theorem PoolBlock.closed {rows : List Row} {n : ℕ} {c : Text} {ms : List Message}
    (h : PoolBlock w names) (hs : w.stmt .pool rows n (.close c) = .ok (w', ms)) :
    PoolBlock w' (poolCursors w') ∧ Live w' := by
  have hlive := stmt_live hs rfl
  have hopen := stmt_ok hs
  simp only [stmtOpen] at hopen
  split at hopen
  · simp only [Except.ok.injEq, Prod.mk.injEq] at hopen
    obtain ⟨rfl, -⟩ := hopen
    exact ⟨⟨h.up, h.block, fun k hk => h.fresh k (List.mem_filter.mp hk).1, rfl⟩, hlive⟩
  · cases hopen

/-- In a block that is not aborted, CLOSE of a cursor of the pool fails only by a fault. -/
theorem PoolBlock.close_ok {rows : List Row} {n : ℕ} {c : Text} (h : PoolBlock w names)
    (hlive : Live w) (hc : c ∈ names) : ∃ r, w.stmt .pool rows n (.close c) = .ok r := by
  obtain ⟨⟨owner, failed, pending⟩, hb, -⟩ := h.block
  obtain rfl : failed = false := hlive _ hb
  rw [← h.names] at hc
  obtain ⟨k, hk, hn⟩ := List.mem_map.mp hc
  have hfound : (w.findCursor c).isSome := by
    simp only [findCursor, List.find?_isSome]
    exact ⟨k, (List.mem_filter.mp hk).1, by simp [hn]⟩
  simp only [stmt, hb, stmtOpen, hfound, if_true]
  exact ⟨_, rfl⟩

theorem commit_ok {o : Origin} {rows : List Row} {n : ℕ} (w : Wire) :
    w.stmt o rows n .commit = .ok ((w.endBlock (.commit o)).enter, [.commandComplete 0]) := by
  unfold stmt
  split <;> rfl

/-- `CLOSE c; COMMIT` leaves the wire idle, or the block aborted. The last happens only by a fault
or in a block that was not in order. -/
theorem PoolBlock.closeCommit (h : PoolBlock w names) (ch : Choice) (c : Text) :
    Idle (w.simpleQuery .pool (some [.close c, .commit]) ch).1 ∧ ¬FailsBefore ch 2 ∨
    (∃ w' e, w.simpleQuery .pool (some [.close c, .commit]) ch = (w', .error e) ∧
      PoolBlock w' (poolCursors w') ∧ (Live w → c ∈ names → FailsBefore ch 2)) := by
  have hup : ¬w.up = false := by simp [h.up]
  simp only [simpleQuery, if_neg hup, h.enter, runStmts]
  rcases runOne_cases w .pool ch 0 (.close c) with
    ⟨hr, hf⟩ | ⟨code, hr, hcause⟩ | ⟨w₁, ms, hr, hf, hs⟩
  · rw [hr]
    refine .inl ⟨lose_idle w, ?_⟩
    rintro ⟨i, code, hi, -⟩
    exact absurd (hf.symm.trans hi) (by simp)
  · refine .inr ⟨w.abort, _, by rw [hr], ⟨h.abort.up, h.abort.block, h.abort.fresh, rfl⟩, ?_⟩
    intro hlive hc
    rcases hcause with hcode | herr
    · exact ⟨0, code, codeAt_some hcode, by omega⟩
    · obtain ⟨r, hr'⟩ := h.close_ok hlive hc
      exact absurd (herr.symm.trans hr') (by simp)
  · obtain ⟨h₁, -⟩ := h.closed hs
    rw [hr]
    dsimp only
    rcases runOne_cases w₁ .pool ch 1 .commit with
      ⟨hr₁, hf₁⟩ | ⟨code, hr₁, hcause⟩ | ⟨w₂, ms₂, hr₁, hf₁, hs₁⟩
    · rw [hr₁]
      refine .inl ⟨lose_idle w₁, ?_⟩
      rintro ⟨i, code, hi, -⟩
      exact absurd (hf₁.symm.trans hi) (by simp)
    · refine .inr ⟨w₁.abort, _, by rw [hr₁], ⟨h₁.abort.up, h₁.abort.block, h₁.abort.fresh, rfl⟩, ?_⟩
      intro _ _
      rcases hcause with hcode | herr
      · exact ⟨1, code, codeAt_some hcode, by omega⟩
      · exact absurd (herr.symm.trans (commit_ok w₁)) (by simp)
    · rw [commit_ok, Except.ok.injEq, Prod.mk.injEq] at hs₁
      obtain ⟨rfl, rfl⟩ := hs₁
      rw [hr₁]
      refine .inl ⟨(h₁.ended _).enter.finish, ?_⟩
      rintro ⟨i, code, hi, hlt⟩
      have hcases : i = 0 ∨ i = 1 := by omega
      rcases hcases with rfl | rfl
      · simp [Fault.codeAt, hi, Stmt.isRollback] at hf
      · simp [Fault.codeAt, hi, Stmt.isRollback] at hf₁

theorem plainStep_live {o : Origin} (h : PlainStep o w w') (hl : Live w) : Live w' := by
  intro b hb
  cases hw : w.block with
  | none => exact absurd ((h.outside hw).1.symm.trans hb) (by simp)
  | some b₀ =>
    rcases h.inside b₀ hw with ⟨hb', -⟩ | ⟨hb', -⟩
    · exact hl b (hw.trans (hb'.symm.trans hb))
    · obtain rfl := Option.some.inj (hb'.symm.trans hb)
      exact hl b₀ hw

theorem PoolBlock.declared {rows : List Row} {n : ℕ} {c : Text} {q : Query} {ms : List Message}
    (h : PoolBlock w names) (hs : w.stmt .pool rows n (.declare c false q) = .ok (w', ms)) :
    PoolBlock w' (c :: names) ∧ Live w' := by
  have hlive := plainStep_live (stmtOpen_plain rfl (stmt_ok hs)) (stmt_live hs rfl)
  have hopen := stmt_ok hs
  simp only [stmtOpen] at hopen
  split at hopen
  · cases hopen
  · simp only [Except.ok.injEq, Prod.mk.injEq] at hopen
    obtain ⟨rfl, -⟩ := hopen
    have hr := h.record q.writes
    refine ⟨⟨hr.up, hr.block, fun k hk ho => ?_, ?_⟩, hlive⟩
    · rcases List.mem_cons.mp hk with rfl | hk
      · exact ⟨rfl, rfl⟩
      · exact hr.fresh k hk ho
    · rw [← hr.names]
      rfl

/-- BEGIN outside a block opens the pool's. -/
theorem Idle.begun (h : Idle w) (hup : w.up = true) :
    PoolBlock (w.enter.begin .pool) [] := by
  have hbegin : w.enter.begin .pool = { w with block := some ⟨some .pool, false, []⟩ } := by
    simp [enter_none h.outside, Wire.begin]
  rw [hbegin]
  refine ⟨hup, ⟨_, rfl, rfl⟩, fun k hk ho => ?_, h.poolCursors⟩
  exact absurd ((h.users k hk).symm.trans ho) (by simp)

/-- Declaring a cursor opens the pool's block, if anything. -/
theorem Idle.beginDeclare (h : Idle w) (g : Grammar) (ch : Choice) (c : Text) (sql : Sql) :
    Leads (PoolBlock · [c]) (fun w' => (∃ names, PoolBlock w' names) ∨ Idle w')
      (w.simpleQuery .pool (Command.declareStmts g c sql) ch) := by
  cases hup : w.up with
  | false =>
    rw [simpleQuery_down hup]
    exact leads_error (.inr h)
  | true =>
    rcases Command.declareStmts_cases g c sql with hp | ⟨q, hp⟩
    · rw [hp, simpleQuery_none hup]
      exact leads_error (.inr h.abort)
    · have hdown : ¬w.up = false := by simp [hup]
      simp only [hp, simpleQuery, if_neg hdown, runStmts]
      rcases runOne_cases w.enter .pool ch 0 .begin with
        ⟨hr, -⟩ | ⟨code, hr, -⟩ | ⟨w₁, ms, hr, -, hs⟩
      · rw [hr]
        exact leads_error (.inr (lose_idle _))
      · rw [hr]
        exact leads_error (.inr h.enter.abort)
      · have hw₁ : w₁ = w.enter.begin .pool := by
          have hopen := stmt_ok hs
          simp only [stmtOpen, Except.ok.injEq, Prod.mk.injEq] at hopen
          exact hopen.1.symm
        have h₁ : PoolBlock w₁ [] := hw₁ ▸ h.begun hup
        rw [hr]
        dsimp only
        rcases runOne_cases w₁ .pool ch 1 (.declare c false q) with
          ⟨hr₁, -⟩ | ⟨code, hr₁, -⟩ | ⟨w₂, ms₂, hr₁, -, hs₁⟩
        · rw [hr₁]
          exact leads_error (.inr (lose_idle _))
        · rw [hr₁]
          exact leads_error (.inl ⟨_, h₁.abort⟩)
        · have h₂ := (h₁.declared hs₁).1
          rw [hr₁]
          simp only [h₂.finish]
          exact leads_ok h₂

end SshCommander.CursorBlocks
