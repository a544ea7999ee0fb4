import SshCommander.CursorBlocks
import SshCommander.QueryPaths

/-!
# What release_session puts in idle

`release_session` ends a transaction only through the active cursor. So the wire it returns is
clean exactly when there was an active cursor to close, or nothing to clean up, and no WITH
HOLD cursor is open.
-/

namespace SshCommander.IdleCleanliness
open InteractionPrograms RustText SqlStatementSplit PostgresWire PostgresWire.Wire
  PooledConnection QueryExecution RowEditing SessionCalls QueryPaths QueryPaths.Discipline
  CursorBlocks

/-- Outside any transaction block, with no open cursor. -/
structure Clean (w : Wire) : Prop where
  outside : w.block = none
  noCursor : w.cursors = []

def releasedWire (g : Grammar) (conn : Conn) (env : ℕ → Choice) : Wire :=
  (exec (Conn.serve g) releaseCleanup conn env).state.wire

/-- What `release_session` can clean up: a block only through the active cursor, and no cursor
WITH HOLD. -/
structure CanClean (conn : Conn) : Prop where
  block : conn.activeCursor = none → conn.wire.block = none
  noHold : ∀ k ∈ conn.wire.cursors, k.hold = false

structure Scoped (w : Wire) : Prop where
  held : ∀ k ∈ w.cursors, k.fresh = false → k.hold = true
  outside : w.block = none → ∀ k ∈ w.cursors, k.fresh = false
  down : w.up = false → w.block = none ∧ w.cursors = []

variable {w w' : Wire} {ch : Choice}

theorem Scoped.endBlock (h : Scoped w) (e : Ending) : Scoped (w.endBlock e) := by
  cases hb : w.block with
  | none => exact (endBlock_none hb e).symm ▸ h
  | some b =>
    refine ⟨fun k hk _ => ?_, fun _ k hk => ?_, fun hdown => ?_⟩
    · obtain ⟨k₀, hk₀, -, -, hh, hkept⟩ := mem_endBlock_cursors hk
      rcases (hkept (by simp [hb])).1 with hold | hfresh
      · exact hold
      · exact hh.symm.trans (h.held k₀ hk₀ hfresh)
    · obtain ⟨k₀, -, -, -, -, hkept⟩ := mem_endBlock_cursors hk
      exact (hkept (by simp [hb])).2
    · rw [endBlock_up] at hdown
      exact absurd (h.down hdown).1 (by simp [hb])

theorem lose_scoped (w : Wire) : Scoped w.lose := ⟨by simp, by simp, by simp⟩

/-- Inside a message every statement runs in a block. -/
structure Running (w : Wire) : Prop where
  inScope : Scoped w
  up : w.up = true
  inside : w.block ≠ none

theorem Scoped.enter (h : Scoped w) (hup : w.up = true) : Running w.enter := by
  refine ⟨⟨fun k hk => h.held k (enter_cursors w ▸ hk), fun hb => ?_, fun hd => ?_⟩,
    (enter_up w).trans hup, ?_⟩
  · rcases enter_block w with ⟨he, -⟩ | ⟨he, hn⟩
    · exact absurd (he.symm.trans hb) (by simp)
    · exact absurd (he.symm.trans hb) hn
  · exact absurd (hup.symm.trans ((enter_up w).symm.trans hd)) (by simp)
  · rcases enter_block w with ⟨he, -⟩ | ⟨he, hn⟩
    · simp [he]
    · simpa [he] using hn

theorem Running.abort (h : Running w) : Scoped w.abort := by
  cases hb : w.block with
  | none => exact absurd hb h.inside
  | some b =>
    cases ho : b.owner with
    | none => exact (abort_implicit hb ho).symm ▸ h.inScope.endBlock .error
    | some o =>
      rw [abort_explicit hb (by simp [ho])]
      exact ⟨h.inScope.held, by simp, fun hd => absurd (h.up.symm.trans hd) (by simp)⟩

theorem Scoped.abort (h : Scoped w) : Scoped w.abort := by
  cases hb : w.block with
  | none => exact (abort_none hb).symm ▸ h
  | some b =>
    cases hup : w.up with
    | false => exact absurd (h.down hup).1 (by simp [hb])
    | true => exact Running.abort ⟨h, hup, by simp [hb]⟩

theorem Scoped.finish (h : Scoped w) : Scoped w.finish := by
  unfold Wire.finish
  split
  · exact h.endBlock .auto
  · exact h

theorem running_keeps (o : Origin) (sts : List Stmt) : Keeps Running Scoped o sts := by
  refine ⟨fun w w' rows n st ms _ hw hs => ?_, fun w => Running.abort, fun w hw => hw.inScope.finish,
    fun w _ => lose_scoped w⟩
  rcases stmt_cases hs with ⟨rfl, rfl⟩ | ⟨rfl, rfl⟩ | ⟨rfl, rfl⟩ | ⟨-, hp⟩
  · unfold Wire.begin
    split
    · exact ⟨⟨hw.inScope.held, by simp, fun hd => absurd (hw.up.symm.trans hd) (by simp)⟩,
        hw.up, by simp⟩
    · exact hw
  · exact (hw.inScope.endBlock _).enter ((endBlock_up w _).trans hw.up)
  · exact (hw.inScope.endBlock _).enter ((endBlock_up w _).trans hw.up)
  · have hin : w'.block ≠ none := by
      cases hb : w.block with
      | none => exact absurd hb hw.inside
      | some b => rcases hp.inside b hb with ⟨hb', -⟩ | ⟨hb', -⟩ <;> simp [hb']
    have hup := hp.up.trans hw.up
    refine ⟨⟨fun k hk hf => ?_, fun hb => absurd hb hin,
      fun hd => absurd (hup.symm.trans hd) (by simp)⟩, hup, hin⟩
    rcases hp.cursors k hk with ⟨-, hfresh⟩ | ⟨k₀, hk₀, -, -, hh, hfr⟩
    · exact absurd (hfresh.symm.trans hf) (by simp)
    · exact hh.symm.trans (hw.inScope.held k₀ hk₀ (hfr.trans hf))

theorem Scoped.simpleQuery (h : Scoped w) (o : Origin) (parsed : Option (List Stmt)) :
    Scoped (w.simpleQuery o parsed ch).1 := by
  cases hup : w.up with
  | false => rwa [simpleQuery_down hup]
  | true =>
    cases parsed with
    | none => exact (simpleQuery_none hup).symm ▸ h.abort
    | some sts => exact (running_keeps o sts).simpleQuery ch (fun _ => h) (h.enter hup)

theorem Scoped.extended (h : Scoped w) (q : Query) : Scoped (w.extended q ch).1 := by
  cases hup : w.up with
  | false => simpa [Wire.extended, hup] using h
  | true => exact (running_keeps .pool _).extended ch h (h.enter hup)

theorem Scoped.prepare (h : Scoped w) (parsed : Option (List Stmt)) :
    Scoped (w.prepare parsed ch).1 := by
  rcases prepare_wire w parsed ch with hw | hw | hw
  · exact hw.symm ▸ h
  · exact hw.symm ▸ lose_scoped w
  · exact hw.symm ▸ h.abort

theorem send_scoped {g : Grammar} (h : Scoped w) (c : Command) : Scoped (c.send g w ch).1 := by
  cases c with
  | prepare sql => exact h.prepare _
  | extended sql params q => exact h.extended q
  | batchExecute | simpleQuery | beginDeclare | fetchForward | closeCommit | rollback =>
    exact h.simpleQuery _ _

theorem serve_scoped {g : Grammar} {conn : Conn} (h : Scoped conn.wire) (q : Request) :
    Scoped (Conn.serve g conn q ch).1.wire := by
  cases q with
  | takeCursor | readCursor | setCursor => exact h
  | takeCursorIf id => exact (Conn.takeIf_wire conn id).symm ▸ h
  | send c => exact send_scoped h c

def NoHold (w : Wire) : Prop := ∀ k ∈ w.cursors, k.hold = false

theorem NoHold.endBlock (h : NoHold w) (e : Ending) : NoHold (w.endBlock e) := by
  intro k hk
  obtain ⟨k₀, hk₀, -, -, hh, -⟩ := mem_endBlock_cursors hk
  exact hh ▸ h k₀ hk₀

theorem NoHold.enter (h : NoHold w) : NoHold w.enter := fun k hk => h k (enter_cursors w ▸ hk)

theorem NoHold.finish (h : NoHold w) : NoHold w.finish := by
  unfold Wire.finish
  split
  · exact h.endBlock .auto
  · exact h

theorem NoHold.abort (h : NoHold w) : NoHold w.abort := by
  unfold Wire.abort
  split
  · exact h
  · split
    · exact h.endBlock .error
    · exact h

/-- What the pool sends to end a cursor declares none. -/
theorem noHold_keeps {c : Text} {sts : List Stmt}
    (hsts : ∀ st ∈ sts, st = .close c ∨ st = .commit ∨ st = .rollback) :
    Keeps NoHold NoHold .pool sts := by
  refine ⟨fun w w' rows n st ms hm hw hs => ?_, fun _ => NoHold.abort, fun _ => NoHold.finish,
    fun w _ => by simp [NoHold]⟩
  have hopen := stmt_ok hs
  rcases hsts st hm with rfl | rfl | rfl
  · simp only [stmtOpen] at hopen
    split at hopen
    · simp only [Except.ok.injEq, Prod.mk.injEq] at hopen
      obtain ⟨rfl, -⟩ := hopen
      exact fun k hk => hw k (List.mem_filter.mp hk).1
    · cases hopen
  · simp only [stmtOpen, Except.ok.injEq, Prod.mk.injEq] at hopen
    exact hopen.1 ▸ (hw.endBlock _).enter
  · simp only [stmtOpen, Except.ok.injEq, Prod.mk.injEq] at hopen
    exact hopen.1 ▸ (hw.endBlock _).enter

theorem finish_enter_block (h : w.block = none) : w.enter.finish.block = none := by
  rw [finish_implicit (b := ⟨none, false, []⟩) (by simp [enter_none h]) rfl, endBlock_block]

theorem closeCommit_outside {c : Text} {ms : List Message}
    (h : (w.simpleQuery .pool (some [.close c, .commit]) ch).2 = .ok ms) :
    (w.simpleQuery .pool (some [.close c, .commit]) ch).1.block = none := by
  obtain ⟨-, w', hran, hw'⟩ := simpleQuery_ok h
  rw [hw']
  obtain _ | ⟨-, _ | ⟨hcommit, _ | _⟩⟩ := hran
  rw [commit_ok, Except.ok.injEq, Prod.mk.injEq] at hcommit
  exact hcommit.1 ▸ finish_enter_block (endBlock_block _ _)

theorem rollback_outside (h : Scoped w) :
    (w.simpleQuery .pool (some [.rollback]) ch).1.block = none := by
  cases hup : w.up with
  | false => exact (simpleQuery_down hup _).symm ▸ (h.down hup).1
  | true =>
    have hdown : ¬w.up = false := by simp [hup]
    simp only [simpleQuery, if_neg hdown, runStmts]
    rcases runOne_rollback w.enter .pool ch 0 with hr | hr
    · rw [hr]
      exact lose_block _
    · rw [hr]
      exact finish_enter_block (endBlock_block _ _)

variable {g : Grammar} {conn : Conn}

theorem clean_of_noHold (hs : Scoped w) (hn : NoHold w) (hb : w.block = none) : Clean w := by
  refine ⟨hb, List.eq_nil_iff_forall_not_mem.mpr fun k hk => ?_⟩
  exact absurd ((hs.held k hk (hs.outside hb k hk)).symm.trans (hn k hk)) (by simp)

theorem closeQuery_clean {c : ActiveCursor} {spoilt : Unit → Conn → Prop} (hs : Scoped conn.wire)
    (hn : NoHold conn.wire) :
    wpUnless (Conn.serve g) .idle (closeQuery c) conn (fun _ conn => Clean conn.wire) spoilt := by
  apply wpUnless_request fun _ hb => hb
  intro ch _
  have hs' : Scoped (Conn.serve g conn (.send (.closeCommit c.cursorId .requested)) ch).1.wire :=
    hs.simpleQuery _ _
  have hn' : NoHold (Conn.serve g conn (.send (.closeCommit c.cursorId .requested)) ch).1.wire :=
    (noHold_keeps (c := c.cursorId) (by simp)).simpleQuery ch (fun _ => hn) hn.enter
  split
  · rename_i ms hr
    exact wpUnless_ret (clean_of_noHold hs' hn' (closeCommit_outside hr))
  · apply wpUnless_request fun _ hb => hb
    intro ch' _
    apply wpUnless_ret
    apply clean_of_noHold (hs'.simpleQuery _ _) _ (rollback_outside hs')
    exact (noHold_keeps (c := c.cursorId) (by simp)).simpleQuery ch' (fun _ => hn') hn'.enter

theorem releasedWire_clean (hs : Scoped conn.wire) (hc : CanClean conn) (env : ℕ → Choice) :
    Clean (releasedWire g conn env) := by
  have hwalk : wpUnless (Conn.serve g) .idle releaseCleanup conn
      (fun _ conn => Clean conn.wire) fun _ _ => True := by
    apply wpUnless_request fun _ hb => hb
    intro _ _
    obtain ⟨w, active⟩ := conn
    cases active with
    | none => exact wpUnless_ret (clean_of_noHold hs hc.noHold (hc.block rfl))
    | some c => exact closeQuery_clean hs hc.noHold
  exact wpUnless_idle_exec hwalk env

/-- The page cursor `c` is open in a block that is in order. -/
structure Parked (c : Text) (w : Wire) : Prop where
  up : w.up = true
  block : ∃ b, w.block = some b ∧ b.owner ≠ none ∧ b.failed = false
  found : ∃ k ∈ w.cursors, k.name = c
  notHeld : ∀ k ∈ w.cursors, k.name = c → k.hold = false

theorem Parked.enter {c : Text} (h : Parked c w) : w.enter = w := by
  obtain ⟨b, hb, -⟩ := h.block
  exact enter_some hb

theorem Parked.finish {c : Text} (h : Parked c w) : w.finish = w := by
  obtain ⟨b, hb, ho, -⟩ := h.block
  exact finish_explicit hb ho

theorem begin_enter (w : Wire) (o : Origin) :
    (w.enter.begin o).up = w.up ∧ ∃ b, (w.enter.begin o).block = some b ∧ b.owner ≠ none := by
  rcases enter_block w with ⟨he, -⟩ | ⟨he, hn⟩
  · simp [Wire.begin, he]
  · cases hb : w.block with
    | none => exact absurd hb hn
    | some b =>
      obtain ⟨owner, failed, pending⟩ := b
      cases owner <;> simp [Wire.begin, he, hb]

theorem parked_of_declare {o : Origin} {rows : List Row} {n : ℕ} {c : Text} {q : Query}
    {ms : List Message} (hup : w.up = true) (hb : ∃ b, w.block = some b ∧ b.owner ≠ none)
    (hs : w.stmt o rows n (.declare c false q) = .ok (w', ms)) : Parked c w' := by
  have hlive := stmt_live hs rfl
  have hplain := stmtOpen_plain rfl (stmt_ok hs)
  obtain ⟨b, hb, ho⟩ := hb
  have hfail := hlive b hb
  have hblock : ∃ b, w'.block = some b ∧ b.owner ≠ none ∧ b.failed = false := by
    rcases hplain.inside b hb with ⟨hb', -⟩ | ⟨hb', -⟩
    · exact ⟨b, hb', ho, hfail⟩
    · exact ⟨_, hb', ho, hfail⟩
  have hopen := stmt_ok hs
  simp only [stmtOpen] at hopen
  split at hopen
  · cases hopen
  · rename_i hnone
    simp only [Except.ok.injEq, Prod.mk.injEq] at hopen
    obtain ⟨rfl, -⟩ := hopen
    refine ⟨hplain.up.trans hup, hblock, ⟨_, List.mem_cons_self, rfl⟩, fun k hk hn => ?_⟩
    rcases List.mem_cons.mp hk with rfl | hk
    · rfl
    · rw [record_cursors] at hk
      refine absurd ?_ hnone
      simp only [findCursor, List.find?_isSome]
      exact ⟨k, hk, by simp [hn]⟩

/-- DECLARE parks the cursor, in the pool's block or in one that was already open. -/
theorem beginDeclare_parked {c : Text} {sql : Sql} {ms : List Message}
    (h : (w.simpleQuery .pool (Command.declareStmts g c sql) ch).2 = .ok ms) :
    Parked c (w.simpleQuery .pool (Command.declareStmts g c sql) ch).1 := by
  rcases Command.declareStmts_cases g c sql with hp | ⟨q, hp⟩
  · cases hup : w.up with
    | false => simp [simpleQuery_down hup] at h
    | true => simp [hp, simpleQuery_none hup] at h
  · rw [hp] at h ⊢
    obtain ⟨hup, w', hran, hw'⟩ := simpleQuery_ok h
    obtain _ | ⟨hbegin, _ | ⟨hdeclare, _ | _⟩⟩ := hran
    have hopen := stmt_ok hbegin
    simp only [stmtOpen, Except.ok.injEq, Prod.mk.injEq] at hopen
    obtain ⟨rfl, -⟩ := hopen
    obtain ⟨hup', hb⟩ := begin_enter w .pool
    have hparked := parked_of_declare (hup'.trans hup) hb hdeclare
    rw [hw', hparked.finish]
    exact hparked

/-- FETCH leaves a parked cursor parked when it succeeds. -/
theorem Parked.fetch {c : Text} {n : ℕ} {ms : List Message} (h : Parked c w)
    (hok : (w.simpleQuery .pool (some [.fetch n c]) ch).2 = .ok ms) :
    Parked c (w.simpleQuery .pool (some [.fetch n c]) ch).1 := by
  obtain ⟨-, w', hran, hw'⟩ := simpleQuery_ok hok
  rw [h.enter] at hran
  obtain _ | ⟨hs, _ | _⟩ := hran
  have hopen := stmt_ok hs
  simp only [stmtOpen] at hopen
  split at hopen
  · cases hopen
  · simp only [Except.ok.injEq, Prod.mk.injEq] at hopen
    obtain ⟨rfl, -⟩ := hopen
    have hparked : Parked c { w with cursors := w.cursors.map fun d =>
        if d.name == c then { d with rows := d.rows.drop n } else d } := by
      refine ⟨h.up, h.block, ?_, fun k hk hn => ?_⟩
      · obtain ⟨k, hk, hn⟩ := h.found
        exact ⟨_, List.mem_map_of_mem hk, by simp [hn]⟩
      · obtain ⟨k₀, hk₀, rfl⟩ := List.mem_map.mp hk
        have hold := h.notHeld k₀ hk₀
        split <;> rename_i hc <;> simp only [hc] at hn <;> exact hold hn
    rw [hw', hparked.finish]
    exact hparked

/-- The cursor that a query leaves open is parked. -/
def discipline (g : Grammar) : Discipline g where
  watch := .idle
  watched _ hb := hb.elim
  allowed _ := True
  ready _ := True
  failed _ := True
  declared := Parked
  fetched := Parked
  held := Parked
  spoilt _ := True
  text _ _ _ _ := trivial
  prepare _ _ := trivial
  declare _ _ := ⟨fun _ hr => beginDeclare_parked hr, fun _ _ => trivial⟩
  fetch h := ⟨fun _ hr => h.fetch hr, fun _ _ => trivial⟩
  rollback _ := trivial
  keep h := h
  exhaust _ _ := trivial
  spoil _ _ := trivial
  close _ := ⟨fun _ _ => trivial, fun _ _ => trivial⟩

structure Queried (g : Grammar) (conn : Conn) : Prop where
  inScope : Scoped conn.wire
  parked : (discipline g).Between conn

def isQuery : Call → Bool
  | .execute .. => true
  | _ => false

theorem queried_afterCalls (g : Grammar) {xs : List IssuedCall}
    (hx : ∀ x ∈ xs, isQuery x.call = true) : Queried g (afterCalls g .fresh xs) := by
  have hstep (conn : Conn) (x : IssuedCall) (h : Queried g conn) (hx : isQuery x.call = true) :
      Queried g (afterCall g conn x) := by
    have hs : Scoped (afterCall g conn x).wire :=
      exec_preserved (fun conn : Conn => Scoped conn.wire) (fun conn q ch hs => serve_scoped hs q) h.inScope x.env
    obtain ⟨call, env⟩ := x
    cases call with
    | execute sql pageSize uuid =>
      have hwalk : (discipline g).Walk (Call.execute sql pageSize uuid).prog conn
          (fun _ => (discipline g).Between) fun _ => (discipline g).spoilt :=
        answering_walk (execute_walk (fun _ _ => trivial) h.parked)
      exact ⟨hs, wpUnless_idle_exec hwalk env⟩
    | fetchPage | closeQuery | updateCell | insertRow | deleteRows => cases hx
  have hstart : Queried g .fresh :=
    ⟨⟨by simp [Conn.fresh, Wire.fresh], by simp [Conn.fresh, Wire.fresh],
      by simp [Conn.fresh, Wire.fresh]⟩, trivial⟩
  exact afterAll_invariant hstep hstart (each_of_forall hx)

theorem mem_endBlock_kept {b : Block} {k : Cursor} {e : Ending} (hb : w.block = some b)
    (he : (⟨b.owner, b.failed, e, b.pending⟩ : TxRecord).kept = true) (hk : k ∈ w.cursors)
    (hh : k.hold = true) : { k with fresh := false } ∈ (w.endBlock e).cursors := by
  simp only [Wire.endBlock, hb, he, if_true]
  exact List.mem_map.mpr ⟨k, List.mem_filter.mpr ⟨hk, hh⟩, rfl⟩

theorem Parked.held_survives {c : Text} {k : Cursor} (h : Parked c w) (hk : k ∈ w.cursors)
    (hh : k.hold = true) : ∃ w' ms, w.simpleQuery .pool (some [.close c, .commit]) .quiet =
      (w', .ok ms) ∧ w'.cursors ≠ [] := by
  obtain ⟨b, hb, -, hfail⟩ := h.block
  obtain ⟨k₀, hk₀, hn₀⟩ := h.found
  have hup : ¬w.up = false := by simp [h.up]
  have hfound : (w.findCursor c).isSome = true := by
    simp only [findCursor, List.find?_isSome]
    exact ⟨k₀, hk₀, by simp [hn₀]⟩
  have hname : k.name ≠ c := fun hn => absurd ((h.notHeld k hk hn).symm.trans hh) (by simp)
  have hclose : w.stmt .pool [] 0 (.close c) = .ok
      ({ w with cursors := w.cursors.filter (·.name != c) }, [.commandComplete 0]) := by
    obtain ⟨owner, failed, pending⟩ := b
    obtain rfl : failed = false := hfail
    simp [stmt, hb, stmtOpen, hfound]
  have hcommit : { k with fresh := false } ∈ (({ w with
      cursors := w.cursors.filter (·.name != c) }).endBlock (.commit .pool)).enter.finish.cursors := by
    have h₁ := mem_endBlock_kept (w := { w with cursors := w.cursors.filter (·.name != c) })
      (e := .commit .pool) hb (by simp [TxRecord.kept, hfail])
      (List.mem_filter.mpr ⟨hk, by simp [hname]⟩) hh
    rw [finish_implicit (b := ⟨none, false, []⟩) (by simp [enter_none]) rfl]
    exact mem_endBlock_kept (e := .auto) (k := { k with fresh := false }) (by simp [enter_none]; rfl)
      rfl (by simpa using h₁) hh
  refine ⟨_, [] ++ [.commandComplete 0] ++ [.commandComplete 0], ?_, List.ne_nil_of_mem hcommit⟩
  simp only [simpleQuery, if_neg hup, h.enter, emptyResponse_cons, runStmts, runOne, Choice.quiet,
    Fault.codeAt, hclose, commit_ok, reduceCtorEq, if_false]

theorem noHold_of_clean (hq : Queried g conn)
    (hc : Clean (releasedWire g conn fun _ => .quiet)) : NoHold conn.wire := by
  obtain ⟨w, active⟩ := conn
  cases active with
  | none =>
    have hnil : w.cursors = [] := hc.noCursor
    simp [NoHold, hnil]
  | some c =>
    intro k hk
    cases hh : k.hold with
    | false => rfl
    | true =>
      obtain ⟨w', ms, hw', hne⟩ := Parked.held_survives hq.parked hk hh
      have hreleased : releasedWire g ⟨w, some c⟩ (fun _ => .quiet) = w' := by
        simp only [releasedWire, releaseCleanup, ask, closeQuery, send, Prog.request_bind, exec,
          Conn.serve, Command.send, hw', Prog.pure_def]
      exact absurd (hreleased ▸ hc.noCursor) hne

/-- After any queries of a session, whatever the server does, `release_session` returns a clean
wire exactly when it can clean what it finds. -/
theorem released_clean_iff (g : Grammar) (xs : List IssuedCall)
    (hx : ∀ x ∈ xs, isQuery x.call = true) :
    (∀ env, Clean (releasedWire g (afterCalls g .fresh xs) env)) ↔
      CanClean (afterCalls g .fresh xs) := by
  have hq := queried_afterCalls g hx
  constructor
  · intro h
    refine ⟨fun hn => ?_, noHold_of_clean hq (h _)⟩
    have hb := (h fun _ => .quiet).outside
    generalize afterCalls g .fresh xs = conn at hn hb
    obtain ⟨w, active⟩ := conn
    obtain rfl : active = none := hn
    exact hb
  · exact fun h env => releasedWire_clean hq.inScope h env

def beginOnly : IssuedCall := querying "BEGIN".toList fun _ => .quiet

theorem released_clean_iff_beginOnly :
    (∀ env, Clean (releasedWire smallServer (afterCalls smallServer .fresh [beginOnly]) env)) ↔
      CanClean (afterCalls smallServer .fresh [beginOnly]) :=
  released_clean_iff smallServer [beginOnly] (by decide)

/-- Its wire goes back to idle inside the block it opened. -/
theorem beginOnly_not_clean :
    ¬Clean (releasedWire smallServer (afterCalls smallServer .fresh [beginOnly])
      fun _ => .quiet) := by
  intro h
  have hblock : (releasedWire smallServer (afterCalls smallServer .fresh [beginOnly])
      fun _ => .quiet).block ≠ none := by decide +kernel
  exact hblock h.outside

end SshCommander.IdleCleanliness
