import SshCommander.IdleCleanliness

/-!
# A failed edit and the open cursor

Two wires are alike when they differ only in effects and history; then they answer every
request alike. A failed edit leaves the wire alike unless the server failed it in an open block
or lost the wire, and in those cases the next page of the cursor is gone.
-/

namespace SshCommander.EditIsolation
open InteractionPrograms RustText SqlStatementSplit PostgresWire PostgresWire.Wire
  PooledConnection QueryExecution RowEditing SessionCalls CursorBlocks IdleCleanliness

inductive SameBlock : Option Block → Option Block → Prop where
  | none : SameBlock none none
  | some (owner : Option Origin) (failed : Bool) (pending pending' : List ℕ) :
      SameBlock (some ⟨owner, failed, pending⟩) (some ⟨owner, failed, pending'⟩)

/-- The wires agree on all that a reply is made from. -/
structure Alike (w v : Wire) : Prop where
  up : w.up = v.up
  cursors : w.cursors = v.cursors
  block : SameBlock w.block v.block

variable {w v : Wire} {ch : Choice} {o : Origin}

theorem SameBlock.refl (b : Option Block) : SameBlock b b := by
  cases b with
  | none => exact .none
  | some b => exact .some b.owner b.failed b.pending b.pending

theorem Alike.refl (w : Wire) : Alike w w := ⟨rfl, rfl, .refl _⟩

theorem Alike.endBlock (h : Alike w v) (e : Ending) : Alike (w.endBlock e) (v.endBlock e) := by
  obtain ⟨up, block, cursors, next, history⟩ := w
  obtain ⟨up', block', cursors', next', history'⟩ := v
  obtain ⟨rfl, rfl, hb⟩ := h
  cases hb with
  | none => exact ⟨rfl, rfl, .none⟩
  | some owner failed pending pending' => exact ⟨rfl, rfl, .none⟩

theorem Alike.enter (h : Alike w v) : Alike w.enter v.enter := by
  obtain ⟨up, block, cursors, next, history⟩ := w
  obtain ⟨up', block', cursors', next', history'⟩ := v
  obtain ⟨rfl, rfl, hb⟩ := h
  cases hb with
  | none => exact ⟨rfl, rfl, .some none false [] []⟩
  | some owner failed pending pending' => exact ⟨rfl, rfl, .some owner failed _ _⟩

theorem Alike.abort (h : Alike w v) : Alike w.abort v.abort := by
  obtain ⟨up, block, cursors, next, history⟩ := w
  obtain ⟨up', block', cursors', next', history'⟩ := v
  have he := h.endBlock .error
  obtain ⟨rfl, rfl, hb⟩ := h
  cases hb with
  | none => exact ⟨rfl, rfl, .none⟩
  | some owner failed pending pending' =>
    cases owner with
    | none => exact he
    | some o => exact ⟨rfl, rfl, .some (some o) true _ _⟩

theorem Alike.finish (h : Alike w v) : Alike w.finish v.finish := by
  obtain ⟨up, block, cursors, next, history⟩ := w
  obtain ⟨up', block', cursors', next', history'⟩ := v
  have he := h.endBlock .auto
  obtain ⟨rfl, rfl, hb⟩ := h
  cases hb with
  | none => exact ⟨rfl, rfl, .none⟩
  | some owner failed pending pending' =>
    cases owner with
    | none => exact he
    | some o => exact ⟨rfl, rfl, .some (some o) failed _ _⟩

theorem Alike.lose (w v : Wire) : Alike w.lose v.lose := by
  refine ⟨rfl, rfl, ?_⟩
  rw [lose_block, lose_block]
  exact .none

theorem Alike.begin (h : Alike w v) (o : Origin) : Alike (w.begin o) (v.begin o) := by
  obtain ⟨up, block, cursors, next, history⟩ := w
  obtain ⟨up', block', cursors', next', history'⟩ := v
  obtain ⟨rfl, rfl, hb⟩ := h
  cases hb with
  | none => exact ⟨rfl, rfl, .none⟩
  | some owner failed pending pending' =>
    cases owner with
    | none => exact ⟨rfl, rfl, .some (some o) failed _ _⟩
    | some o' => exact ⟨rfl, rfl, .some (some o') failed _ _⟩

theorem Alike.record (h : Alike w v) (writes : Bool) : Alike (w.record writes) (v.record writes) := by
  obtain ⟨up, block, cursors, next, history⟩ := w
  obtain ⟨up', block', cursors', next', history'⟩ := v
  obtain ⟨rfl, rfl, hb⟩ := h
  cases hb with
  | none => cases writes <;> exact ⟨rfl, rfl, .none⟩
  | some owner failed pending pending' =>
    cases writes <;> exact ⟨rfl, rfl, .some owner failed _ _⟩

theorem Alike.withCursors (h : Alike w v) (cs : List Cursor) :
    Alike { w with cursors := cs } { v with cursors := cs } := ⟨h.up, rfl, h.block⟩

theorem Alike.findCursor (h : Alike w v) (name : Text) : w.findCursor name = v.findCursor name := by
  simp only [Wire.findCursor, h.cursors]

inductive AlikeResult : Except String (Wire × List Message) → Except String (Wire × List Message) →
    Prop where
  | error (code : String) : AlikeResult (.error code) (.error code)
  | ok (w v : Wire) (ms : List Message) (h : Alike w v) : AlikeResult (.ok (w, ms)) (.ok (v, ms))

theorem Alike.stmtOpen (h : Alike w v) (rows : List Row) (n : ℕ) (st : Stmt) :
    AlikeResult (w.stmtOpen o rows n st) (v.stmtOpen o rows n st) := by
  cases st with
  | begin => exact .ok _ _ _ (h.begin o)
  | commit => exact .ok _ _ _ (h.endBlock _).enter
  | rollback => exact .ok _ _ _ (h.endBlock _).enter
  | declare name hold q =>
    simp only [Wire.stmtOpen, h.findCursor]
    split
    · exact .error _
    · have hr := h.record q.writes
      rw [hr.cursors]
      exact .ok _ _ _ (hr.withCursors _)
  | fetch count name =>
    simp only [Wire.stmtOpen, h.findCursor, h.cursors]
    split
    · exact .error _
    · exact .ok _ _ _ (h.withCursors _)
  | close name =>
    simp only [Wire.stmtOpen, h.findCursor, h.cursors]
    split
    · exact .ok _ _ _ (h.withCursors _)
    · exact .error _
  | closeAll => exact .ok _ _ _ (h.withCursors _)
  | query q => exact .ok _ _ _ (h.record q.writes)

theorem Alike.stmt (h : Alike w v) (rows : List Row) (n : ℕ) (st : Stmt) :
    AlikeResult (w.stmt o rows n st) (v.stmt o rows n st) := by
  have hopen := h.stmtOpen (o := o) rows n st
  have hb := h.block
  unfold Wire.stmt
  generalize w.block = bw at hb
  generalize v.block = bv at hb
  cases hb with
  | none => exact hopen
  | some owner failed pending pending' =>
    cases failed with
    | false => exact hopen
    | true =>
      dsimp only
      split
      · exact hopen
      · exact .error _

theorem Alike.runOne (h : Alike w v) (o : Origin) (ch : Choice) (i : ℕ) (st : Stmt) :
    (w.runOne o ch i st).2 = (v.runOne o ch i st).2 ∧
      Alike (w.runOne o ch i st).1 (v.runOne o ch i st).1 := by
  have hs := h.stmt (o := o) (ch.rows i) (ch.affected i) st
  unfold Wire.runOne
  split
  · exact ⟨rfl, .lose w v⟩
  · generalize w.stmt o (ch.rows i) (ch.affected i) st = rw' at hs
    generalize v.stmt o (ch.rows i) (ch.affected i) st = rv at hs
    cases ch.fault.codeAt i st with
    | some code => exact ⟨rfl, h.abort⟩
    | none =>
      cases hs with
      | error code => exact ⟨rfl, h.abort⟩
      | ok w' v' ms h' => exact ⟨rfl, h'⟩

theorem Alike.runStmts (h : Alike w v) (i : ℕ) (sts : List Stmt) (out : List Message) :
    (runStmts o ch w i sts out).2 = (runStmts o ch v i sts out).2 ∧
      Alike (runStmts o ch w i sts out).1 (runStmts o ch v i sts out).1 := by
  induction sts generalizing w v i out with
  | nil => exact ⟨rfl, h.finish⟩
  | cons st rest ih =>
    obtain ⟨hr, hw⟩ := h.runOne o ch i st
    simp only [Wire.runStmts]
    generalize w.runOne o ch i st = rw' at hr hw
    generalize v.runOne o ch i st = rv at hr hw
    obtain ⟨w', r⟩ := rw'
    obtain ⟨v', r'⟩ := rv
    obtain rfl : r = r' := hr
    cases r with
    | error e => exact ⟨rfl, hw⟩
    | ok ms => exact ih hw _ _

theorem Alike.simpleQuery (h : Alike w v) (parsed : Option (List Stmt)) :
    (w.simpleQuery o parsed ch).2 = (v.simpleQuery o parsed ch).2 ∧
      Alike (w.simpleQuery o parsed ch).1 (v.simpleQuery o parsed ch).1 := by
  unfold Wire.simpleQuery
  rw [h.up]
  split
  · exact ⟨rfl, h⟩
  · cases parsed with
    | none => exact ⟨rfl, h.abort⟩
    | some sts => exact h.enter.runStmts 0 sts _

theorem Alike.describe (h : Alike w v) (st : Stmt) : w.describe st = v.describe st := by
  cases st <;> simp only [Wire.describe, h.findCursor]

theorem SameBlock.failed {b c : Option Block} (h : SameBlock b c) :
    b.any (·.failed) = c.any (·.failed) := by cases h <;> rfl

theorem Alike.prepare (h : Alike w v) (parsed : Option (List Stmt)) :
    (w.prepare parsed ch).2 = (v.prepare parsed ch).2 ∧
      Alike (w.prepare parsed ch).1 (v.prepare parsed ch).1 := by
  unfold Wire.prepare
  rw [h.up, h.block.failed]
  split
  · exact ⟨rfl, h⟩
  · split
    · exact ⟨rfl, .lose w v⟩
    · exact ⟨rfl, h.abort⟩
    · exact ⟨rfl, h⟩
    · rw [h.describe]
      split <;> exact ⟨rfl, h⟩
    · exact ⟨rfl, h.abort⟩

theorem Alike.extended (h : Alike w v) (q : Query) :
    (w.extended q ch).2 = (v.extended q ch).2 ∧ Alike (w.extended q ch).1 (v.extended q ch).1 := by
  unfold Wire.extended
  rw [h.up]
  split
  · exact ⟨rfl, h⟩
  · split
    · exact ⟨rfl, h⟩
    · obtain ⟨hr, hw⟩ := h.enter.runOne .pool ch 0 (.query q)
      generalize w.enter.runOne .pool ch 0 (.query q) = rw' at hr hw
      generalize v.enter.runOne .pool ch 0 (.query q) = rv at hr hw
      obtain ⟨w', r⟩ := rw'
      obtain ⟨v', r'⟩ := rv
      obtain rfl : r = r' := hr
      cases r with
      | error e => exact ⟨rfl, hw⟩
      | ok ms => exact ⟨rfl, hw.finish⟩

def AlikeConn (a b : Conn) : Prop := a.activeCursor = b.activeCursor ∧ Alike a.wire b.wire

theorem serve_alike (g : Grammar) (a b : Conn) (q : Request) (ch : Choice) (h : AlikeConn a b) :
    (Conn.serve g a q ch).2 = (Conn.serve g b q ch).2 ∧
      AlikeConn (Conn.serve g a q ch).1 (Conn.serve g b q ch).1 := by
  obtain ⟨w, active⟩ := a
  obtain ⟨v, active'⟩ := b
  obtain ⟨rfl, hw⟩ := h
  cases q with
  | takeCursor => exact ⟨rfl, rfl, hw⟩
  | readCursor => exact ⟨rfl, rfl, hw⟩
  | setCursor c => exact ⟨rfl, rfl, hw⟩
  | takeCursorIf id =>
    simp only [Conn.serve, Conn.takeIf]
    split
    · split <;> exact ⟨rfl, rfl, hw⟩
    · exact ⟨rfl, rfl, hw⟩
  | send c =>
    have hsend : (c.send g w ch).2 = (c.send g v ch).2 ∧
        Alike (c.send g w ch).1 (c.send g v ch).1 := by
      cases c with
      | prepare sql => exact hw.prepare _
      | extended sql params q => exact hw.extended q
      | batchExecute | simpleQuery | beginDeclare | fetchForward | closeCommit | rollback =>
        exact hw.simpleQuery _
    exact ⟨hsend.1, rfl, hsend.2⟩

def Explicit (w : Wire) : Prop := ∀ b, w.block = some b → b.owner ≠ none

theorem explicit_of_none (h : w.block = none) : Explicit w :=
  fun b hb => absurd (h.symm.trans hb) (by simp)

theorem abort_explicit' (w : Wire) : Explicit w.abort := by
  cases hb : w.block with
  | none => exact explicit_of_none ((abort_none hb).symm ▸ hb)
  | some b =>
    cases ho : b.owner with
    | none => exact explicit_of_none (by rw [abort_implicit hb ho, endBlock_block])
    | some o =>
      rw [abort_explicit hb (by simp [ho])]
      intro b' hb'
      obtain rfl := Option.some.inj hb'
      simp [ho]

theorem finish_explicit' (w : Wire) : Explicit w.finish := by
  cases hb : w.block with
  | none => exact explicit_of_none ((finish_none hb).symm ▸ hb)
  | some b =>
    cases ho : b.owner with
    | none => exact explicit_of_none (by rw [finish_implicit hb ho, endBlock_block])
    | some o =>
      have hne : b.owner ≠ none := by simp [ho]
      rw [finish_explicit hb hne]
      intro b' hb'
      obtain rfl := Option.some.inj (hb.symm.trans hb')
      exact hne

theorem explicit_keeps (o : Origin) (sts : List Stmt) : Keeps (fun _ => True) Explicit o sts :=
  ⟨fun _ _ _ _ _ _ _ _ _ => trivial, fun w _ => abort_explicit' w, fun w _ => finish_explicit' w,
    fun w _ => explicit_of_none (lose_block w)⟩

theorem Explicit.simpleQuery (h : Explicit w) (o : Origin) (parsed : Option (List Stmt)) :
    Explicit (w.simpleQuery o parsed ch).1 := by
  cases parsed with
  | none =>
    unfold Wire.simpleQuery
    split
    · exact h
    · exact abort_explicit' w
  | some sts => exact (explicit_keeps o sts).simpleQuery ch (fun _ => h) trivial

theorem Explicit.prepare (h : Explicit w) (parsed : Option (List Stmt)) :
    Explicit (w.prepare parsed ch).1 := by
  rcases prepare_wire w parsed ch with hw | hw | hw
  · exact hw.symm ▸ h
  · exact hw.symm ▸ explicit_of_none (lose_block w)
  · exact hw.symm ▸ abort_explicit' w

theorem serve_explicit {g : Grammar} {conn : Conn} (h : Explicit conn.wire) (q : Request) :
    Explicit (Conn.serve g conn q ch).1.wire := by
  cases q with
  | takeCursor | readCursor | setCursor => exact h
  | takeCursorIf id => exact (Conn.takeIf_wire conn id).symm ▸ h
  | send c =>
    cases c with
    | prepare sql => exact h.prepare _
    | extended sql params q => exact (explicit_keeps .pool _).extended ch h trivial
    | batchExecute | simpleQuery | beginDeclare | fetchForward | closeCommit | rollback =>
      exact h.simpleQuery _ _

/-- The server neither failed the edit in a block that was in order nor lost the wire. -/
def Spared (w : Wire) (ch : Choice) : Prop :=
  w.up = true → ch.fault ≠ .lost 0 ∧
    ∀ code, ch.fault = .error 0 code → ∀ b, w.block = some b → b.failed = true

/-- An edit outside a block commits at once and drops no cursor. -/
theorem edit_outside_alike (hs : Scoped w) (hb : w.block = none) :
    Alike w (w.enter.record editQuery.writes).finish ∧ Alike w w.enter.abort := by
  have hheld (k : Cursor) (hk : k ∈ w.cursors) : k.fresh = false ∧ k.hold = true :=
    ⟨hs.outside hb k hk, hs.held k hk (hs.outside hb k hk)⟩
  have hmap : (w.cursors.filter (·.hold)).map ({ · with fresh := false }) = w.cursors := by
    rw [List.filter_eq_self.mpr fun k hk => (hheld k hk).2]
    refine (List.map_congr_left fun k hk => ?_).trans (List.map_id _)
    obtain ⟨name, owner, hold, fresh, columns, rows⟩ := k
    obtain rfl : fresh = false := (hheld _ hk).1
    rfl
  have hfilter : w.cursors.filter (! ·.fresh) = w.cursors :=
    List.filter_eq_self.mpr fun k hk => by simp [(hheld k hk).1]
  obtain ⟨up, block, cursors, next, history⟩ := w
  obtain rfl : block = none := hb
  exact ⟨⟨rfl, hmap.symm, .none⟩, ⟨rfl, hfilter.symm, .none⟩⟩

/-- An edit in a block of BEGIN, not aborted, adds its effect and nothing else; an error in an
aborted block changes nothing. -/
theorem edit_inside_alike {b : Block} (hb : w.block = some b) (ho : b.owner ≠ none) :
    Alike w (w.record editQuery.writes).finish ∧ (b.failed = true → Alike w w.abort) := by
  obtain ⟨up, block, cursors, next, history⟩ := w
  obtain rfl : block = some b := hb
  obtain ⟨owner, failed, pending⟩ := b
  cases owner with
  | none => exact absurd rfl ho
  | some o =>
    refine ⟨⟨rfl, rfl, .some _ _ _ _⟩, fun hf => ?_⟩
    obtain rfl : failed = true := hf
    exact ⟨rfl, rfl, .some _ _ _ _⟩

theorem edit_alike (hs : Scoped w) (he : Explicit w) (h : Spared w ch) :
    Alike w (w.extended editQuery ch).1 := by
  unfold Wire.extended
  split
  · exact .refl w
  rename_i hup
  obtain ⟨hlost, herr⟩ := h (by simpa using hup)
  split
  · exact .refl w
  rcases runOne_cases w.enter .pool ch 0 (.query editQuery) with
    ⟨hr, hf⟩ | ⟨code, hr, hcause⟩ | ⟨w', ms, hr, -, hq⟩
  · exact absurd hf hlost
  · rw [hr]
    cases hb : w.block with
    | none => exact (edit_outside_alike hs hb).2
    | some b =>
      rw [enter_some hb] at hcause ⊢
      refine (edit_inside_alike hb (he b hb)).2 ?_
      rcases hcause with hcode | hstmt
      · exact herr code (codeAt_some hcode) b hb
      · obtain ⟨owner, failed, pending⟩ := b
        cases failed with
        | true => rfl
        | false => simp [stmt, hb, stmtOpen] at hstmt
  · rw [hr]
    obtain rfl := stmt_query hq
    cases hb : w.block with
    | none => exact (edit_outside_alike hs hb).1
    | some b =>
      rw [enter_some hb]
      exact (edit_inside_alike hb (he b hb)).1

/-- FETCH on a wire that is up and meets no fault is answered by the server. -/
theorem fetch_answered (n : ℕ) (c : Text) (hup : w.up = true) :
    (w.simpleQuery .pool (some [.fetch n c]) .quiet).2 ≠ .error .closed := by
  have hdown : ¬w.up = false := by simp [hup]
  simp only [simpleQuery, if_neg hdown, runStmts]
  rcases runOne_cases w.enter .pool .quiet 0 (.fetch n c) with
    ⟨-, hf⟩ | ⟨code, hr, -⟩ | ⟨w', ms, hr, -, -⟩
  · cases hf
  · rw [hr]
    simp
  · rw [hr]
    simp

/-- Only an aborted block answers FETCH with 25P02. -/
theorem fetch_not_aborted {b : Block} (n : ℕ) (c : Text) (hb : w.block = some b)
    (hf : b.failed = false) :
    (w.simpleQuery .pool (some [.fetch n c]) .quiet).2 ≠ .error (.server "25P02") := by
  unfold Wire.simpleQuery
  split
  · simp
  · simp only [runStmts, enter_some hb]
    rcases runOne_cases w .pool .quiet 0 (.fetch n c) with
      ⟨-, hq⟩ | ⟨code, hr, hcause⟩ | ⟨w', ms, hr, -, -⟩
    · cases hq
    · rw [hr]
      rcases hcause with hcode | hstmt
      · cases hcode
      · obtain ⟨owner, failed, pending⟩ := b
        obtain rfl : failed = false := hf
        simp only [stmt, hb, stmtOpen] at hstmt
        split at hstmt
        · obtain rfl := Except.error.inj hstmt
          simp
        · cases hstmt
    · rw [hr]
      simp

theorem fetch_aborted {b : Block} (n : ℕ) (c : Text) (hup : w.up = true) (hb : w.block = some b)
    (hf : b.failed = true) :
    (w.simpleQuery .pool (some [.fetch n c]) .quiet).2 = .error (.server "25P02") := by
  have hdown : ¬w.up = false := by simp [hup]
  obtain ⟨owner, failed, pending⟩ := b
  obtain rfl : failed = true := hf
  simp [simpleQuery, hdown, runStmts, enter_some hb, runOne, Choice.quiet, Fault.codeAt, stmt, hb,
    Stmt.endsBlock]

theorem edit_not_spared (he : Explicit w) (h : ¬Spared w ch) (n : ℕ) (c : Text) :
    ∃ e, ((w.extended editQuery ch).1.simpleQuery .pool (some [.fetch n c]) .quiet).2 = .error e ∧
      (w.simpleQuery .pool (some [.fetch n c]) .quiet).2 ≠ .error e := by
  have hup : w.up = true := by
    cases hup : w.up with
    | true => rfl
    | false => exact absurd (fun h => absurd (hup.symm.trans h) (by simp)) h
  have hdown : ¬w.up = false := by simp [hup]
  by_cases hlost : ch.fault = .lost 0
  · have hw : (w.extended editQuery ch).1 = w.enter.lose := by
      simp [extended, hdown, hlost, runOne]
    rw [hw, simpleQuery_down (lose_up _)]
    exact ⟨_, rfl, fetch_answered n c hup⟩
  · have hbad : ∃ code b, ch.fault = .error 0 code ∧ w.block = some b ∧ b.failed = false := by
      by_contra hno
      refine h fun _ => ⟨hlost, fun code hcode b hb => ?_⟩
      cases hf : b.failed with
      | true => rfl
      | false => exact absurd ⟨code, b, hcode, hb, hf⟩ hno
    obtain ⟨code, b, hcode, hb, hf⟩ := hbad
    have hw : (w.extended editQuery ch).1 = { w with block := some { b with failed := true } } := by
      simp [extended, hdown, hcode, enter_some hb, runOne, Fault.codeAt, Stmt.isRollback,
        abort_explicit hb (he b hb)]
    rw [hw, fetch_aborted (w := { w with block := some { b with failed := true } }) n c hup rfl rfl]
    exact ⟨_, rfl, fetch_not_aborted n c hb hf⟩

def isFetch : Call → Bool
  | .fetchPage .. => true
  | _ => false

def pages (g : Grammar) : Conn → List IssuedCall → List CallResult
  | _, [] => []
  | conn, y :: ys =>
    let rest := pages g (afterCall g conn y) ys
    if isFetch y.call then answer (Conn.serve g) Call.prog conn y :: rest else rest

/-- Whatever follows, `fetch_page` returns the same pages on both connections. -/
def SamePages (g : Grammar) (a b : Conn) : Prop := ∀ ys, pages g a ys = pages g b ys

variable {g : Grammar} {conn : Conn}

theorem samePages_of_alike {a b : Conn} (h : AlikeConn a b) : SamePages g a b := by
  intro ys
  induction ys generalizing a b with
  | nil => rfl
  | cons y ys ih =>
    obtain ⟨hv, hs⟩ := exec_related (serve_alike g) (p := y.call.prog) h y.env
    simp only [pages, answer, hv, ih (show AlikeConn (afterCall g a y) (afterCall g b y) from hs)]

/-- An edit that fails in the driver is the one statement it sends. -/
theorem edit_sent {x : IssuedCall} {e : DriverError} (hedit : x.call.isEdit = true)
    (herr : answer (Conn.serve g) Call.prog conn x = .error (.driver e)) :
    afterCall g conn x = { conn with wire := (conn.wire.extended editQuery (x.env 0)).1 } := by
  obtain ⟨call, env⟩ := x
  have hform := Call.edit_form hedit
  simp only [afterCall, after, answer] at herr ⊢
  generalize call.prog = p at hform herr
  cases hform with
  | refused r hr => exact absurd herr (hr e)
  | sent sql params f k hferr hfok _ =>
    simp only [exec, Conn.serve, Command.send]
    cases hr : (conn.wire.extended editQuery (env 0)).2 with
    | error e' => simp only [hferr, exec]
    | ok reply => simp only [hfok, exec]

def pageOf (c : ActiveCursor) (count : ℕ) : Except DriverError (List Message) → CallResult
  | .error e => .error (.driver e)
  | .ok stream => .ok (.page ⟨(collectRows stream c.columnCount).1,
      (collectRows stream c.columnCount).2 == count⟩)

theorem fetch_page_answer {c : ActiveCursor} {sessionId : Text} {count : ℕ} {env : ℕ → Choice}
    (ha : conn.activeCursor = some c) :
    answer (Conn.serve g) Call.prog conn ⟨.fetchPage sessionId c.cursorId count, env⟩ =
      pageOf c count
        (conn.wire.simpleQuery .pool (some [.fetch count c.cursorId]) (env 1)).2 := by
  obtain ⟨w, active⟩ := conn
  obtain rfl : active = some c := ha
  have hs : Conn.serve g ⟨w, some c⟩ (.send (.fetchForward count c.cursorId)) (env 1) =
      (⟨(w.simpleQuery .pool (some [.fetch count c.cursorId]) (env 1)).1, some c⟩,
        (w.simpleQuery .pool (some [.fetch count c.cursorId]) (env 1)).2) := rfl
  simp only [answer, Call.prog, answering, fetchPageOf, ask, Prog.request_bind, Prog.ask_bind, exec]
  dsimp only [Conn.serve]
  rw [if_pos rfl]
  simp only [fetchPage, send, Prog.request_bind, Prog.ask_bind, exec, hs]
  cases (w.simpleQuery .pool (some [.fetch count c.cursorId]) (env 1)).2 <;> rfl

theorem pageOf_ne {c : ActiveCursor} {count : ℕ} {r : Except DriverError (List Message)}
    {e : DriverError} (h : r ≠ .error e) : pageOf c count r ≠ pageOf c count (.error e) := by
  cases r with
  | ok stream => simp [pageOf]
  | error e' =>
    intro hp
    simp only [pageOf, Except.error.injEq, PgError.driver.injEq] at hp
    exact h (by rw [hp])

theorem not_samePages {c : ActiveCursor} (ha : conn.activeCursor = some c)
    (he : Explicit conn.wire) (h : ¬Spared conn.wire ch) :
    ¬SamePages g conn { conn with wire := (conn.wire.extended editQuery ch).1 } := by
  intro hsame
  obtain ⟨e, hafter, hne⟩ := edit_not_spared he h 0 c.cursorId
  have hpages := hsame [⟨.fetchPage [] c.cursorId 0, fun _ => .quiet⟩]
  simp only [pages, isFetch, if_true, List.cons.injEq, and_true] at hpages
  have hlost : answer (Conn.serve g) Call.prog
      { conn with wire := (conn.wire.extended editQuery ch).1 }
      ⟨.fetchPage [] c.cursorId 0, fun _ => .quiet⟩ = _ := fetch_page_answer ha
  rw [fetch_page_answer ha, hlost, hafter] at hpages
  exact pageOf_ne hne hpages

/-- What every call keeps of the wire. -/
theorem kept_afterCalls (g : Grammar) (xs : List IssuedCall) :
    Scoped (afterCalls g .fresh xs).wire ∧ Explicit (afterCalls g .fresh xs).wire := by
  have hstep (conn : Conn) (x : IssuedCall) (h : Scoped conn.wire ∧ Explicit conn.wire)
      (_ : True) : Scoped (afterCall g conn x).wire ∧ Explicit (afterCall g conn x).wire :=
    exec_preserved (fun conn : Conn => Scoped conn.wire ∧ Explicit conn.wire)
      (fun _ q _ hs => ⟨serve_scoped hs.1 q, serve_explicit hs.2 q⟩) h x.env
  have hstart : Scoped Conn.fresh.wire ∧ Explicit Conn.fresh.wire :=
    ⟨⟨by simp [Conn.fresh, Wire.fresh], by simp [Conn.fresh, Wire.fresh],
      by simp [Conn.fresh, Wire.fresh]⟩, explicit_of_none rfl⟩
  exact afterAll_invariant hstep hstart (each_of_forall fun _ _ => trivial)

/-- After any calls, an edit that fails in the driver leaves the pages of the open cursor as they
are exactly when the server neither failed it in a block in order nor lost the wire. -/
theorem failed_edit_same_pages_iff (g : Grammar) (xs : List IssuedCall) (x : IssuedCall)
    (c : ActiveCursor) (e : DriverError) (hedit : x.call.isEdit = true)
    (hactive : (afterCalls g .fresh xs).activeCursor = some c)
    (herr : answer (Conn.serve g) Call.prog (afterCalls g .fresh xs) x = .error (.driver e)) :
    SamePages g (afterCalls g .fresh xs) (afterCall g (afterCalls g .fresh xs) x) ↔
      Spared (afterCalls g .fresh xs).wire (x.env 0) := by
  obtain ⟨hs, he⟩ := kept_afterCalls g xs
  rw [edit_sent hedit herr]
  constructor
  · intro h
    by_contra hn
    exact not_samePages hactive he hn h
  · exact fun h => samePages_of_alike ⟨rfl, edit_alike hs he h⟩

/-- A query whose first page is full, so its cursor stays open. -/
def openPage : IssuedCall := querying selectOne fun _ => { Choice.quiet with rows := fun _ => [[none]] }

/-- A value the server does not take for the column. -/
def badValue : IssuedCall :=
  ⟨.updateCell "public".toList "t".toList "n".toList "int4".toList (some "x".toList) "(0,1)".toList,
    faultAt [] 0 (.error 0 "22P02")⟩

theorem failed_edit_same_pages_iff_badValue :
    SamePages smallServer (afterCalls smallServer .fresh [openPage])
        (afterCall smallServer (afterCalls smallServer .fresh [openPage]) badValue) ↔
      Spared (afterCalls smallServer .fresh [openPage]).wire (badValue.env 0) :=
  failed_edit_same_pages_iff smallServer [openPage] badValue ⟨"c_u".toList, 1⟩ (.server "22P02")
    (by decide) (by decide +kernel) (by decide +kernel)

/-- The edit reports the server's error, and the next page of the open cursor is lost. -/
theorem badValue_loses_pages :
    answer (Conn.serve smallServer) Call.prog (afterCalls smallServer .fresh [openPage]) badValue =
        .error (.driver (.server "22P02")) ∧
      ¬SamePages smallServer (afterCalls smallServer .fresh [openPage])
        (afterCall smallServer (afterCalls smallServer .fresh [openPage]) badValue) := by
  refine ⟨by decide +kernel, fun h => ?_⟩
  have hpages := h [⟨.fetchPage "s".toList "c_u".toList 1, fun _ => .quiet⟩]
  exact absurd hpages (by decide +kernel)

end SshCommander.EditIsolation
