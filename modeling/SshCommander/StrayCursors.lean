import SshCommander.IdleCleanliness

/-!
# The pool's cursors between calls

Whatever a session's scripts do, a cursor of the pool ends with the block it was declared in, so
every clean-up that ends a block ends it. A connection without an active cursor has none on its
wire after any call, unless the server fails the CLOSE of an exhausted page.
-/

namespace SshCommander.StrayCursors
open InteractionPrograms RustText SqlStatementSplit PostgresWire PostgresWire.Wire
  PooledConnection QueryExecution RowEditing SessionCalls QueryPaths QueryPaths.Discipline
  CursorBlocks IdleCleanliness

variable {w w' : Wire} {ch : Choice} {o : Origin} {sts : List Stmt} {φ : Cursor → Prop} {g : Grammar}

def OfPool (φ : Cursor → Prop) (w : Wire) : Prop := ∀ k ∈ w.cursors, k.owner = .pool → φ k

/-- The rows of a cursor do not matter, and the end of a block keeps the property. -/
structure Stable (φ : Cursor → Prop) : Prop where
  same : ∀ k k' : Cursor, k.name = k'.name → k.hold = k'.hold → k.fresh = k'.fresh → φ k → φ k'
  ended : ∀ w e, OfPool φ w → OfPool φ (w.endBlock e)

theorem OfPool.of_cursors (h : OfPool φ w) (hc : w'.cursors = w.cursors) : OfPool φ w' :=
  fun k hk => h k (hc ▸ hk)

theorem lose_ofPool (φ : Cursor → Prop) (w : Wire) : OfPool φ w.lose := by simp [OfPool]

theorem Stable.abort (hφ : Stable φ) (h : OfPool φ w) : OfPool φ w.abort := by
  unfold Wire.abort
  split
  · exact h
  · split
    · exact hφ.ended w _ h
    · exact h

theorem Stable.finish (hφ : Stable φ) (h : OfPool φ w) : OfPool φ w.finish := by
  unfold Wire.finish
  split
  · exact hφ.ended w _ h
  · exact h

/-- The cursors that the pool itself declares in the message have the property. -/
def Declares (φ : Cursor → Prop) (o : Origin) (sts : List Stmt) : Prop :=
  o = .pool → ∀ name hold q, .declare name hold q ∈ sts →
    ∀ rows, φ ⟨name, .pool, hold, true, q.columns, rows⟩

/-- A statement that declares nothing is the same for the user. -/
theorem Stable.plain (hφ : Stable φ) (h : OfPool φ w) (hp : PlainStep .user w w') : OfPool φ w' := by
  intro k hk ho
  rcases hp.cursors k hk with ⟨huser, -⟩ | ⟨k₀, hk₀, hname, howner, hhold, hfresh⟩
  · cases huser.symm.trans ho
  · exact hφ.same k₀ k hname hhold hfresh (h k₀ hk₀ (howner.trans ho))

theorem Stable.stmt (hφ : Stable φ) (h : OfPool φ w) {st : Stmt} (hd : Declares φ o [st])
    {rows : List Row} {n : ℕ} {ms : List Message} (hs : w.stmt o rows n st = .ok (w', ms)) :
    OfPool φ w' := by
  have hopen := stmt_ok hs
  cases st with
  | begin =>
    simp only [stmtOpen, Except.ok.injEq, Prod.mk.injEq] at hopen
    apply h.of_cursors
    rw [← hopen.1, Wire.begin]
    split <;> rfl
  | commit | rollback =>
    simp only [stmtOpen, Except.ok.injEq, Prod.mk.injEq] at hopen
    exact (hφ.ended w _ h).of_cursors (hopen.1 ▸ enter_cursors _)
  | declare name hold q =>
    simp only [stmtOpen] at hopen
    split at hopen
    · cases hopen
    · simp only [Except.ok.injEq, Prod.mk.injEq] at hopen
      obtain ⟨rfl, -⟩ := hopen
      intro k hk ho
      rcases List.mem_cons.mp hk with rfl | hk
      · obtain rfl : o = .pool := ho
        exact hd rfl name hold q (by simp) rows
      · exact h k (record_cursors w q.writes ▸ hk) ho
  | fetch count name =>
    have huser : w.stmtOpen .user rows n (.fetch count name) = .ok (w', ms) := hopen
    exact hφ.plain h (stmtOpen_plain rfl huser)
  | close name =>
    have huser : w.stmtOpen .user rows n (.close name) = .ok (w', ms) := hopen
    exact hφ.plain h (stmtOpen_plain rfl huser)
  | closeAll =>
    have huser : w.stmtOpen .user rows n .closeAll = .ok (w', ms) := hopen
    exact hφ.plain h (stmtOpen_plain rfl huser)
  | query q =>
    have huser : w.stmtOpen .user rows n (.query q) = .ok (w', ms) := hopen
    exact hφ.plain h (stmtOpen_plain rfl huser)

theorem Stable.keeps (hφ : Stable φ) (hd : Declares φ o sts) :
    Keeps (OfPool φ) (OfPool φ) o sts := by
  refine ⟨fun w w' rows n st ms hm h hs => hφ.stmt h ?_ hs, fun _ => hφ.abort, fun _ => hφ.finish,
    fun w _ => lose_ofPool φ w⟩
  intro ho name hold q hst
  exact hd ho name hold q (List.mem_singleton.mp hst ▸ hm)

theorem Stable.simpleQuery (hφ : Stable φ) (h : OfPool φ w) {parsed : Option (List Stmt)}
    (hd : ∀ sts, parsed = some sts → Declares φ o sts) :
    OfPool φ (w.simpleQuery o parsed ch).1 := by
  cases hup : w.up with
  | false => rwa [simpleQuery_down hup]
  | true =>
    cases parsed with
    | none => exact (simpleQuery_none hup).symm ▸ hφ.abort h
    | some sts =>
      exact (hφ.keeps (hd sts rfl)).simpleQuery ch (fun _ => h) (h.of_cursors (enter_cursors w))

/-- The pool declares its cursors WITHOUT HOLD. -/
theorem Stable.send (hφ : Stable φ) (h : OfPool φ w) {c : Command}
    (hd : ∀ name sql, c = .beginDeclare name sql →
      ∀ columns rows, φ ⟨name, .pool, false, true, columns, rows⟩) :
    OfPool φ (c.send g w ch).1 := by
  cases c with
  | batchExecute sql => exact hφ.simpleQuery h fun sts _ ho => by cases ho
  | simpleQuery sql => exact hφ.simpleQuery h fun sts _ ho => by cases ho
  | prepare sql =>
    rcases prepare_wire w (g.parse sql) ch with hw | hw | hw
    · exact hw.symm ▸ h
    · exact hw.symm ▸ lose_ofPool φ w
    · exact hw.symm ▸ hφ.abort h
  | beginDeclare name sql =>
    refine hφ.simpleQuery h fun sts hsts _ name' hold q hq rows => ?_
    rcases Command.declareStmts_cases g name sql with hnone | ⟨q', hsome⟩
    · cases hnone.symm.trans hsts
    · obtain rfl := Option.some.inj (hsome.symm.trans hsts)
      simp only [List.mem_cons, reduceCtorEq, Stmt.declare.injEq, List.not_mem_nil, or_false,
        false_or] at hq
      obtain ⟨rfl, rfl, rfl⟩ := hq
      exact hd name' sql rfl _ rows
  | fetchForward | closeCommit | rollback =>
    refine hφ.simpleQuery h fun sts hsts _ name hold q hq => ?_
    obtain rfl := Option.some.inj hsts
    simp at hq
  | extended sql params q =>
    have hkeeps : Keeps (OfPool φ) (OfPool φ) .pool [.query q] := hφ.keeps (by simp [Declares])
    exact hkeeps.extended ch h (h.of_cursors (enter_cursors w))

def Bare (w : Wire) : Prop := OfPool (fun _ => False) w

def Named (c : Text) : Wire → Prop := OfPool (·.name = c)

/-- Declared in the block that is open, and gone with it. -/
def Momentary (k : Cursor) : Prop := k.fresh = true ∧ k.hold = false

structure Tied (w : Wire) : Prop where
  inScope : Scoped w
  momentary : OfPool Momentary w

theorem stable_bare : Stable fun _ => False := by
  refine ⟨fun _ _ _ _ _ h => h, fun w e h k hk ho => ?_⟩
  obtain ⟨k₀, hk₀, -, howner, -⟩ := mem_endBlock_cursors hk
  exact h k₀ hk₀ (howner.trans ho)

theorem stable_named (c : Text) : Stable (·.name = c) := by
  refine ⟨fun k k' hname _ _ h => hname ▸ h, fun w e h k hk ho => ?_⟩
  obtain ⟨k₀, hk₀, hname, howner, -⟩ := mem_endBlock_cursors hk
  exact hname ▸ h k₀ hk₀ (howner.trans ho)

theorem stable_momentary : Stable Momentary := by
  refine ⟨fun k k' _ hhold hfresh h => ⟨hfresh ▸ h.1, hhold ▸ h.2⟩, fun w e h => ?_⟩
  cases hb : w.block with
  | none => exact (endBlock_none hb e).symm ▸ h
  | some b =>
    intro k hk ho
    obtain ⟨k₀, hk₀, -, howner, hhold, hkept⟩ := mem_endBlock_cursors hk
    obtain ⟨hfresh, hnot⟩ := h k₀ hk₀ (howner.trans ho)
    rcases (hkept (by simp [hb])).1 with hold | hstale
    · cases (hhold.symm.trans hnot).symm.trans hold
    · cases hstale.symm.trans hfresh

theorem Tied.send (h : Tied w) (c : Command) : Tied (c.send g w ch).1 :=
  ⟨send_scoped h.inScope c, stable_momentary.send h.momentary fun _ _ _ _ _ => ⟨rfl, rfl⟩⟩

theorem Tied.lose (w : Wire) : Tied w.lose := ⟨lose_scoped w, lose_ofPool _ w⟩

/-- Outside a block there is none. -/
theorem Tied.bare (h : Tied w) (hb : w.block = none) : Bare w := by
  intro k hk ho
  cases (h.inScope.outside hb k hk).symm.trans (h.momentary k hk ho).1

theorem Bare.send (h : Bare w) {c : Command} (hc : ∀ name sql, c ≠ .beginDeclare name sql) :
    Bare (c.send g w ch).1 :=
  stable_bare.send h fun name sql heq => absurd heq (hc name sql)

theorem Named.send {c : Text} (h : Named c w) {cmd : Command}
    (hc : ∀ name sql, cmd = .beginDeclare name sql → name = c) : Named c (cmd.send g w ch).1 :=
  (stable_named c).send h fun name sql heq _ _ => hc name sql heq

theorem Bare.named (h : Bare w) (c : Text) : Named c w := fun k hk ho => (h k hk ho).elim

/-- The server fails the CLOSE that follows an exhausted first page. -/
def closeFails (x : Exchange Conn Request Choice) : Bool :=
  match x.asked, x.choice.fault with
  | .send (.closeCommit _ .exhausted), .error 0 _ => true
  | _, _ => false

theorem closeFails_iff {x : Exchange Conn Request Choice} : closeFails x = true ↔
    (∃ c, x.asked = .send (.closeCommit c .exhausted)) ∧ ∃ code, x.choice.fault = .error 0 code := by
  unfold closeFails
  constructor
  · intro h
    split at h
    · exact ⟨⟨_, ‹_›⟩, _, ‹_›⟩
    · cases h
  · rintro ⟨⟨c, hc⟩, code, hcode⟩
    simp [hc, hcode]

theorem parked_close_ok {c : Text} (h : Parked c w) (rows : List Row) (n : ℕ) :
    w.stmt .pool rows n (.close c) =
      .ok ({ w with cursors := w.cursors.filter (·.name != c) }, [.commandComplete 0]) := by
  obtain ⟨⟨owner, failed, pending⟩, hb, -, hfail⟩ := h.block
  obtain rfl : failed = false := hfail
  obtain ⟨k, hk, hn⟩ := h.found
  have hfound : (w.findCursor c).isSome = true := by
    simp only [findCursor, List.find?_isSome]
    exact ⟨k, hk, by simp [hn]⟩
  simp [Wire.stmt, hb, stmtOpen, hfound]

/-- A parked cursor is gone once its CLOSE runs, whatever becomes of the COMMIT. -/
theorem exhausted_bare {c : Text} (hp : Parked c w) (hn : Named c w)
    (hf : ∀ code, ch.fault ≠ .error 0 code) :
    Bare (w.simpleQuery .pool (some [.close c, .commit]) ch).1 := by
  have hup : ¬w.up = false := by simp [hp.up]
  simp only [Wire.simpleQuery, if_neg hup, hp.enter, runStmts]
  rcases runOne_cases w .pool ch 0 (.close c) with ⟨hr, -⟩ | ⟨code, hr, hcause⟩ | ⟨w₁, ms, hr, -, hs⟩
  · rw [hr]
    exact lose_ofPool _ w
  · rcases hcause with hcode | herr
    · exact absurd (codeAt_some hcode) (hf code)
    · cases (parked_close_ok hp _ _).symm.trans herr
  · rw [parked_close_ok hp, Except.ok.injEq, Prod.mk.injEq] at hs
    obtain ⟨rfl, rfl⟩ := hs
    rw [hr]
    have hkeeps : Keeps Bare Bare .pool [.commit] := stable_bare.keeps (by simp [Declares])
    refine hkeeps.runStmts ch 1 _ fun k hk ho => ?_
    obtain ⟨hmem, hname⟩ := List.mem_filter.mp hk
    simp [hn k hmem ho] at hname

/-- Without an active cursor the wire has no cursor of the pool. -/
def discipline (g : Grammar) : Discipline g where
  watch := ⟨fun _ => False, (closeFails · = true)⟩
  watched _ hx := (closeFails_iff.mp hx).1
  allowed _ := True
  ready w := Tied w ∧ Bare w
  failed := Tied
  declared c w := Tied w ∧ Parked c w ∧ Named c w
  fetched c w := Tied w ∧ Parked c w ∧ Named c w
  held _ := Tied
  spoilt _ := True
  text hc _ _ h := by
    rcases hc with rfl | rfl
    · exact ⟨h.1.send _, h.2.send (by simp)⟩
    · exact ⟨h.1.send _, h.2.send (by simp)⟩
  prepare _ h := ⟨h.1.send _, h.2.send (by simp)⟩
  declare {conn sql c ch} _ h := by
    refine ⟨fun ms hr => ⟨h.1.send _, beginDeclare_parked hr, ?_⟩, fun _ _ => h.1.send _⟩
    apply (h.2.named c).send
    intro name sql' heq
    exact (Command.beginDeclare.inj heq).1.symm
  fetch h := ⟨fun ms hr => ⟨h.1.send _, h.2.1.fetch hr, h.2.2.send (by simp)⟩, fun _ _ => h.1.send _⟩
  rollback h := ⟨h.send _, (h.send _).bare (rollback_outside h.inScope)⟩
  keep h := h.1
  exhaust {conn c ch} hb h := by
    refine ⟨h.1.send _, exhausted_bare h.2.1 h.2.2 fun code hf =>
      hb (closeFails_iff.mpr ⟨⟨c, rfl⟩, code, hf⟩)⟩
  spoil _ _ := trivial
  close h := ⟨fun ms hr => ⟨h.send _, (h.send _).bare (closeCommit_outside hr)⟩, fun _ _ => h.send _⟩

variable {conn : Conn} {α : Type} {p : Dialogue α}

def AtRest (conn : Conn) : Prop := conn.activeCursor = none → Bare conn.wire

instance (conn : Conn) : Decidable (AtRest conn) :=
  inferInstanceAs (Decidable (_ = _ → ∀ k ∈ conn.wire.cursors, k.owner = .pool → False))

theorem between_atRest (h : (discipline g).Between conn) : AtRest conn := by
  obtain ⟨w, active⟩ := conn
  intro hnone
  obtain rfl : active = none := hnone
  exact h.2

theorem AtRest.between (h : AtRest conn) (ht : Tied conn.wire) : (discipline g).Between conn := by
  obtain ⟨w, active⟩ := conn
  cases active with
  | none => exact ⟨ht, h rfl⟩
  | some c => exact ht

theorem extended_between {w : Wire} {active : Option ActiveCursor}
    (h : (discipline g).Between ⟨w, active⟩) (q : Query) :
    (discipline g).Between ⟨(w.extended q ch).1, active⟩ := by
  have hsent : (w.extended q ch).1 = ((Command.extended [] [] q).send g w ch).1 := rfl
  rw [hsent]
  cases active with
  | none => exact ⟨h.1.send _, h.2.send (by simp)⟩
  | some c => exact Tied.send h _

/-- What the rest of an operation makes of its connection, unless the server fails the CLOSE of
an exhausted page. A wire that is down has no cursors and stays down. -/
def Settles (g : Grammar) (p : Dialogue α) (conn : Conn) : Prop :=
  conn.wire.up = false ∨
    (discipline g).Walk p conn (fun _ => (discipline g).Between) fun _ _ => True

theorem call_settles (c : Call) (h : (discipline g).Between conn) : Settles g c.prog conn := by
  right
  apply prog_walk c _ _ _ h
  · intro _ _ _ _ _ _
    trivial
  · intro w n id ch hw
    exact hw.send _
  · intro w active q ch hw
    exact extended_between hw q

theorem cleanup_settles (h : (discipline g).Between conn) : Settles g releaseCleanup conn :=
  .inr (releaseCleanup_walk h)

theorem serve_tied {q : Request} (h : Tied conn.wire) : Tied (Conn.serve g conn q ch).1.wire := by
  cases q with
  | takeCursor | readCursor | setCursor => exact h
  | takeCursorIf id => exact (Conn.takeIf_wire conn id).symm ▸ h
  | send c => exact h.send c

theorem serve_down {q : Request} (h : conn.wire.up = false) :
    (Conn.serve g conn q ch).1.wire.up = false := by
  cases q with
  | takeCursor | readCursor | setCursor => exact h
  | takeCursorIf id => exact (Conn.takeIf_wire conn id).symm ▸ h
  | send c =>
    cases c <;> simp [Conn.serve, Command.send, Wire.simpleQuery, Wire.prepare, Wire.extended, h]

theorem Settles.serve {q : Request} {f : Reply q → Dialogue α}
    (h : Settles g (.ask q f) conn) (hfails : closeFails ⟨conn, q, ch⟩ = false) :
    Settles g (f (Conn.serve g conn q ch).2) (Conn.serve g conn q ch).1 :=
  h.imp serve_down fun hwalk => wpUnless_served hwalk (fun hex => hex) (by simp [discipline, hfails])

theorem settles_lost (g : Grammar) (p : Dialogue α) (conn : Conn) :
    Settles g p { conn with wire := conn.wire.lose } := .inl rfl

theorem Settles.atRest {a : α} (h : Settles g (.ret a) conn) (ht : Tied conn.wire) :
    AtRest conn := by
  rcases h with hdown | hwalk
  · intro _ k hk
    simp [(ht.inScope.down hdown).2] at hk
  · have hret := hwalk (fun _ hx => absurd hx List.not_mem_nil)
    exact between_atRest (hret.1 fun _ hx => absurd hx List.not_mem_nil)

end SshCommander.StrayCursors
