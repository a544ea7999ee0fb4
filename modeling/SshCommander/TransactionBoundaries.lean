import SshCommander.CursorBlocks
import SshCommander.QueryPaths

/-!
# Transaction boundaries of the user

A block the user opened should end only by the user's own COMMIT or ROLLBACK. It does as long
as the pool sends neither its BEGIN nor a failing Parse inside it: then every message of the
pool meets the wire outside the user's blocks.
-/

namespace SshCommander.TransactionBoundaries
open InteractionPrograms RustText SqlStatementSplit PostgresWire PostgresWire.Wire
  PooledConnection QueryExecution RowEditing SessionCalls QueryPaths QueryPaths.Discipline

def inUserBlock (w : Wire) : Bool := w.block.any (·.owner == some .user)

def abortedUserBlock (w : Wire) : Bool := w.block.any fun b => b.owner == some .user && b.failed

/-- Every block of the user that has ended was in order and ended by the user, and one that is
open is in order. -/
structure Respected (w : Wire) : Prop where
  ended : ∀ r ∈ w.history, r.owner = some .user →
    r.failed = false ∧ (r.ending = .commit .user ∨ r.ending = .rollback .user)
  running : ∀ b, w.block = some b → b.owner ≠ some .pool → b.failed = false

def wireAfter (g : Grammar) (x : Exchange Conn Request Choice) : Wire :=
  (Conn.serve g x.before x.asked x.choice).1.wire

def directText : Request → Option Sql
  | .send (.batchExecute sql) | .send (.simpleQuery sql) => some sql
  | _ => none

/-- A statement of the user's transaction fails: its message leaves the block aborted, or the
wire is lost by a message that runs in the transaction or opens it. -/
def failsInTransaction (g : Grammar) (x : Exchange Conn Request Choice) : Bool :=
  match directText x.asked with
  | none => false
  | some sql =>
    abortedUserBlock (wireAfter g x) ||
      (x.before.wire.up && !(wireAfter g x).up &&
        (inUserBlock x.before.wire || (g.parse sql).any (·.contains .begin)))

/-- Inside a block of the user the pool declares a cursor, or its Parse fails. -/
def intrudes (g : Grammar) (x : Exchange Conn Request Choice) : Bool :=
  inUserBlock x.before.wire &&
    match x.asked with
    | .send (.beginDeclare _ _) => true
    | .send (.prepare sql) => !(x.before.wire.prepare (g.parse sql) x.choice).2.isOk
    | _ => false

variable {w w' : Wire} {ch : Choice}

theorem notUser {b : Block} (h : inUserBlock w = false) (hb : w.block = some b) :
    b.owner ≠ some .user := by
  intro ho
  simp [inUserBlock, hb, ho] at h

theorem Respected.endBlock (h : Respected w) {e : Ending}
    (he : inUserBlock w = true → e = .commit .user ∨ e = .rollback .user) :
    Respected (w.endBlock e) := by
  refine ⟨?_, by simp⟩
  cases hb : w.block with
  | none => exact (endBlock_none hb e).symm ▸ h.ended
  | some b =>
    rw [endBlock_history hb]
    intro r hr ho
    rcases List.mem_cons.mp hr with rfl | hr
    · have ho : b.owner = some .user := ho
      exact ⟨h.running b hb (by simp [ho]), he (by simp [inUserBlock, hb, ho])⟩
    · exact h.ended r hr ho

theorem Respected.enter (h : Respected w) : Respected w.enter := by
  refine ⟨fun r hr => h.ended r (enter_history w ▸ hr), fun b hb => ?_⟩
  rcases enter_block w with ⟨he, -⟩ | ⟨he, -⟩
  · obtain rfl := Option.some.inj (he.symm.trans hb)
    exact fun _ => rfl
  · exact h.running b (he.symm.trans hb)

theorem enter_inUserBlock (w : Wire) : inUserBlock w.enter = inUserBlock w := by
  rcases enter_block w with ⟨he, hn⟩ | ⟨he, -⟩
  · simp [inUserBlock, he, hn]
  · simp [inUserBlock, he]

theorem Respected.plain {o : Origin} (h : Respected w) (hp : PlainStep o w w') : Respected w' := by
  refine ⟨fun r hr => h.ended r (hp.history ▸ hr), fun b hb => ?_⟩
  cases hw : w.block with
  | none => exact absurd (hb.symm.trans (hp.outside hw).1) (by simp)
  | some b₀ =>
    rcases hp.inside b₀ hw with ⟨hb', -⟩ | ⟨hb', -⟩
    · exact h.running b (hw.trans (hb'.symm.trans hb))
    · obtain rfl := Option.some.inj (hb'.symm.trans hb)
      exact h.running b₀ hw

theorem plain_inUserBlock {o : Origin} (hp : PlainStep o w w') : inUserBlock w' = inUserBlock w := by
  cases hw : w.block with
  | none => simp [inUserBlock, hw, (hp.outside hw).1]
  | some b => rcases hp.inside b hw with ⟨hb, -⟩ | ⟨hb, -⟩ <;> simp [inUserBlock, hw, hb]

theorem begin_block (w : Wire) (o : Origin) :
    (∃ failed pending, w.block = some ⟨none, failed, pending⟩ ∧
      w.begin o = { w with block := some ⟨some o, failed, pending⟩ }) ∨ w.begin o = w := by
  unfold Wire.begin
  split
  · rename_i failed pending hb
    exact .inl ⟨failed, pending, hb, rfl⟩
  · exact .inr rfl

theorem Respected.begin (h : Respected w) (o : Origin) : Respected (w.begin o) := by
  rcases begin_block w o with ⟨failed, pending, hb, hw⟩ | hw
  · rw [hw]
    refine ⟨h.ended, fun b hb' _ => ?_⟩
    obtain rfl := Option.some.inj hb'
    exact h.running ⟨none, failed, pending⟩ hb (by simp)
  · exact hw.symm ▸ h

theorem Respected.finish (h : Respected w) : Respected w.finish := by
  unfold Wire.finish
  split
  · rename_i failed pending hb
    exact h.endBlock (by simp [inUserBlock, hb])
  · exact h

theorem finish_inUserBlock (w : Wire) : inUserBlock w.finish = inUserBlock w := by
  unfold Wire.finish
  split
  · rename_i hb
    simp [inUserBlock, hb]
  · rfl

/-- Outside the user's blocks, with those before in order. -/
def Calm (w : Wire) : Prop := Respected w ∧ inUserBlock w = false

theorem Calm.endBlock (h : Calm w) (e : Ending) : Calm (w.endBlock e) :=
  ⟨h.1.endBlock fun hu => absurd (h.2.symm.trans hu) (by simp), by simp [inUserBlock]⟩

theorem Calm.enter (h : Calm w) : Calm w.enter :=
  ⟨h.1.enter, (enter_inUserBlock w).trans h.2⟩

theorem Calm.lose (h : Calm w) : Calm w.lose :=
  ⟨⟨(h.endBlock .lost).1.ended, by simp⟩, by simp [inUserBlock]⟩

theorem Calm.abort (h : Calm w) : Calm w.abort := by
  cases hb : w.block with
  | none => exact (abort_none hb).symm ▸ h
  | some b =>
    cases ho : b.owner with
    | none => exact (abort_implicit hb ho).symm ▸ h.endBlock .error
    | some o =>
      rw [abort_explicit hb (by simp [ho])]
      have huser := notUser h.2 hb
      refine ⟨⟨h.1.ended, fun b' hb' hp => ?_⟩, by simpa [inUserBlock] using huser⟩
      obtain rfl := Option.some.inj hb'
      cases o with
      | user => exact absurd ho huser
      | pool => exact absurd ho hp

/-- A message that is not the user's BEGIN keeps outside the user's blocks. -/
theorem calm_keeps {o : Origin} {sts : List Stmt} (hbegin : o = .user → .begin ∉ sts) :
    Keeps Calm Calm o sts := by
  refine ⟨fun w w' rows n st ms hm hw hs => ?_, fun _ => Calm.abort, fun w hw => ?_,
    fun _ => Calm.lose⟩
  · rcases stmt_cases hs with ⟨rfl, rfl⟩ | ⟨rfl, rfl⟩ | ⟨rfl, rfl⟩ | ⟨-, hp⟩
    · refine ⟨hw.1.begin o, ?_⟩
      cases o with
      | user => exact absurd hm (hbegin rfl)
      | pool =>
        rcases begin_block w .pool with ⟨failed, pending, hb, hw'⟩ | hw'
        · simp [hw', inUserBlock]
        · exact hw'.symm ▸ hw.2
    · exact (hw.endBlock _).enter
    · exact (hw.endBlock _).enter
    · exact ⟨hw.1.plain hp, (plain_inUserBlock hp).trans hw.2⟩
  · exact ⟨hw.1.finish, (finish_inUserBlock w).trans hw.2⟩

theorem Calm.simpleQuery {o : Origin} {parsed : Option (List Stmt)} (h : Calm w)
    (hbegin : o = .user → ∀ sts, parsed = some sts → .begin ∉ sts) :
    Calm (w.simpleQuery o parsed ch).1 := by
  cases parsed with
  | none =>
    unfold Wire.simpleQuery
    split
    · exact h
    · exact h.abort
  | some sts =>
    exact (calm_keeps fun ho => hbegin ho sts rfl).simpleQuery ch (fun _ => h) h.enter

theorem Calm.prepare (h : Calm w) (parsed : Option (List Stmt)) : Calm (w.prepare parsed ch).1 := by
  rcases prepare_wire w parsed ch with hw | hw | hw
  · exact hw.symm ▸ h
  · exact hw.symm ▸ h.lose
  · exact hw.symm ▸ h.abort

/-- The user's own statements keep the user's blocks in order unless one of them fails. -/
theorem respected_keeps (sts : List Stmt) :
    Keeps Respected (fun w => Respected w ∨ abortedUserBlock w = true ∨ w.up = false) .user
      sts := by
  refine ⟨fun w w' rows n st ms _ hw hs => ?_, fun w hw => ?_, fun w hw => .inl hw.finish,
    fun w _ => .inr (.inr rfl)⟩
  · rcases stmt_cases hs with ⟨rfl, rfl⟩ | ⟨rfl, rfl⟩ | ⟨rfl, rfl⟩ | ⟨-, hp⟩
    · exact hw.begin .user
    · exact (hw.endBlock fun _ => .inl rfl).enter
    · exact (hw.endBlock fun _ => .inr rfl).enter
    · exact hw.plain hp
  · cases hu : inUserBlock w with
    | false => exact .inl (Calm.abort ⟨hw, hu⟩).1
    | true =>
      cases hb : w.block with
      | none => simp [inUserBlock, hb] at hu
      | some b =>
        have ho : b.owner = some .user := by simpa [inUserBlock, hb] using hu
        rw [abort_explicit hb (by simp [ho])]
        exact .inr (.inl (by simp [abortedUserBlock, ho]))

variable {g : Grammar} {conn : Conn}

def Disturbed (g : Grammar) (x : Exchange Conn Request Choice) : Prop :=
  failsInTransaction g x = true ∨ intrudes g x = true

theorem userMessage_respected {parsed : Option (List Stmt)} (h : Respected w)
    (haborted : abortedUserBlock (w.simpleQuery .user parsed ch).1 = false)
    (hlost : w.up = true → (w.simpleQuery .user parsed ch).1.up = false →
      inUserBlock w = false ∧ parsed.any (·.contains .begin) = false) :
    Respected (w.simpleQuery .user parsed ch).1 := by
  cases hup : w.up with
  | false => rwa [simpleQuery_down hup]
  | true =>
    have hcalm (hu : inUserBlock w = false)
        (hbegin : ∀ sts, parsed = some sts → .begin ∉ sts) :
        Respected (w.simpleQuery .user parsed ch).1 :=
      (Calm.simpleQuery ⟨h, hu⟩ fun _ => hbegin).1
    cases parsed with
    | none =>
      cases hu : inUserBlock w with
      | false => exact hcalm hu (by simp)
      | true =>
        rw [simpleQuery_none hup] at haborted
        cases hb : w.block with
        | none => simp [inUserBlock, hb] at hu
        | some b =>
          have ho : b.owner = some .user := by simpa [inUserBlock, hb] using hu
          simp [abort_explicit hb (by simp [ho] : b.owner ≠ none), abortedUserBlock, ho] at haborted
    | some sts =>
      rcases (respected_keeps sts).simpleQuery ch (fun _ => .inl h) h.enter with hr | ha | hdown
      · exact hr
      · exact absurd (haborted.symm.trans ha) (by simp)
      · obtain ⟨hu, hbegin⟩ := hlost hup hdown
        exact hcalm hu (by simpa using hbegin)

theorem directText_respected {c : Command} {sql : Sql} (hc : c = .simpleQuery sql ∨ c = .batchExecute sql)
    (h : Respected conn.wire) (hb : ¬Disturbed g ⟨conn, .send c, ch⟩) :
    Respected (c.send g conn.wire ch).1 := by
  have hq : directText (.send c) = some sql := by rcases hc with rfl | rfl <;> rfl
  have hwire : (c.send g conn.wire ch).1 = (conn.wire.simpleQuery .user (g.parse sql) ch).1 := by
    rcases hc with rfl | rfl <;> rfl
  have hafter : wireAfter g ⟨conn, .send c, ch⟩ = (c.send g conn.wire ch).1 := rfl
  have hfail : failsInTransaction g ⟨conn, .send c, ch⟩ = false := by
    simpa using fun hf => hb (.inl hf)
  simp only [failsInTransaction, hq, hafter, Bool.or_eq_false_iff] at hfail
  rw [hwire] at hfail ⊢
  refine userMessage_respected h hfail.1 fun hup hdown => ?_
  simpa only [hup, hdown, Bool.not_false, Bool.true_and, Bool.or_eq_false_iff] using hfail.2

/-- Inside a block of the user only a Parse that succeeds is sent besides the user's texts. -/
theorem prepare_respected {sql : Sql} (h : Respected conn.wire)
    (hb : ¬Disturbed g ⟨conn, .send (.prepare sql), ch⟩) :
    Respected (conn.wire.prepare (g.parse sql) ch).1 := by
  cases hu : inUserBlock conn.wire with
  | false => exact (Calm.prepare ⟨h, hu⟩ _).1
  | true =>
    have hok : (conn.wire.prepare (g.parse sql) ch).2.isOk = true := by
      cases hr : (conn.wire.prepare (g.parse sql) ch).2.isOk with
      | true => rfl
      | false => exact absurd (.inr (by simp [intrudes, hu, hr])) hb
    rwa [prepare_ok hok]

/-- A cursor is declared only outside the user's blocks. -/
theorem declare_calm {sql : Sql} {c : Text} (h : Respected conn.wire)
    (hb : ¬Disturbed g ⟨conn, .send (.beginDeclare c sql), ch⟩) :
    Calm (conn.wire.simpleQuery .pool (Command.declareStmts g c sql) ch).1 := by
  have hu : inUserBlock conn.wire = false := by
    cases hu : inUserBlock conn.wire with
    | false => rfl
    | true => exact absurd (.inr (by simp [intrudes, hu])) hb
  exact Calm.simpleQuery ⟨h, hu⟩ (by simp)

/-- The pool's own messages meet the wire outside the user's blocks. -/
def discipline (g : Grammar) : Discipline g where
  watch := ⟨Disturbed g, fun _ => False⟩
  watched _ hb := hb.elim
  allowed _ := True
  ready := Respected
  failed := Calm
  declared _ := Calm
  fetched _ := Calm
  held _ := Calm
  spoilt _ := True
  text hc _ hb h := directText_respected hc h hb
  prepare hb h := prepare_respected h hb
  declare hb h := ⟨fun _ _ => declare_calm h hb, fun _ _ => declare_calm h hb⟩
  fetch h := ⟨fun _ _ => h.simpleQuery (by simp), fun _ _ => h.simpleQuery (by simp)⟩
  rollback h := (h.simpleQuery (by simp)).1
  keep h := h
  exhaust _ h := (h.simpleQuery (by simp)).1
  spoil _ _ := trivial
  close h := ⟨fun _ _ => (h.simpleQuery (by simp)).1, fun _ _ => h.simpleQuery (by simp)⟩

theorem between_respected (h : (discipline g).Between conn) : Respected conn.wire := by
  obtain ⟨w, active⟩ := conn
  cases active with
  | none => exact h
  | some c => exact And.left h

theorem call_walk (c : Call) (hc : c.isEdit = false) (h : (discipline g).Between conn) :
    (discipline g).Walk c.prog conn (fun _ => (discipline g).Between)
      fun _ => (discipline g).spoilt := by
  cases c with
  | execute sql pageSize uuid => exact answering_walk (execute_walk (fun _ _ => trivial) h)
  | fetchPage sessionId cursorId count =>
    apply answering_walk
    apply fetchPageOf_walk _ h
    intro w c ch hw
    exact Calm.simpleQuery hw (by simp)
  | closeQuery cursorId =>
    apply wpUnless_bind
    exact wpUnless_mono (fun _ _ hs => wpUnless_ret hs) (fun _ _ hs => hs) (closeQueryOf_walk h)
  | updateCell | insertRow | deleteRows => cases hc

def NoFailure (g : Grammar) (conn : Conn) (x : IssuedCall) : Prop :=
  ∀ y ∈ callTrace g conn x, failsInTransaction g y = false

def NoIntrusion (g : Grammar) (conn : Conn) (x : IssuedCall) : Prop :=
  ∀ y ∈ callTrace g conn x, intrudes g y = false

theorem user_blocks_respected (g : Grammar) (xs : List IssuedCall)
    (hcalls : ∀ x ∈ xs, x.call.isEdit = false)
    (hdirect : Each (Conn.serve g) Call.prog (NoFailure g) .fresh xs)
    (hquiet : Each (Conn.serve g) Call.prog (NoIntrusion g) .fresh xs) :
    Respected (afterCalls g .fresh xs).wire := by
  have hstep (conn : Conn) (x : IssuedCall) (h : (discipline g).Between conn)
      (hx : x.call.isEdit = false ∧ NoFailure g conn x ∧ NoIntrusion g conn x) :
      (discipline g).Between (afterCall g conn x) := by
    obtain ⟨hedit, hdirect, hquiet⟩ := hx
    have hexec := wpUnless_exec (call_walk x.call hedit h) x.env fun y hy hd => ?_
    · exact hexec.1 fun _ _ hb => hb
    · rcases hd with hf | hi
      · exact absurd ((hdirect y hy).symm.trans hf) (by simp)
      · exact absurd ((hquiet y hy).symm.trans hi) (by simp)
  have hstart : (discipline g).Between .fresh :=
    ⟨by simp [Conn.fresh, Wire.fresh], by simp [Conn.fresh, Wire.fresh]⟩
  have hx := each_and (each_of_forall hcalls) (each_and hdirect hquiet)
  exact between_respected (afterAll_invariant hstep hstart hx)

def plainTransaction : List IssuedCall :=
  ["BEGIN".toList, "INSERT".toList, "COMMIT".toList].map (querying · fun _ => .quiet)

theorem user_blocks_respected_plainTransaction :
    Respected (afterCalls smallServer .fresh plainTransaction).wire :=
  user_blocks_respected smallServer plainTransaction (by decide)
    ⟨by unfold NoFailure; decide +kernel, by unfold NoFailure; decide +kernel,
      by unfold NoFailure; decide +kernel, trivial⟩
    ⟨by unfold NoIntrusion; decide +kernel, by unfold NoIntrusion; decide +kernel,
      by unfold NoIntrusion; decide +kernel, trivial⟩

/-- An insert rolled back after a query. -/
def queriedTransaction : List IssuedCall :=
  ["BEGIN".toList, "INSERT".toList, selectOne, "ROLLBACK".toList].map (querying · fun _ => .quiet)

/-- No statement fails, yet the clean-up after the query commits the insert. -/
theorem queriedTransaction_not_respected :
    Each (Conn.serve smallServer) Call.prog (NoFailure smallServer) .fresh queriedTransaction ∧
      (afterCalls smallServer .fresh queriedTransaction).wire.committed = [0] ∧
      ¬Respected (afterCalls smallServer .fresh queriedTransaction).wire := by
  refine ⟨⟨?_, ?_, ?_, ?_, trivial⟩, by decide +kernel, fun h => ?_⟩
  · unfold NoFailure
    decide +kernel
  · unfold NoFailure
    decide +kernel
  · unfold NoFailure
    decide +kernel
  · unfold NoFailure
    decide +kernel
  · have hmem : (⟨some .user, false, .commit .pool, [0]⟩ : TxRecord) ∈
        (afterCalls smallServer .fresh queriedTransaction).wire.history := by decide +kernel
    have hended := (h.ended _ hmem rfl).2
    simp at hended

end SshCommander.TransactionBoundaries
