import SshCommander.PooledConnection

/-!
# A server with transactions, and what it has committed

What statements do to a database is a parameter. A message outside a block is one implicit
transaction: its statements run one after another, and what they leave is committed at the end or
not at all.
-/

namespace SshCommander.TransactionalServer
open InteractionPrograms RustText SqlStatementSplit PostgresWire PooledConnection

/-- `D` is a committed database, `W` what a transaction works on (with what lasts only for the
transaction), `S` a statement other than transaction control. An error is its SQLSTATE. -/
structure Server (D W S : Type) where
  parse : Sql → Option (List S)
  begin : D → W
  commit : W → Except String D
  prepare : S → W → Except String (List ColumnMeta)
  /-- Whether `DECLARE … CURSOR FOR` takes the statement. -/
  cursorable : S → Bool
  run : S → W → Except String (W × List Message)
  declare : S → W → Except String W
  /-- The next rows of a cursor. -/
  fetch : S → ℕ → W → Except String (W × List Row)
  extended : Text → List Param → W → Except String (W × Wire.ExtendedReply)

/-- An open block, with the cursors declared in it, or one that an error has aborted. -/
inductive Block (W S : Type) where
  | live (work : W) (cursors : List (Text × S))
  | failed

structure Session (D W S : Type) where
  database : D
  block : Option (Block W S)
  activeCursor : Option ActiveCursor

variable {D W S : Type}

namespace Session

def abort (s : Session D W S) : Session D W S := { s with block := s.block.map fun _ => .failed }

def rollback (s : Session D W S) : Session D W S := { s with block := none }

end Session

namespace Server

def runAll (srv : Server D W S) : List S → W → Except String (W × List Message)
  | [], w => .ok (w, [])
  | st :: rest, w => do
    let (w, ms) ← srv.run st w
    let (w, ms') ← srv.runAll rest w
    return (w, ms ++ ms')

def transaction (srv : Server D W S) (sts : List S) (d : D) : Except String (D × List Message) := do
  let (w, ms) ← srv.runAll sts (srv.begin d)
  let d' ← srv.commit w
  return (d', ms)

def simpleQuery (srv : Server D W S) (s : Session D W S) (sql : Sql) :
    Session D W S × Except DriverError (List Message) :=
  match srv.parse sql with
  | none => (s.abort, .error (.server "42601"))
  | some sts =>
    match s.block with
    | none =>
      match srv.transaction sts s.database with
      | .error code => (s, .error (.server code))
      | .ok (d, ms) => ({ s with database := d }, .ok (Wire.emptyResponse sts ++ ms))
    | some (.live w cursors) =>
      match srv.runAll sts w with
      | .error code => (s.abort, .error (.server code))
      | .ok (w', ms) =>
        ({ s with block := some (.live w' cursors) }, .ok (Wire.emptyResponse sts ++ ms))
    | some .failed =>
      if sts.isEmpty then (s, .ok (Wire.emptyResponse sts)) else (s, .error (.server "25P02"))

def prepared (srv : Server D W S) (s : Session D W S) (sql : Sql) :
    Session D W S × Except DriverError (List ColumnMeta) :=
  match srv.parse sql with
  | some [] => (s, .ok [])
  | some [st] =>
    match s.block with
    | none =>
      match srv.prepare st (srv.begin s.database) with
      | .error code => (s, .error (.server code))
      | .ok columns => (s, .ok columns)
    | some (.live w _) =>
      match srv.prepare st w with
      | .error code => (s.abort, .error (.server code))
      | .ok columns => (s, .ok columns)
    | some .failed => (s, .error (.server "25P02"))
  | _ => (s.abort, .error (.server "42601"))

/-- `BEGIN; DECLARE c NO SCROLL CURSOR FOR sql`; a statement that no cursor takes is a syntax error
of the whole message. -/
def beginDeclare (srv : Server D W S) (s : Session D W S) (cursorId : Text) (sql : Sql) :
    Session D W S × Except DriverError (List Message) :=
  match srv.parse sql with
  | some [st] =>
    if srv.cursorable st then
      match s.block with
      | none =>
        match srv.declare st (srv.begin s.database) with
        | .error code => ({ s with block := some .failed }, .error (.server code))
        | .ok w => ({ s with block := some (.live w [(cursorId, st)]) }, .ok [])
      | some (.live w cursors) =>
        match srv.declare st w with
        | .error code => (s.abort, .error (.server code))
        | .ok w' => ({ s with block := some (.live w' ((cursorId, st) :: cursors)) }, .ok [])
      | some .failed => (s, .error (.server "25P02"))
    else (s.abort, .error (.server "42601"))
  | _ => (s.abort, .error (.server "42601"))

def fetchForward (srv : Server D W S) (s : Session D W S) (count : ℕ) (cursorId : Text) :
    Session D W S × Except DriverError (List Message) :=
  match s.block with
  | none => (s, .error (.server "34000"))
  | some .failed => (s, .error (.server "25P02"))
  | some (.live w cursors) =>
    match cursors.lookup cursorId with
    | none => (s.abort, .error (.server "34000"))
    | some st =>
      match srv.fetch st count w with
      | .error code => (s.abort, .error (.server code))
      | .ok (w', rows) => ({ s with block := some (.live w' cursors) },
          .ok (rows.map .row ++ [.commandComplete rows.length]))

/-- `CLOSE c; COMMIT`. A commit that fails ends the block too. -/
def closeCommit (srv : Server D W S) (s : Session D W S) (cursorId : Text) :
    Session D W S × Except DriverError (List Message) :=
  match s.block with
  | none => (s, .error (.server "34000"))
  | some .failed => (s, .error (.server "25P02"))
  | some (.live w cursors) =>
    match cursors.lookup cursorId with
    | none => (s.abort, .error (.server "34000"))
    | some _ =>
      match srv.commit w with
      | .error code => (s.rollback, .error (.server code))
      | .ok d => ({ s.rollback with database := d }, .ok [])

def parameterised (srv : Server D W S) (s : Session D W S) (sql : Text) (params : List Param) :
    Session D W S × Except DriverError Wire.ExtendedReply :=
  match s.block with
  | none =>
    match srv.extended sql params (srv.begin s.database) with
    | .error code => (s, .error (.server code))
    | .ok (w, reply) =>
      match srv.commit w with
      | .error code => (s, .error (.server code))
      | .ok d => ({ s with database := d }, .ok reply)
  | some .failed => (s, .error (.server "25P02"))
  | some (.live w cursors) =>
    match srv.extended sql params w with
    | .error code => (s.abort, .error (.server code))
    | .ok (w', reply) => ({ s with block := some (.live w' cursors) }, .ok reply)

def answer (srv : Server D W S) (s : Session D W S) :
    (c : Command) → Session D W S × Except DriverError (Command.Answer c)
  | .batchExecute sql => srv.simpleQuery s sql
  | .simpleQuery sql => srv.simpleQuery s sql
  | .prepare sql => srv.prepared s sql
  | .beginDeclare c sql => srv.beginDeclare s c sql
  | .fetchForward n c => srv.fetchForward s n c
  | .closeCommit c _ => srv.closeCommit s c
  | .rollback => (s.rollback, .ok [])
  | .extended sql params _ => srv.parameterised s sql params

/-- The requests of a dialogue, `active_cursor` as on a pooled connection. -/
def serve (srv : Server D W S) (s : Session D W S) : (q : Request) → Unit → Session D W S × Reply q
  | .takeCursor, _ => ({ s with activeCursor := none }, s.activeCursor)
  | .takeCursorIf id, _ =>
    match s.activeCursor with
    | some c => if c.cursorId = id then ({ s with activeCursor := none }, some c) else (s, none)
    | none => (s, none)
  | .readCursor, _ => (s, s.activeCursor)
  | .setCursor c, _ => ({ s with activeCursor := c }, ())
  | .send c, _ => srv.answer s c

def after {α : Type} (srv : Server D W S) (p : Dialogue α) (s : Session D W S) : Session D W S :=
  (exec srv.serve p s fun _ => ()).state

def settled (d : D) : Except String D → D
  | .error _ => d
  | .ok d' => d'

/-- What the database is after an implicit transaction, whether it commits or not. -/
def leaves (srv : Server D W S) (sts : List S) (d : D) : D :=
  settled d ((srv.transaction sts d).map (·.1))

/-- What is documented of the statements that the pool prepares or reads through a cursor: they
fail only where the statement itself does, and a page that is not full has run it to its end. -/
structure Lawful (srv : Server D W S) : Prop where
  prepare : ∀ st w code, srv.prepare st w = .error code → ∃ code', srv.run st w = .error code'
  fetch : ∀ st n w w' code, srv.declare st w = .ok w' → srv.fetch st n w' = .error code →
    ∃ code', srv.run st w = .error code'
  exhausted : ∀ st n w w' w'' rows, srv.declare st w = .ok w' →
    srv.fetch st n w' = .ok (w'', rows) → rows.length < n → ∃ ms, srv.run st w = .ok (w'', ms)

end Server

variable {srv : Server D W S}

theorem runAll_error {st : S} {w : W} {code : String} (h : srv.run st w = .error code)
    (rest : List S) : srv.runAll (st :: rest) w = .error code := by
  rw [Server.runAll, h]
  rfl

theorem runAll_ok {st : S} {w : W} {p : W × List Message} (h : srv.run st w = .ok p)
    (rest : List S) :
    srv.runAll (st :: rest) w = (srv.runAll rest p.1).map fun q => (q.1, p.2 ++ q.2) := by
  obtain ⟨w', ms⟩ := p
  rw [Server.runAll, h]
  simp only [bind, Except.bind]
  cases srv.runAll rest w' with
  | error code => rfl
  | ok q => rfl

theorem runAll_failed {a : List S} {w : W} {code : String} (h : srv.runAll a w = .error code)
    (b : List S) : srv.runAll (a ++ b) w = .error code := by
  induction a generalizing w with
  | nil => cases h
  | cons st rest ih =>
    rw [List.cons_append]
    cases hst : srv.run st w with
    | error code' =>
      rw [runAll_error hst] at h ⊢
      exact h
    | ok p =>
      rw [runAll_ok hst] at h ⊢
      cases hrest : srv.runAll rest p.1 with
      | error code' =>
        rw [hrest] at h
        obtain rfl : code' = code := Except.error.inj h
        rw [ih hrest]
        rfl
      | ok q =>
        rw [hrest] at h
        cases h

theorem runAll_last {a : List S} {w w' : W} {ms : List Message} (h : srv.runAll a w = .ok (w', ms))
    (st : S) : srv.runAll (a ++ [st]) w = (srv.run st w').map fun p => (p.1, ms ++ p.2) := by
  induction a generalizing w ms with
  | nil =>
    obtain ⟨rfl, rfl⟩ := Prod.mk.inj (Except.ok.inj h)
    rw [List.nil_append]
    cases hst : srv.run st w with
    | error code => rw [runAll_error hst]; rfl
    | ok p => rw [runAll_ok hst]; simp [Server.runAll, Except.map]
  | cons st' rest ih =>
    rw [List.cons_append]
    cases hst : srv.run st' w with
    | error code =>
      rw [runAll_error hst] at h
      cases h
    | ok p =>
      rw [runAll_ok hst] at h ⊢
      cases hrest : srv.runAll rest p.1 with
      | error code =>
        rw [hrest] at h
        cases h
      | ok q =>
        rw [hrest] at h
        obtain ⟨rfl, rfl⟩ := Prod.mk.inj (Except.ok.inj h)
        rw [ih hrest]
        cases srv.run st q.1 with
        | error code => rfl
        | ok r => simp [Except.map]

theorem leaves_failed {sts : List S} {d : D} {code : String}
    (h : srv.runAll sts (srv.begin d) = .error code) : srv.leaves sts d = d := by
  rw [Server.leaves, Server.transaction, h]
  rfl

theorem leaves_ran {sts : List S} {d : D} {w : W} {ms : List Message}
    (h : srv.runAll sts (srv.begin d) = .ok (w, ms)) :
    srv.leaves sts d = Server.settled d (srv.commit w) := by
  rw [Server.leaves, Server.transaction, h]
  simp only [bind, Except.bind]
  cases srv.commit w <;> rfl

/-- A text outside a block is one transaction. -/
theorem simpleQuery_outside {s : Session D W S} {sql : Sql} {sts : List S}
    (hparse : srv.parse sql = some sts) (hblock : s.block = none) :
    (srv.simpleQuery s sql).1 = { s with database := srv.leaves sts s.database } := by
  obtain ⟨d, block, cursor⟩ := s
  obtain rfl : block = none := hblock
  simp only [Server.simpleQuery, hparse, Server.leaves]
  cases srv.transaction sts d with
  | error code => rfl
  | ok p => rfl

end SshCommander.TransactionalServer
