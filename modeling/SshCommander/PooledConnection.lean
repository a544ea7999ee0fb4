import SshCommander.InteractionPrograms
import SshCommander.PostgresWire

/-!
# A pooled connection and the requests made on it

A request is one message on the wire or one critical section on `active_cursor`. The
commands the pool makes up itself are constructors; `Command.text` is the exact SQL each
one sends.
-/

namespace SshCommander.PooledConnection
open InteractionPrograms RustText SqlStatementSplit PostgresWire

structure ActiveCursor where
  cursorId : Text
  columnCount : ℕ
  deriving DecidableEq, Repr

/-- The three places that send `CLOSE c; COMMIT`: for the cursor a new query supersedes,
after a first page that exhausts its cursor, and on request. -/
inductive Cleanup where
  | superseded
  | exhausted
  | requested
  deriving DecidableEq, Repr

inductive Param where
  | text (value : Option Text)
  | texts (values : List Text)
  deriving DecidableEq, Repr

inductive Command where
  | batchExecute (sql : Sql)
  | simpleQuery (sql : Sql)
  | prepare (sql : Sql)
  | beginDeclare (cursorId : Text) (sql : Sql)
  | fetchForward (count : ℕ) (cursorId : Text)
  | closeCommit (cursorId : Text) (why : Cleanup)
  | rollback
  | extended (sql : Text) (params : List Param) (query : Query)
  deriving DecidableEq, Repr

namespace Command

def text : Command → Text
  | .batchExecute sql | .simpleQuery sql | .prepare sql => sql
  | .beginDeclare c sql =>
    "BEGIN; DECLARE ".toList ++ c ++ " NO SCROLL CURSOR FOR ".toList ++ sql
  | .fetchForward n c => "FETCH FORWARD ".toList ++ (toString n).toList ++ " FROM ".toList ++ c
  | .closeCommit c _ => "CLOSE ".toList ++ c ++ "; COMMIT".toList
  | .rollback => "ROLLBACK".toList
  | .extended sql _ _ => sql

abbrev Answer : Command → Type
  | .prepare _ => List ColumnMeta
  | .extended _ _ _ => Wire.ExtendedReply
  | _ => List Message

/-- `DECLARE … CURSOR FOR` takes one cursorable query; anything else is a syntax error of the
whole message, so its BEGIN does not run either. -/
def declareStmts (g : Grammar) (cursorId : Text) (sql : Sql) : Option (List Stmt) :=
  match g.parse sql with
  | some [.query q] => if q.cursorable then some [.begin, .declare cursorId false q] else none
  | _ => none

theorem declareStmts_cases (g : Grammar) (cursorId : Text) (sql : Sql) :
    declareStmts g cursorId sql = none ∨
      ∃ q, declareStmts g cursorId sql = some [.begin, .declare cursorId false q] := by
  unfold declareStmts
  split
  · rename_i q _
    cases q.cursorable with
    | true => exact .inr ⟨q, rfl⟩
    | false => exact .inl rfl
  · exact .inl rfl

def send (g : Grammar) (w : Wire) (ch : Choice) :
    (c : Command) → Wire × Except DriverError (Answer c)
  | .batchExecute sql => w.simpleQuery .user (g.parse sql) ch
  | .simpleQuery sql => w.simpleQuery .user (g.parse sql) ch
  | .prepare sql => w.prepare (g.parse sql) ch
  | .beginDeclare c sql => w.simpleQuery .pool (declareStmts g c sql) ch
  | .fetchForward n c => w.simpleQuery .pool (some [.fetch n c]) ch
  | .closeCommit c _ => w.simpleQuery .pool (some [.close c, .commit]) ch
  | .rollback => w.simpleQuery .pool (some [.rollback]) ch
  | .extended _ _ q => w.extended q ch

end Command

/-- `active_cursor` is read and written only by requests, each under its own mutex. -/
inductive Request where
  | takeCursor
  | takeCursorIf (cursorId : Text)
  | readCursor
  | setCursor (cursor : Option ActiveCursor)
  | send (c : Command)
  deriving DecidableEq, Repr

abbrev Reply : Request → Type
  | .takeCursor | .takeCursorIf _ | .readCursor => Option ActiveCursor
  | .setCursor _ => Unit
  | .send c => Except DriverError c.Answer

structure Conn where
  wire : Wire
  activeCursor : Option ActiveCursor
  deriving DecidableEq, Repr

namespace Conn

def fresh : Conn := ⟨.fresh, none⟩

/-- `Some(c) if c.cursor_id == cursor_id => active.take()`. -/
def takeIf (conn : Conn) (cursorId : Text) : Conn × Option ActiveCursor :=
  match conn.activeCursor with
  | some c => if c.cursorId = cursorId then ({ conn with activeCursor := none }, some c)
      else (conn, none)
  | none => (conn, none)

@[simp] theorem takeIf_wire (conn : Conn) (cursorId : Text) :
    (conn.takeIf cursorId).1.wire = conn.wire := by
  unfold takeIf
  split
  · split <;> rfl
  · rfl

def serve (g : Grammar) (conn : Conn) : (q : Request) → Choice → Conn × Reply q
  | .takeCursor, _ => ({ conn with activeCursor := none }, conn.activeCursor)
  | .takeCursorIf id, _ => conn.takeIf id
  | .readCursor, _ => (conn, conn.activeCursor)
  | .setCursor c, _ => ({ conn with activeCursor := c }, ())
  | .send c, ch => ({ conn with wire := (c.send g conn.wire ch).1 }, (c.send g conn.wire ch).2)

end Conn

abbrev Dialogue (α : Type) := Prog Request Reply α

def ask (q : Request) : Dialogue (Reply q) := Prog.request q

def send (c : Command) : Dialogue (Except DriverError c.Answer) := Prog.request (Request.send c)

/-- `PgError`, with `panicked` for a panic that unwinds out of the call. -/
inductive PgError where
  | cursorExpired (message : Text)
  | invalidInput (message : Text)
  | connect (message : Text)
  | poolExhausted (leased maxSize : ℕ)
  | driver (e : DriverError)
  | panicked
  deriving DecidableEq, Repr

end SshCommander.PooledConnection
