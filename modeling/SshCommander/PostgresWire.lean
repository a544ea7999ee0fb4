import SshCommander.SqlStatementSplit

/-!
# One connection as the server sees it

A wire is outside a transaction block, inside an open one or inside an aborted one.
Outside a block every message runs in an implicit block that commits at its end; an
error there rolls it back, and inside a block it aborts the block until ROLLBACK.
The history of ended blocks and the numbered effects are bookkeeping of the model:
they record what was committed and what was discarded, and by whom.
-/

namespace SshCommander.PostgresWire
open RustText SqlStatementSplit

/-- Whose BEGIN, DECLARE, COMMIT or ROLLBACK a statement is. -/
inductive Origin where
  | user
  | pool
  deriving DecidableEq, Repr

abbrev Row := List (Option Text)

structure ColumnMeta where
  name : Text
  typeOid : ℕ
  typeName : Text
  deriving DecidableEq, Repr

/-- A statement other than transaction and cursor control: its result columns, whether
`DECLARE CURSOR FOR` takes it, and whether it leaves an effect on the database. -/
structure Query where
  columns : List ColumnMeta
  cursorable : Bool
  writes : Bool
  deriving DecidableEq, Repr

inductive Stmt where
  | begin
  | commit
  | rollback
  | declare (name : Text) (hold : Bool) (query : Query)
  | fetch (count : ℕ) (name : Text)
  | close (name : Text)
  | closeAll
  | query (q : Query)
  deriving DecidableEq, Repr

namespace Stmt

def isControl : Stmt → Bool
  | .begin | .commit | .rollback => true
  | _ => false

def isRollback : Stmt → Bool
  | .rollback => true
  | _ => false

/-- What an aborted block still accepts. -/
def endsBlock : Stmt → Bool
  | .commit | .rollback => true
  | _ => false

end Stmt

/-- The server's reading of a text; `none` is a syntax error, found before anything runs. -/
structure Grammar where
  parse : Sql → Option (List Stmt)

def Grammar.ofTexts (known : List (Sql × List Stmt)) : Grammar := ⟨fun sql => known.lookup sql⟩

inductive DriverError where
  | server (code : String)
  | closed
  | client
  deriving DecidableEq, Repr

/-- What goes wrong with one message: the server fails the statement at an index (a cancel
can hit any), the wire is lost there, or the driver refuses a parameter. -/
inductive Fault where
  | none
  | error (index : ℕ) (code : String)
  | lost (index : ℕ)
  | client
  deriving DecidableEq, Repr

/-- The error a fault raises at statement `i`; while the wire is up ROLLBACK has none. -/
def Fault.codeAt (f : Fault) (i : ℕ) (st : Stmt) : Option String :=
  match f with
  | .error j code => if i = j ∧ st.isRollback = false then some code else Option.none
  | _ => Option.none

/-- The environment's choice for one message: its fault, what each statement returns, and
a column of the result that the driver cannot read. -/
structure Choice where
  fault : Fault
  rows : ℕ → List Row
  affected : ℕ → ℕ
  unreadable : Option ℕ

def Choice.quiet : Choice := ⟨.none, fun _ => [], fun _ => 0, none⟩

instance : Nonempty Choice := ⟨.quiet⟩

inductive Message where
  | rowDescription (columns : List Text)
  | row (cells : Row)
  | commandComplete (count : ℕ)
  | other
  deriving DecidableEq, Repr

structure Cursor where
  name : Text
  owner : Origin
  hold : Bool
  /-- Declared in the block that is open now. -/
  fresh : Bool
  columns : List ColumnMeta
  rows : List Row
  deriving DecidableEq, Repr

/-- `owner` is whose BEGIN opened the block, `none` for an implicit one. -/
structure Block where
  owner : Option Origin
  failed : Bool
  pending : List ℕ
  deriving DecidableEq, Repr

inductive Ending where
  | commit (who : Origin)
  | rollback (who : Origin)
  | auto
  | error
  | lost
  deriving DecidableEq, Repr

structure TxRecord where
  owner : Option Origin
  failed : Bool
  ending : Ending
  effects : List ℕ
  deriving DecidableEq, Repr

/-- COMMIT of an aborted block discards it. -/
def TxRecord.kept (r : TxRecord) : Bool :=
  match r.ending with
  | .commit _ | .auto => !r.failed
  | _ => false

structure Wire where
  up : Bool
  block : Option Block
  cursors : List Cursor
  nextEffect : ℕ
  history : List TxRecord
  deriving DecidableEq, Repr

namespace Wire

def fresh : Wire := ⟨true, none, [], 0, []⟩

def committed (w : Wire) : List ℕ := (w.history.filter (·.kept)).flatMap (·.effects)

def discarded (w : Wire) : List ℕ := (w.history.filter (! ·.kept)).flatMap (·.effects)

/-- End the open block. A commit keeps the holdable cursors, any other ending drops the
cursors the block declared. -/
def endBlock (w : Wire) (ending : Ending) : Wire :=
  match w.block with
  | none => w
  | some b =>
    let record : TxRecord := ⟨b.owner, b.failed, ending, b.pending⟩
    { w with
      block := none
      cursors :=
        if record.kept then (w.cursors.filter (·.hold)).map ({ · with fresh := false })
        else w.cursors.filter (! ·.fresh)
      history := record :: w.history }

def enter (w : Wire) : Wire :=
  match w.block with
  | none => { w with block := some ⟨none, false, []⟩ }
  | some _ => w

/-- An error rolls an implicit block back and aborts an explicit one. -/
def abort (w : Wire) : Wire :=
  match w.block with
  | none => w
  | some b =>
    match b.owner with
    | none => w.endBlock .error
    | some _ => { w with block := some { b with failed := true } }

/-- The end of a message commits an implicit block. -/
def finish (w : Wire) : Wire :=
  match w.block with
  | some ⟨none, _, _⟩ => w.endBlock .auto
  | _ => w

def lose (w : Wire) : Wire := { w.endBlock .lost with up := false, cursors := [] }

def record (w : Wire) (writes : Bool) : Wire :=
  match writes, w.block with
  | true, some b =>
    { w with
      block := some { b with pending := w.nextEffect :: b.pending }
      nextEffect := w.nextEffect + 1 }
  | _, _ => w

/-- BEGIN inside a block is a warning; in an implicit block it makes the block explicit. -/
def begin (w : Wire) (o : Origin) : Wire :=
  match w.block with
  | some ⟨none, failed, pending⟩ => { w with block := some ⟨some o, failed, pending⟩ }
  | _ => w

def resultMessages (columns : List ColumnMeta) (rows : List Row) (affected : ℕ) : List Message :=
  if columns.isEmpty then [.commandComplete affected]
  else .rowDescription (columns.map (·.name)) :: rows.map .row ++ [.commandComplete rows.length]

def findCursor (w : Wire) (name : Text) : Option Cursor := w.cursors.find? (·.name == name)

def stmtOpen (w : Wire) (o : Origin) (rows : List Row) (affected : ℕ) :
    Stmt → Except String (Wire × List Message)
  | .begin => .ok (w.begin o, [.commandComplete 0])
  | .commit => .ok ((w.endBlock (.commit o)).enter, [.commandComplete 0])
  | .rollback => .ok ((w.endBlock (.rollback o)).enter, [.commandComplete 0])
  | .declare name hold q =>
    if (w.findCursor name).isSome then .error "42P03"
    else
      let w' := w.record q.writes
      .ok ({ w' with cursors := ⟨name, o, hold, true, q.columns, rows⟩ :: w'.cursors },
        [.commandComplete 0])
  | .fetch count name =>
    match w.findCursor name with
    | none => .error "34000"
    | some c =>
      .ok ({ w with cursors := w.cursors.map fun d =>
              if d.name == name then { d with rows := d.rows.drop count } else d },
        resultMessages c.columns (c.rows.take count) 0)
  | .close name =>
    if (w.findCursor name).isSome then
      .ok ({ w with cursors := w.cursors.filter (·.name != name) }, [.commandComplete 0])
    else .error "34000"
  | .closeAll => .ok ({ w with cursors := [] }, [.commandComplete 0])
  | .query q => .ok (w.record q.writes, resultMessages q.columns rows affected)

/-- In an aborted block only COMMIT and ROLLBACK run, and both discard it. -/
def stmt (w : Wire) (o : Origin) (rows : List Row) (affected : ℕ) (st : Stmt) :
    Except String (Wire × List Message) :=
  match w.block with
  | some ⟨_, true, _⟩ =>
    if st.endsBlock then w.stmtOpen o rows affected st else .error "25P02"
  | _ => w.stmtOpen o rows affected st

def runOne (w : Wire) (o : Origin) (ch : Choice) (i : ℕ) (st : Stmt) :
    Wire × Except DriverError (List Message) :=
  if ch.fault = .lost i then (w.lose, .error .closed)
  else
    match ch.fault.codeAt i st, w.stmt o (ch.rows i) (ch.affected i) st with
    | some code, _ => (w.abort, .error (.server code))
    | none, .error code => (w.abort, .error (.server code))
    | none, .ok (w', msgs) => (w', .ok msgs)

/-- The statements of one message, in order; the first error ends it. -/
def runStmts (o : Origin) (ch : Choice) :
    Wire → ℕ → List Stmt → List Message → Wire × Except DriverError (List Message)
  | w, _, [], out => (w.finish, .ok out)
  | w, i, st :: rest, out =>
    match w.runOne o ch i st with
    | (w', .error e) => (w', .error e)
    | (w', .ok msgs) => runStmts o ch w' (i + 1) rest (out ++ msgs)

/-- What answers a message before its statements do: to an empty text the server sends
EmptyQueryResponse, which the driver hands on as the end of a command that counted 0. -/
def emptyResponse {S : Type} (sts : List S) : List Message :=
  if sts.isEmpty then [.commandComplete 0] else []

@[simp] theorem emptyResponse_cons {S : Type} (st : S) (sts : List S) :
    emptyResponse (st :: sts) = [] := rfl

/-- A simple-query message. A syntax error is found before any statement runs. -/
def simpleQuery (w : Wire) (o : Origin) (parsed : Option (List Stmt)) (ch : Choice) :
    Wire × Except DriverError (List Message) :=
  if w.up = false then (w, .error .closed)
  else
    match parsed with
    | none => (w.abort, .error (.server "42601"))
    | some sts => runStmts o ch w.enter 0 sts (emptyResponse sts)

/-- The result columns of a statement. Describe raises no error for a cursor that is missing. -/
def describe (w : Wire) : Stmt → List ColumnMeta
  | .query q => q.columns
  | .fetch _ name => ((w.findCursor name).map (·.columns)).getD []
  | _ => []

/-- Parse and Describe of the extended protocol, which takes one statement. -/
def prepare (w : Wire) (parsed : Option (List Stmt)) (ch : Choice) :
    Wire × Except DriverError (List ColumnMeta) :=
  if w.up = false then (w, .error .closed)
  else
    match ch.fault, parsed with
    | .lost 0, _ => (w.lose, .error .closed)
    | .error 0 code, _ => (w.abort, .error (.server code))
    | _, some [] => (w, .ok [])
    | _, some [st] =>
      if (w.block.any (·.failed)) && !st.endsBlock then (w, .error (.server "25P02"))
      else (w, .ok (w.describe st))
    | _, _ => (w.abort, .error (.server "42601"))

structure ExtendedReply where
  rows : List Row
  affected : ℕ
  unreadable : Option ℕ
  deriving DecidableEq, Repr

/-- A parameterised statement of the pool. The driver may refuse a parameter before the
server sees it run. -/
def extended (w : Wire) (q : Query) (ch : Choice) : Wire × Except DriverError ExtendedReply :=
  if w.up = false then (w, .error .closed)
  else if ch.fault = .client then (w, .error .client)
  else
    match w.enter.runOne .pool ch 0 (.query q) with
    | (w', .error e) => (w', .error e)
    | (w', .ok _) => (w'.finish, .ok ⟨ch.rows 0, ch.affected 0, ch.unreadable⟩)

end Wire

end SshCommander.PostgresWire
