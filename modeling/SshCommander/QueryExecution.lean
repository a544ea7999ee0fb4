import SshCommander.PooledConnection

/-!
# Query execution with server-side cursors

`exec.rs`: `open_query`, `run_multi_statement`, `fetch_page`, `close_query` and
`collect_rows`. `open_query` is cut where its comments cut it, into the clean-up of the
previous cursor, the routing of a script, and the path of a single statement.
-/

namespace SshCommander.QueryExecution
open InteractionPrograms RustText SqlStatementSplit PostgresWire PooledConnection

structure ExecutionOutcome where
  columns : List ColumnMeta
  rows : List Row
  rowsAffected : Option ℕ
  cursorId : Option Text
  deriving DecidableEq, Repr

structure PageResult where
  rows : List Row
  hasMore : Bool
  deriving DecidableEq, Repr

/-- `for idx in 0..width { row.get(idx) }`. -/
def cellsOf (width : ℕ) (row : Row) : Row := (List.range width).map fun idx => row.getD idx none

/-- The accumulators of `collect_rows`: the rows so far and the last count. -/
def collectRow (width : ℕ) (acc : List Row × ℕ) : Message → List Row × ℕ
  | .row cells => (acc.1 ++ [cellsOf width cells], acc.2)
  | .commandComplete n => (acc.1, n)
  | _ => acc

def collectRows (stream : List Message) (width : ℕ) : List Row × ℕ :=
  stream.foldl (collectRow width) ([], 0)

structure BulkState where
  currentColumns : List ColumnMeta
  currentRows : List Row
  lastCommandComplete : Option ℕ

/-- A row description starts a new result and drops the one before; rows past `page_size`
are drained and ignored. -/
def bulkStep (pageSize : ℕ) (st : BulkState) : Message → BulkState
  | .rowDescription names => ⟨names.map fun n => ⟨n, 0, []⟩, [], st.lastCommandComplete⟩
  | .row cells =>
    if pageSize ≤ st.currentRows.length then st
    else { st with currentRows := st.currentRows ++ [cellsOf st.currentColumns.length cells] }
  | .commandComplete n => { st with lastCommandComplete := some n }
  | .other => st

def bulkOutcome (stream : List Message) (pageSize : ℕ) : ExecutionOutcome :=
  let st := stream.foldl (bulkStep pageSize) ⟨[], [], none⟩
  ⟨st.currentColumns, st.currentRows, st.lastCommandComplete, none⟩

def runMultiStatement (sql : Sql) (pageSize : ℕ) : Dialogue (Except PgError ExecutionOutcome) := do
  match ← send (.simpleQuery sql) with
  | .error e => return .error (.driver e)
  | .ok stream => return .ok (bulkOutcome stream pageSize)

/-- The first `CommandComplete` of the stream. -/
def rowsAffectedOf (stream : List Message) : Option ℕ :=
  stream.findSome? fun
    | .commandComplete n => some n
    | _ => none

abbrev Opened := Except PgError (ExecutionOutcome × Option ActiveCursor)

/-- Best-effort cleanup of the cursor a new query supersedes. -/
def closePrevious : Option ActiveCursor → Dialogue Unit
  | none => return ()
  | some prev => do
    match ← send (.closeCommit prev.cursorId .superseded) with
    | .ok _ => return ()
    | .error _ => do
      let _ ← send .rollback
      return ()

/-- The first page, once the cursor is declared. A page that is not full closes the cursor at
once; the result of that `CLOSE; COMMIT` is discarded. -/
def fetchFirstPage (columns : List ColumnMeta) (cursorId : Text) (pageSize : ℕ) :
    Dialogue Opened := do
  match ← send (.fetchForward pageSize cursorId) with
  | .error e => do
    let _ ← send .rollback
    return .error (.driver e)
  | .ok stream =>
    let page := collectRows stream columns.length
    if page.2 < pageSize then do
      let _ ← send (.closeCommit cursorId .exhausted)
      return .ok (⟨columns, page.1, some page.2, none⟩, none)
    else
      return .ok (⟨columns, page.1, some page.2, some cursorId⟩,
        some ⟨cursorId, columns.length⟩)

/-- Declare the cursor in a transaction of the pool's own. A statement that cannot be a cursor
fails with 42601 and runs again directly. -/
def openCursor (sql : Sql) (columns : List ColumnMeta) (cursorId : Text) (pageSize : ℕ) :
    Dialogue Opened := do
  match ← send (.beginDeclare cursorId sql) with
  | .ok _ => fetchFirstPage columns cursorId pageSize
  | .error e => do
    let _ ← send .rollback
    if e = .server "42601" then do
      match ← runMultiStatement sql pageSize with
      | .error err => return .error err
      | .ok outcome => return .ok (outcome, none)
    else return .error (.driver e)

/-- A single statement: directly when it has no result columns, else through a cursor. -/
def openStatement (sql : Sql) (pageSize : ℕ) (uuid : Text) : Dialogue Opened := do
  match ← send (.prepare sql) with
  | .error e => return .error (.driver e)
  | .ok columns =>
    if columns.isEmpty then do
      match ← send (.simpleQuery sql) with
      | .error e => return .error (.driver e)
      | .ok stream => return .ok (⟨[], [], rowsAffectedOf stream, none⟩, none)
    else openCursor sql columns ("c_".toList ++ uuid) pageSize

/-- `open_query` after the previous cursor's cleanup. The recursion on the main statement
passes `previous = None`; its fuel is the length of the text, which every split shortens. -/
def openScript (pageSize : ℕ) (uuid : Text) : ℕ → Sql → Dialogue Opened
  | 0, _ => return .error .panicked
  | fuel + 1, sql =>
    match isMultiStatement sql with
    | none => return .error .panicked
    | some false => openStatement sql pageSize uuid
    | some true =>
      match splitAtLastStatement sql with
      | none => return .error .panicked
      | some (some (preamble, main)) => do
        match ← send (.batchExecute preamble) with
        | .error e => return .error (.driver e)
        | .ok _ => openScript pageSize uuid fuel main
      | some none => do
        match ← runMultiStatement sql pageSize with
        | .error e => return .error e
        | .ok outcome => return .ok (outcome, none)

def openQuery (sql : Sql) (pageSize : ℕ) (previous : Option ActiveCursor) (uuid : Text) :
    Dialogue Opened := do
  closePrevious previous
  openScript pageSize uuid (sql.length + 1) sql

def fetchPage (cursor : ActiveCursor) (count : ℕ) : Dialogue (Except PgError PageResult) := do
  match ← send (.fetchForward count cursor.cursorId) with
  | .error e => return .error (.driver e)
  | .ok stream =>
    let page := collectRows stream cursor.columnCount
    return .ok ⟨page.1, page.2 == count⟩

def closeQuery (cursor : ActiveCursor) : Dialogue Unit := do
  match ← send (.closeCommit cursor.cursorId .requested) with
  | .ok _ => return ()
  | .error _ => do
    let _ ← send .rollback
    return ()

/-- More fuel than characters never runs out: the recursion is on shorter text. -/
theorem openScript_fuel (pageSize : ℕ) (uuid : Text) {sql : Sql} {n m : ℕ}
    (hn : sql.length < n) (hm : sql.length < m) :
    openScript pageSize uuid n sql = openScript pageSize uuid m sql := by
  induction n generalizing sql m with
  | zero => omega
  | succ n ih =>
    cases m with
    | zero => omega
    | succ m =>
      simp only [openScript]
      split
      · rfl
      · rfl
      · split
        · rfl
        · rename_i preamble main hs
          have hlen := splitAtLastStatement_length hs
          rw [ih (by omega : main.length < n) (by omega : main.length < m)]
        · rfl

/-- The main statement of a split is run as a single one. -/
theorem openScript_main {sql pre main : Sql} (h : splitAtLastStatement sql = some (some (pre, main)))
    (pageSize : ℕ) (uuid : Text) :
    openScript pageSize uuid sql.length main = openStatement main pageSize uuid := by
  obtain ⟨-, -, -, -, -, -, -, -, -, hsingle⟩ := splitAtLastStatement_cases h
  have hlen := splitAtLastStatement_length h
  obtain ⟨fuel, hfuel⟩ : ∃ k, sql.length = k + 1 := ⟨sql.length - 1, by omega⟩
  rw [hfuel]
  simp only [openScript, hsingle]

end SshCommander.QueryExecution
