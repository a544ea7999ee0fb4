import SshCommander.PooledConnection

/-!
# Cell edits by ctid

`edit.rs`: the SQL of `update_cell`, `insert_row` and `delete_rows`, the parameters bound to
it, and the checks that fail before anything is sent.
-/

namespace SshCommander.RowEditing
open InteractionPrograms RustText PostgresWire PooledConnection

structure UpdateOutcome where
  rowsAffected : ℕ
  deriving DecidableEq, Repr

structure InsertColumnInput where
  name : Text
  typeName : Text
  value : Option Text
  deriving DecidableEq, Repr

structure InsertedRow where
  cells : Row
  deriving DecidableEq, Repr

def quoteIdent (s : Text) : Text :=
  '"' :: s.flatMap (fun c => if c = '"' then ['"', '"'] else [c]) ++ ['"']

def typeChar (c : Char) : Bool :=
  ('a' ≤ c && c ≤ 'z') || ('A' ≤ c && c ≤ 'Z') || ('0' ≤ c && c ≤ '9') ||
    "_ \".,()[]".toList.contains c

/-- The quote loop: whether the text ends inside a quoted identifier. -/
def endsQuoted : Bool → Text → Bool
  | quoted, [] => quoted
  | true, '"' :: '"' :: rest => endsQuoted true rest
  | quoted, c :: rest => endsQuoted (if c = '"' then !quoted else quoted) rest

def validateTypeExpression (s : Text) : Except PgError Text :=
  let trimmed := trim s
  if trimmed.isEmpty then .error (.invalidInput "type expression is empty".toList)
  else if !trimmed.all typeChar then
    .error (.invalidInput ("unsupported type expression: ".toList ++ trimmed))
  else if endsQuoted false trimmed then
    .error (.invalidInput ("unterminated quoted type expression: ".toList ++ trimmed))
  else .ok trimmed

def joinComma : List Text → Text
  | [] => []
  | [t] => t
  | t :: ts => t ++ ", ".toList ++ joinComma ts

def qualify (schema table : Text) : Text := quoteIdent schema ++ ".".toList ++ quoteIdent table

/-- How the server takes an edit: it changes rows and is never a cursor. -/
def editQuery : Query := ⟨[], false, true⟩

def updateCell (schema table column columnType : Text) (newValue : Option Text) (ctid : Text) :
    Dialogue (Except PgError UpdateOutcome) := do
  let qualified := qualify schema table
  let col := quoteIdent column
  match newValue with
  | some value =>
    match validateTypeExpression columnType with
    | .error e => return .error e
    | .ok ty => do
      let sql := "UPDATE ".toList ++ qualified ++ " SET ".toList ++ col ++ " = $1::text::".toList ++
        ty ++ " WHERE ctid = $2::text::tid".toList
      match ← send (.extended sql [.text (some value), .text (some ctid)] editQuery) with
      | .error e => return .error (.driver e)
      | .ok reply => return .ok ⟨reply.affected⟩
  | none => do
    let sql := "UPDATE ".toList ++ qualified ++ " SET ".toList ++ col ++
      " = NULL WHERE ctid = $1::text::tid".toList
    match ← send (.extended sql [.text (some ctid)] editQuery) with
    | .error e => return .error (.driver e)
    | .ok reply => return .ok ⟨reply.affected⟩

/-- `inputs.iter().enumerate()` from index `idx`; the first bad type is the error. -/
def placeholders : ℕ → List InsertColumnInput → Except PgError (List Text)
  | _, [] => .ok []
  | idx, i :: rest =>
    match validateTypeExpression i.typeName with
    | .error e => .error e
    | .ok ty =>
      match placeholders (idx + 1) rest with
      | .error e => .error e
      | .ok ts => .ok (("$".toList ++ (toString (idx + 1)).toList ++ "::text::".toList ++ ty) :: ts)

def insertClauses (inputs : List InsertColumnInput) : Except PgError (Text × Text) :=
  if inputs.isEmpty then .ok ([], "DEFAULT VALUES".toList)
  else
    match placeholders 0 inputs with
    | .error e => .error e
    | .ok ts => .ok (" (".toList ++ joinComma (inputs.map (quoteIdent ·.name)) ++ ")".toList,
        "VALUES (".toList ++ joinComma ts ++ ")".toList)

def returningColumn (name : Text) : Text :=
  if name = "__pg_rowid__".toList then "ctid::text AS ".toList ++ quoteIdent name
  else quoteIdent name ++ "::text AS ".toList ++ quoteIdent name

def returningClause (returnColumns : List Text) : Text :=
  if returnColumns.isEmpty then "ctid::text AS \"__pg_rowid__\"".toList
  else joinComma (returnColumns.map returningColumn)

/-- `row.try_get(idx)` over the columns; the driver may be unable to read one. -/
def readCells (unreadable : Option ℕ) (row : Row) : Except PgError InsertedRow :=
  match unreadable with
  | some idx => if idx < row.length then .error (.driver .client) else .ok ⟨row⟩
  | none => .ok ⟨row⟩

def insertRow (schema table : Text) (inputs : List InsertColumnInput)
    (returnColumns : List Text) : Dialogue (Except PgError InsertedRow) := do
  match insertClauses inputs with
  | .error e => return .error e
  | .ok (columnClause, valuesClause) => do
    let sql := "INSERT INTO ".toList ++ qualify schema table ++ columnClause ++ " ".toList ++
      valuesClause ++ " RETURNING ".toList ++ returningClause returnColumns
    match ← send (.extended sql (inputs.map (.text ·.value)) editQuery) with
    | .error e => return .error (.driver e)
    | .ok reply =>
      match reply.rows with
      | [] => return .error (.connect "INSERT returned no row".toList)
      | row :: _ => return readCells reply.unreadable row

def deleteRows (schema table : Text) (ctids : List Text) :
    Dialogue (Except PgError UpdateOutcome) := do
  if ctids.isEmpty then return .ok ⟨0⟩
  else do
    let sql := "DELETE FROM ".toList ++ qualify schema table ++
      " WHERE ctid = ANY($1::text[]::tid[])".toList
    match ← send (.extended sql [.texts ctids] editQuery) with
    | .error e => return .error (.driver e)
    | .ok reply => return .ok ⟨reply.affected⟩

end SshCommander.RowEditing
