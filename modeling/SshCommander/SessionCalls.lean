import SshCommander.QueryExecution
import SshCommander.RowEditing

/-!
# The calls of one session on its leased connection

The part of `PgPool`'s methods that runs under the connection's `operation_lock`. Calls on
one connection never overlap, so a session's history on it is a list of calls.
-/

namespace SshCommander.SessionCalls
open InteractionPrograms RustText SqlStatementSplit PostgresWire PooledConnection QueryExecution
  RowEditing

/-- The active cursor is taken before the query and stored again only when it succeeds. -/
def execute (sql : Sql) (pageSize : ℕ) (uuid : Text) :
    Dialogue (Except PgError ExecutionOutcome) := do
  let previous ← ask .takeCursor
  match ← openQuery sql pageSize previous uuid with
  | .error e => return .error e
  | .ok (outcome, newCursor) => do
    let _ ← ask (.setCursor newCursor)
    return .ok outcome

def fetchPageOf (sessionId cursorId : Text) (count : ℕ) :
    Dialogue (Except PgError PageResult) := do
  match ← ask .readCursor with
  | none =>
    return .error (.cursorExpired
      ("session ".toList ++ sessionId ++ " has no active cursor".toList))
  | some cursor =>
    if cursor.cursorId = cursorId then fetchPage cursor count
    else
      return .error (.cursorExpired ("session ".toList ++ sessionId ++
        " active cursor is ".toList ++ cursor.cursorId ++ " (looking for ".toList ++ cursorId ++
        ")".toList))

def closeQueryOf (cursorId : Text) : Dialogue Unit := do
  match ← ask (.takeCursorIf cursorId) with
  | some cursor => closeQuery cursor
  | none => return ()

/-- What `release_session` does between taking the lease and returning the connection. -/
def releaseCleanup : Dialogue Unit := do
  match ← ask .takeCursor with
  | some cursor => closeQuery cursor
  | none => return ()

inductive Call where
  | execute (sql : Sql) (pageSize : ℕ) (uuid : Text)
  | fetchPage (sessionId cursorId : Text) (count : ℕ)
  | closeQuery (cursorId : Text)
  | updateCell (schema table column columnType : Text) (newValue : Option Text) (ctid : Text)
  | insertRow (schema table : Text) (inputs : List InsertColumnInput) (returnColumns : List Text)
  | deleteRows (schema table : Text) (ctids : List Text)

inductive CallValue where
  | outcome (o : ExecutionOutcome)
  | page (p : PageResult)
  | closed
  | updated (u : UpdateOutcome)
  | inserted (r : InsertedRow)
  deriving DecidableEq, Repr

abbrev CallResult := Except PgError CallValue

def Call.isEdit : Call → Bool
  | .updateCell .. | .insertRow .. | .deleteRows .. => true
  | _ => false

def answering {α : Type} (f : α → CallValue) (p : Dialogue (Except PgError α)) :
    Dialogue CallResult := do
  match ← p with
  | .error e => return .error e
  | .ok a => return .ok (f a)

def Call.prog : Call → Dialogue CallResult
  | .execute sql pageSize uuid => answering .outcome (SessionCalls.execute sql pageSize uuid)
  | .fetchPage sessionId cursorId count => answering .page (fetchPageOf sessionId cursorId count)
  | .closeQuery cursorId => do
    let _ ← closeQueryOf cursorId
    return .ok .closed
  | .updateCell schema table column columnType newValue ctid =>
    answering .updated (RowEditing.updateCell schema table column columnType newValue ctid)
  | .insertRow schema table inputs returnColumns =>
    answering .inserted (RowEditing.insertRow schema table inputs returnColumns)
  | .deleteRows schema table ctids => answering .updated (RowEditing.deleteRows schema table ctids)

/-- An edit is refused before anything is sent, or is one statement: an error of that is the
call's, and after a good reply only the reading of a cell can still fail in the driver. -/
inductive EditForm : Dialogue CallResult → Prop where
  | refused (r : CallResult) (h : ∀ e, r ≠ .error (.driver e)) : EditForm (.ret r)
  | sent (sql : Text) (params : List Param)
      (f : Except DriverError Wire.ExtendedReply → Dialogue CallResult)
      (k : Wire.ExtendedReply → CallResult)
      (herr : ∀ e, f (.error e) = .ret (.error (.driver e)))
      (hok : ∀ reply, f (.ok reply) = .ret (k reply))
      (hclient : ∀ reply e, k reply = .error (.driver e) → e = .client) :
      EditForm (.ask (.send (.extended sql params editQuery)) f)

theorem validateTypeExpression_error {s : Text} {err : PgError}
    (h : validateTypeExpression s = .error err) (e : DriverError) : err ≠ .driver e := by
  unfold validateTypeExpression at h
  dsimp only at h
  split at h
  · cases h; simp
  · split at h
    · cases h; simp
    · split at h
      · cases h; simp
      · cases h

theorem placeholders_error {inputs : List InsertColumnInput} {idx : ℕ} {err : PgError}
    (h : placeholders idx inputs = .error err) (e : DriverError) : err ≠ .driver e := by
  induction inputs generalizing idx with
  | nil => cases h
  | cons i rest ih =>
    simp only [placeholders] at h
    split at h
    · rename_i err' hv
      cases h
      exact validateTypeExpression_error hv e
    · split at h
      · rename_i err' hp
        cases h
        exact ih hp
      · cases h

theorem insertClauses_error {inputs : List InsertColumnInput} {err : PgError}
    (h : insertClauses inputs = .error err) (e : DriverError) : err ≠ .driver e := by
  unfold insertClauses at h
  split at h
  · cases h
  · split at h
    · rename_i err' hp
      cases h
      exact placeholders_error hp e
    · cases h

theorem readCells_error {unreadable : Option ℕ} {row : Row} {e : DriverError}
    (h : readCells unreadable row = .error (.driver e)) : e = .client := by
  unfold readCells at h
  split at h
  · split at h <;> cases h
    rfl
  · cases h

theorem Call.edit_form {c : Call} (h : c.isEdit = true) : EditForm c.prog := by
  cases c with
  | execute | fetchPage | closeQuery => cases h
  | updateCell schema table column columnType newValue ctid =>
    cases newValue with
    | none =>
      exact .sent _ _ _ (fun reply => .ok (.updated ⟨reply.affected⟩)) (fun _ => rfl)
        (fun _ => rfl) (by simp)
    | some value =>
      simp only [Call.prog, RowEditing.updateCell]
      split
      · rename_i err hv
        refine .refused (.error err) fun e he => ?_
        exact validateTypeExpression_error hv e (Except.error.inj he)
      · exact .sent _ _ _ (fun reply => .ok (.updated ⟨reply.affected⟩)) (fun _ => rfl)
          (fun _ => rfl) (by simp)
  | insertRow schema table inputs returnColumns =>
    simp only [Call.prog, RowEditing.insertRow]
    split
    · rename_i err hv
      refine .refused (.error err) fun e he => ?_
      exact insertClauses_error hv e (Except.error.inj he)
    · refine .sent _ _ _ (fun reply => reply.rows.head?.elim
        (.error (.connect "INSERT returned no row".toList))
        fun row => (readCells reply.unreadable row).map .inserted) (fun _ => rfl) ?_ ?_
      · intro reply
        obtain ⟨rows, affected, unreadable⟩ := reply
        cases rows with
        | nil => rfl
        | cons row rest =>
          dsimp only [Prog.bind, Prog.pure_def]
          cases hr : readCells unreadable row <;> simp [hr, Except.map]
      · intro reply e he
        obtain ⟨rows, affected, unreadable⟩ := reply
        cases rows with
        | nil => cases he
        | cons row rest =>
          cases hr : readCells unreadable row with
          | error err =>
            simp only [List.head?_cons, Option.elim_some, hr, Except.map] at he
            obtain rfl := Except.error.inj he
            exact readCells_error hr
          | ok r => simp [hr, Except.map] at he
  | deleteRows schema table ctids =>
    simp only [Call.prog, RowEditing.deleteRows]
    split
    · exact .refused _ (by simp)
    · exact .sent _ _ _ (fun reply => .ok (.updated ⟨reply.affected⟩)) (fun _ => rfl)
        (fun _ => rfl) (by simp)

abbrev IssuedCall := Issued Call Choice

abbrev afterCalls (g : Grammar) (conn : Conn) (xs : List IssuedCall) : Conn :=
  afterAll (Conn.serve g) Call.prog conn xs

abbrev afterCall (g : Grammar) (conn : Conn) (x : IssuedCall) : Conn :=
  after (Conn.serve g) Call.prog conn x

abbrev callTrace (g : Grammar) (conn : Conn) (x : IssuedCall) :
    List (Exchange Conn Request Choice) :=
  traceOf (Conn.serve g) Call.prog conn x

def selectOne : Sql := "SELECT 1".toList

def smallServer : Grammar := .ofTexts
  [(selectOne, [.query ⟨[⟨"c".toList, 25, "text".toList⟩], true, false⟩]),
    ("INSERT".toList, [.query ⟨[], false, true⟩]),
    ("BEGIN".toList, [.begin]), ("COMMIT".toList, [.commit]), ("ROLLBACK".toList, [.rollback])]

/-- Every result is `rows`, and nothing goes wrong but `fault` at request `i`. -/
def faultAt (rows : List Row) (i : ℕ) (fault : Fault) (n : ℕ) : Choice :=
  { Choice.quiet with rows := fun _ => rows, fault := if n = i then fault else .none }

def querying (sql : Sql) (env : ℕ → Choice) : IssuedCall := ⟨.execute sql 1 "u".toList, env⟩

end SshCommander.SessionCalls
