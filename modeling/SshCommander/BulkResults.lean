import SshCommander.QueryExecution

/-!
# The result of the bulk path

One pass over the stream of a script keeps the last result set, up to the page size, and the last
count.
-/

namespace SshCommander.BulkResults
open InteractionPrograms RustText SqlStatementSplit PostgresWire PooledConnection QueryExecution

structure ResultSet where
  columns : List Text
  rows : List Row
  width : ∀ row ∈ rows, row.length = columns.length

inductive StatementResult where
  | returned (set : ResultSet) (count : ℕ)
  | completed (count : ℕ)

namespace StatementResult

def messages : StatementResult → List Message
  | .returned set count =>
    .rowDescription set.columns :: (set.rows.map .row ++ [.commandComplete count])
  | .completed count => [.commandComplete count]

def count : StatementResult → ℕ
  | .returned _ count | .completed count => count

def set? : StatementResult → Option ResultSet
  | .returned set _ => some set
  | .completed _ => none

end StatementResult

/-- The result of the last statement that returned rows. -/
def lastSet (results : List StatementResult) : Option ResultSet :=
  (results.filterMap StatementResult.set?).getLast?

/-- The outcome shows the last result set, its first rows up to the page size, and the last
count. -/
structure ShowsLast (results : List StatementResult) (pageSize : ℕ) (out : ExecutionOutcome) :
    Prop where
  columns : out.columns = ((lastSet results).elim [] (·.columns)).map fun name => ⟨name, 0, []⟩
  rows : out.rows = ((lastSet results).elim [] (·.rows)).take pageSize
  width : ∀ row ∈ out.rows, row.length = out.columns.length
  affected : out.rowsAffected = results.getLast?.map (·.count)
  cursor : out.cursorId = none

variable {pageSize : ℕ} {columns : List ColumnMeta} {last : Option ℕ}

/-- A row with a cell for every column is kept as it is. -/
theorem cellsOf_length (row : Row) : cellsOf row.length row = row := by
  apply List.ext_getElem
  · simp [cellsOf]
  · intro i h h'
    simp [cellsOf, h']

/-- Rows are added up to the page size and drained from there. -/
theorem foldl_rows (rows acc : List Row) (hrows : ∀ row ∈ rows, row.length = columns.length)
    (hacc : acc.length ≤ pageSize) :
    (rows.map Message.row).foldl (bulkStep pageSize) ⟨columns, acc, last⟩ =
      ⟨columns, (acc ++ rows).take pageSize, last⟩ := by
  induction rows generalizing acc with
  | nil => simp [List.take_of_length_le hacc]
  | cons row rows ih =>
    have hrest := fun row hrow => hrows row (List.mem_cons_of_mem _ hrow)
    have hcells : cellsOf columns.length row = row := by
      rw [← hrows row List.mem_cons_self, cellsOf_length]
    rw [List.map_cons, List.foldl_cons, bulkStep]
    split
    · rename_i hfull
      rw [ih acc hrest hacc, List.take_append_of_le_length hfull,
        List.take_append_of_le_length hfull]
    · rename_i hroom
      have hlen : (acc ++ [row]).length ≤ pageSize := by
        rw [List.length_append, List.length_singleton]
        exact Nat.lt_of_not_le hroom
      rw [hcells, ih (acc ++ [row]) hrest hlen, List.append_assoc]
      rfl

/-- A result set takes the place of all that was kept; a count leaves it. -/
theorem foldl_messages (result : StatementResult) (st : BulkState) :
    result.messages.foldl (bulkStep pageSize) st =
      match result.set? with
      | some set => ⟨set.columns.map fun name => ⟨name, 0, []⟩, set.rows.take pageSize,
          some result.count⟩
      | none => { st with lastCommandComplete := some result.count } := by
  cases result with
  | completed count => rfl
  | returned set count =>
    have hwidth : ∀ row ∈ set.rows,
        row.length = (set.columns.map fun name => (⟨name, 0, []⟩ : ColumnMeta)).length := by
      simpa using set.width
    rw [StatementResult.messages, List.foldl_cons, List.foldl_append, bulkStep,
      foldl_rows set.rows [] hwidth (Nat.zero_le _)]
    rfl

theorem lastSet_append (results : List StatementResult) (result : StatementResult) :
    lastSet (results ++ [result]) = result.set?.or (lastSet results) := by
  cases h : result.set? with
  | none => simp [lastSet, h]
  | some set => simp [lastSet, h]

/-- What the pass keeps after the results of a script. -/
theorem foldl_results (results : List StatementResult) :
    (results.flatMap StatementResult.messages).foldl (bulkStep pageSize) ⟨[], [], none⟩ =
      ⟨((lastSet results).elim [] (·.columns)).map fun name => ⟨name, 0, []⟩,
        ((lastSet results).elim [] (·.rows)).take pageSize, results.getLast?.map (·.count)⟩ := by
  induction results using List.reverseRecOn with
  | nil => simp [lastSet]
  | append_singleton results result ih =>
    rw [List.flatMap_append, List.foldl_append, ih, List.flatMap_singleton, foldl_messages,
      lastSet_append, List.getLast?_concat]
    cases result.set? with
    | none => rfl
    | some set => rfl

theorem bulkOutcome_showsLast (results : List StatementResult) (pageSize : ℕ) :
    ShowsLast results pageSize
      (bulkOutcome (results.flatMap StatementResult.messages) pageSize) := by
  rw [bulkOutcome, foldl_results]
  refine ⟨rfl, rfl, fun row hrow => ?_, rfl, rfl⟩
  have hmem := List.mem_of_mem_take hrow
  cases hlast : lastSet results with
  | none => rw [hlast] at hmem; cases hmem
  | some set =>
    rw [hlast] at hmem
    simpa using set.width row hmem

variable {S E : Type} {serve : S → (q : Request) → E → S × Reply q} {s : S} {env : ℕ → E}
  {sql : Sql} {results : List StatementResult}

/-- The bulk path shows the last result set of the stream that the server sends. -/
theorem runMultiStatement_showsLast (pageSize : ℕ)
    (h : (serve s (.send (.simpleQuery sql)) (env 0)).2 =
      .ok (results.flatMap StatementResult.messages)) :
    ∃ out, (exec serve (runMultiStatement sql pageSize) s env).value = .ok out ∧
      ShowsLast results pageSize out := by
  refine ⟨_, ?_, bulkOutcome_showsLast results pageSize⟩
  simp only [runMultiStatement, send, Prog.request_bind, exec, h]
  rfl

def selectThenSet : Grammar :=
  .ofTexts [("SELECT 1; SET x = 1".toList,
    [.query ⟨[⟨['n'], 23, "int4".toList⟩], true, false⟩, .query ⟨[], false, true⟩])]

def twoRows : Choice := ⟨.none, fun _ => [[some ['1']], [none]], fun _ => 7, none⟩

theorem runMultiStatement_showsLast_two :
    ∃ out, (exec (Conn.serve selectThenSet)
        (runMultiStatement "SELECT 1; SET x = 1".toList 1) .fresh fun _ => twoRows).value =
          .ok out ∧
      ShowsLast [.returned ⟨[['n']], [[some ['1']], [none]], by decide⟩ 2, .completed 7] 1 out :=
  runMultiStatement_showsLast 1 (by decide +kernel)

end SshCommander.BulkResults
