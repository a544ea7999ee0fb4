import SshCommander.RustText

/-!
# Rows into columns

An exporter turns each page of rows into one array for each column and hands the batch to its
writer. Arrays, batches and writers belong to the Parquet library, which is a parameter. A writer
puts its bytes into the file that its path names, where others may write too.
-/

namespace SshCommander.ParquetBatches
open RustText

/-- A row as the server's text, `none` for NULL. -/
abbrev Row := List (Option Text)

structure Field where
  name : Text
  nullable : Bool
  deriving DecidableEq, Repr

inductive ParquetExportError where
  | io (e : Text)
  | arrow (e : Text)
  | parquet (e : Text)
  | unknownWriter
  deriving DecidableEq, Repr

/-- How a call ends, and what it was made on as it leaves it. -/
inductive Outcome (E W : Type) where
  | ok (w : W)
  | failed (e : E) (w : W)
  | panicked (w : W)
  deriving DecidableEq, Repr

namespace Outcome

variable {E W : Type}

def left : Outcome E W → W
  | ok w | failed _ w | panicked w => w

/-- What the caller gets; `none` where it panics. -/
def answer : Outcome E W → Option (Except E Unit)
  | ok _ => some (.ok ())
  | failed e _ => some (.error e)
  | panicked _ => none

theorem eq_ok {o : Outcome E W} (h : o.answer = some (.ok ())) : o = ok o.left := by
  cases o with
  | ok w => rfl
  | failed e w => cases h
  | panicked w => cases h

end Outcome

/-- What is used of the libraries and the file system. `Io` is what the environment does, `node` the
file that a path names. An array is `none` where its bytes do not fit the offsets, which is a panic.
What a writer does comes with the bytes it puts out. -/
structure Arrow where
  Io : Type
  Byte : Type
  zero : Byte
  Array : Type
  Batch : Type
  Writer : Type
  node : Text → ℕ
  createFile : Io → Text → Except Text Unit
  tryNewWriter : List Field → Except Text Writer × List Byte
  stringArray : List (Option Text) → Option Array
  tryNewBatch : List Field → List Array → Except Text Batch
  write : Io → Writer → Batch → Outcome Text Writer × List Byte
  close : Io → Writer → Except Text Unit × List Byte

abbrev Disk (P : Arrow) := ℕ → List P.Byte

variable {P : Arrow}

/-- A write at an offset. A gap before it reads as zeros. -/
def writeAt (file : List P.Byte) (offset : ℕ) (bytes : List P.Byte) : List P.Byte :=
  file.take offset ++ List.replicate (offset - file.length) P.zero ++ bytes ++
    file.drop (offset + bytes.length)

theorem writeAt_end (file bytes : List P.Byte) :
    writeAt file file.length bytes = file ++ bytes := by
  have hpast : file.length ≤ file.length + bytes.length := Nat.le_add_right _ _
  rw [writeAt, List.take_length, Nat.sub_self, List.replicate_zero, List.append_nil,
    List.drop_eq_nil_of_le hpast, List.append_nil]

/-- The writer has the file at `node` open, and what it has put out so far is `sent`. -/
structure ParquetExporter (P : Arrow) where
  writer : P.Writer
  node : ℕ
  sent : List P.Byte
  schema : List Field
  columnCount : ℕ
  counted : columnCount = schema.length

def fieldsOf (columns : List Text) : List Field := columns.map fun name => ⟨name, true⟩

def create (P : Arrow) (io : P.Io) (path : Text) (columns : List Text) :
    Except ParquetExportError (ParquetExporter P) :=
  match P.createFile io path with
  | .error e => .error (.io e)
  | .ok () =>
    match P.tryNewWriter (fieldsOf columns) with
    | (.error e, _) => .error (.parquet e)
    | (.ok writer, bytes) =>
      .ok ⟨writer, P.node path, bytes, fieldsOf columns, columns.length, by simp [fieldsOf]⟩

/-- `File::create` empties a file that is there, also one that another writer has open. -/
def createdDisk (P : Arrow) (io : P.Io) (path : Text) (columns : List Text) (disk : Disk P) :
    Disk P :=
  match P.createFile io path with
  | .error _ => disk
  | .ok () => Function.update disk (P.node path) (P.tryNewWriter (fieldsOf columns)).2

namespace ParquetExporter

def wrote (x : ParquetExporter P) (writer : P.Writer) (bytes : List P.Byte) : ParquetExporter P :=
  { x with writer, sent := x.sent ++ bytes }

def put (x : ParquetExporter P) (bytes : List P.Byte) (disk : Disk P) : Disk P :=
  Function.update disk x.node (writeAt (disk x.node) x.sent.length bytes)

end ParquetExporter

/-- The values of a column; a row that is too short has a NULL there. -/
def columnValues (rows : List Row) (colIdx : ℕ) : List (Option Text) :=
  rows.map fun row => row[colIdx]?.join

def appendRows (io : P.Io) (x : ParquetExporter P) (rows : List Row) :
    Outcome ParquetExportError (ParquetExporter P) :=
  if rows.isEmpty then .ok x
  else match (List.range x.columnCount).mapM fun i => P.stringArray (columnValues rows i) with
    | none => .panicked x
    | some columns =>
      match P.tryNewBatch x.schema columns with
      | .error e => .failed (.arrow e) x
      | .ok batch =>
        match P.write io x.writer batch with
        | (.ok writer, bytes) => .ok (x.wrote writer bytes)
        | (.failed e writer, bytes) => .failed (.parquet e) (x.wrote writer bytes)
        | (.panicked writer, bytes) => .panicked (x.wrote writer bytes)

def ParquetExporter.close (io : P.Io) (x : ParquetExporter P) :
    Except ParquetExportError Unit × List P.Byte :=
  ((P.close io x.writer).1.mapError .parquet, (P.close io x.writer).2)

/-- An exporter stays with its file, and adds to what it has put out. -/
theorem appendRows_sent (io : P.Io) (x : ParquetExporter P) (rows : List Row) :
    (appendRows io x rows).left.node = x.node ∧
      ∃ bytes, (appendRows io x rows).left.sent = x.sent ++ bytes := by
  have hsame : x.node = x.node ∧ ∃ bytes, x.sent = x.sent ++ bytes :=
    ⟨rfl, [], (List.append_nil _).symm⟩
  unfold appendRows
  split
  · exact hsame
  · split
    · exact hsame
    · split
      · exact hsame
      · split <;> exact ⟨rfl, _, rfl⟩

structure Table where
  header : List Text
  rows : List Row
  deriving DecidableEq, Repr

def tableRows : List (List (Option Text)) → List Row
  | [] => []
  | first :: rest =>
    (List.range first.length).map fun j => (first :: rest).map fun column => column[j]?.join

/-- A row of `n` columns: what is missing is NULL, what is over is dropped. -/
def fitted (n : ℕ) (row : Row) : Row := (List.range n).map fun i => row[i]?.join

/-- What the libraries promise: arrays and batches hold what they were made of, a write that
succeeds appends the rows of its batch, and the bytes of a writer that was closed, all of them in
order, read back as what was written. -/
structure Reader (P : Arrow) where
  values : P.Array → List (Option Text)
  columns : P.Batch → List (List (Option Text))
  content : P.Writer → Table
  sent : P.Writer → List P.Byte
  read : List P.Byte → Option Table
  stringArray : ∀ vs a, P.stringArray vs = some a → values a = vs
  tryNewBatch : ∀ schema arrays b, P.tryNewBatch schema arrays = .ok b →
    arrays ≠ [] ∧ columns b = arrays.map values
  tryNewWriter : ∀ schema w bytes, P.tryNewWriter schema = (.ok w, bytes) →
    content w = ⟨schema.map (·.name), []⟩ ∧ sent w = bytes
  write : ∀ io w b w' bytes, P.write io w b = (.ok w', bytes) →
    content w' = { content w with rows := (content w).rows ++ tableRows (columns b) } ∧
      sent w' = sent w ++ bytes
  close : ∀ io w bytes, P.close io w = (.ok (), bytes) → read (sent w ++ bytes) = some (content w)

def Reader.Tells (r : Reader P) (x : ParquetExporter P) : Prop := x.sent = r.sent x.writer

theorem getElem?_columnValues (rows : List Row) (i j : ℕ) :
    (columnValues rows i)[j]?.join = (rows[j]?.bind fun row => row[i]?.join) := by
  rw [columnValues, List.getElem?_map]
  cases rows[j]? with
  | none => rfl
  | some row => rfl

/-- The columns of the rows, read as rows again. -/
theorem tableRows_columns {n : ℕ} (hn : n ≠ 0) (rows : List Row) :
    tableRows ((List.range n).map (columnValues rows)) = rows.map (fitted n) := by
  obtain ⟨m, rfl⟩ := Nat.exists_eq_succ_of_ne_zero hn
  have hcols : (List.range (m + 1)).map (columnValues rows) =
      columnValues rows 0 :: (List.range m).map fun i => columnValues rows (i + 1) := by
    rw [List.range_succ_eq_map, List.map_cons, List.map_map]
    rfl
  have hlen : (columnValues rows 0).length = rows.length := by simp [columnValues]
  rw [hcols, tableRows, hlen, ← hcols]
  apply List.ext_getElem
  · simp
  · intro j hj hj'
    have hlt : j < rows.length := by simpa using hj'
    have hrow : rows[j]? = some rows[j] := List.getElem?_eq_getElem hlt
    simp only [List.getElem_map, List.getElem_range, List.map_map, fitted]
    apply List.map_congr_left
    intro i hi
    rw [Function.comp_apply, getElem?_columnValues, hrow]
    rfl

theorem values_arrays (r : Reader P) {vss : List (List (Option Text))} {arrays : List P.Array}
    (h : vss.mapM P.stringArray = some arrays) : arrays.map r.values = vss := by
  induction vss generalizing arrays with
  | nil =>
    rw [List.mapM_nil] at h
    cases h
    rfl
  | cons vs vss ih =>
    rw [List.mapM_cons] at h
    obtain ⟨a, ha, h⟩ := Option.bind_eq_some_iff.mp h
    obtain ⟨as, has, h⟩ := Option.bind_eq_some_iff.mp h
    cases h
    rw [List.map_cons, ih has, r.stringArray vs a ha]

theorem create_ok {io : P.Io} {path : Text} {columns : List Text} {x : ParquetExporter P}
    (r : Reader P) (h : create P io path columns = .ok x) :
    x.schema.length = columns.length ∧ r.content x.writer = ⟨columns, []⟩ ∧ r.Tells x := by
  rw [create] at h
  split at h
  · cases h
  · split at h
    · cases h
    · rename_i writer bytes hwriter
      cases h
      obtain ⟨hcontent, hsent⟩ := r.tryNewWriter _ _ _ hwriter
      refine ⟨List.length_map _, hcontent.trans ?_, hsent.symm⟩
      simp [fieldsOf, Function.comp_def]

/-- A file that is created is empty but for the first bytes of its writer. -/
theorem create_disk {io : P.Io} {path : Text} {columns : List Text} {x : ParquetExporter P}
    (h : create P io path columns = .ok x) (disk : Disk P) :
    x.node = P.node path ∧
      createdDisk P io path columns disk = Function.update disk (P.node path) x.sent := by
  rw [create] at h
  split at h
  · cases h
  · rename_i hfile
    split at h
    · cases h
    · rename_i writer bytes hwriter
      cases h
      exact ⟨rfl, by simp [createdDisk, hfile, hwriter]⟩

theorem createdDisk_ne (io : P.Io) {path : Text} (columns : List Text) (disk : Disk P) {n : ℕ}
    (h : P.node path ≠ n) : createdDisk P io path columns disk n = disk n := by
  rw [createdDisk]
  cases P.createFile io path with
  | error e => rfl
  | ok u => exact Function.update_of_ne h.symm ..

/-- A page that is accepted adds its rows, fitted to the columns. -/
theorem appendRows_ok {io : P.Io} {x x' : ParquetExporter P} {rows : List Row} (r : Reader P)
    (h : appendRows io x rows = .ok x') :
    x'.schema = x.schema ∧ r.content x'.writer = { r.content x.writer with
      rows := (r.content x.writer).rows ++ rows.map (fitted x.schema.length) } ∧
      (r.Tells x → r.Tells x') := by
  unfold appendRows at h
  cases rows with
  | nil =>
    cases h
    simp
  | cons row rest =>
    rw [List.isEmpty_cons, if_neg Bool.false_ne_true] at h
    split at h
    · cases h
    · rename_i arrays harrays
      split at h
      · cases h
      · rename_i batch hbatch
        split at h
        · rename_i writer bytes hw
          cases h
          obtain ⟨hne, hcolumns⟩ := r.tryNewBatch _ _ _ hbatch
          have hvalues : arrays.map r.values =
              (List.range x.columnCount).map (columnValues (row :: rest)) := by
            apply values_arrays r
            rw [List.mapM_map]
            exact harrays
          have hcount : x.columnCount ≠ 0 := by
            intro hzero
            rw [hzero] at hvalues
            exact hne (List.map_eq_nil_iff.mp hvalues)
          obtain ⟨hcontent, hsent⟩ := r.write _ _ _ _ _ hw
          refine ⟨rfl, ?_, fun htells => ?_⟩
          · simp only [ParquetExporter.wrote]
            rw [hcontent, hcolumns, hvalues, tableRows_columns hcount, x.counted]
          · rw [Reader.Tells, ParquetExporter.wrote, hsent, ← show x.sent = _ from htells]
        · cases h
        · cases h

end SshCommander.ParquetBatches
