import Mathlib.Data.List.Dedup
import SshCommander.EditRoundTrip
import SshCommander.RowStatements

/-!
# Edits by ctid on a store of row versions

A relation is a list of heaps, each with its own ctids. The condition of an edit picks a ctid in
every one of them, and other sessions go on between the read of a ctid and the edit.
-/

namespace SshCommander.CtidEdits
open InteractionPrograms RustText PostgresWire PooledConnection RowEditing SqlTokens EditSql
  TypeExpressions EditRoundTrip RowVersions RowStatements

inductive RelationKind where
  | table
  | view
  | materializedView
  | partitionedTable
  | foreignTable
  deriving DecidableEq, Repr

def RelationKind.fromRelkind (c : Char) : Option RelationKind :=
  if c = 'r' then some .table
  else if c = 'v' then some .view
  else if c = 'm' then some .materializedView
  else if c = 'p' then some .partitionedTable
  else if c = 'f' then some .foreignTable
  else none

structure Relation where
  schema : Text
  name : Text
  kind : RelationKind
  owner : Text
  deriving DecidableEq, Repr

/-- A row of the query over `pg_class`. -/
structure ClassRow where
  nspname : Text
  relname : Text
  relkind : Char
  owner : Text

def listRelations (rows : List ClassRow) : List Relation :=
  rows.filterMap fun r =>
    (RelationKind.fromRelkind r.relkind).map fun kind => ⟨r.nspname, r.relname, kind, r.owner⟩

structure SchemaContents where
  tables : List Relation
  views : List Relation
  materializedViews : List Relation

def listSchemaContents (relations : List Relation) : SchemaContents where
  tables := relations.filter fun r =>
    match r.kind with
    | .table | .partitionedTable | .foreignTable => true
    | .view | .materializedView => false
  views := relations.filter (·.kind == .view)
  materializedViews := relations.filter (·.kind == .materializedView)

/-- The heaps that the rows of a relation are in. -/
structure Partitions (H : Type) where
  heaps : List H
  nodup : heaps.Nodup

variable {H C R : Type}

abbrev Heaps (H C R : Type) := Store (H × C) R

/-- The database as one session's transaction meets it: the relations, the text form of ctids, and
what a SET clause makes of a row. -/
structure Server (H C R : Type) where
  relation : Text → Text → Option (Partitions H)
  tid : Text → Option C
  assign : UpdateReading → List Param → R → R
  tx : ℕ

/-- What the other sessions do before the snapshot of a statement and from there until it comes to
its rows, where the new versions go, and whether it fails. -/
structure Others (H C R : Type) where
  before : List (RowAction (H × C) R)
  during : List (RowAction (H × C) R)
  place : H × C → H × C
  fault : Option DriverError

def boundCtids (params : List Param) (condition : List Token) : Option (List Text) :=
  (params.zipIdx 1).findSome? fun p =>
    match p.1 with
    | .text (some ctid) => if condition = ctidTokens p.2 then some [ctid] else none
    | .text none => none
    | .texts ctids => if p.2 = 1 ∧ condition = anyTokens then some ctids else none

/-- An edit as the server reads it; `assigned` is what it makes of a row that it keeps. -/
structure Edit (R : Type) where
  schema : Text
  table : Text
  ctids : List Text
  assigned : Option (R → R)

def readEdit (assign : UpdateReading → List Param → R → R) (sql : Text) (params : List Param) :
    Option (Edit R) :=
  match readUpdate (tokenise sql) with
  | some r => (boundCtids params r.condition).map fun ctids =>
      ⟨r.schema, r.table, ctids, some (assign r params)⟩
  | none =>
    match readDelete (tokenise sql) with
    | some r => (boundCtids params r.condition).map fun ctids => ⟨r.schema, r.table, ctids, none⟩
    | none => none

def outcomeOf : Except DriverError Wire.ExtendedReply → Except PgError UpdateOutcome
  | .error e => .error (.driver e)
  | .ok reply => .ok ⟨reply.affected⟩

def Asks (d : Dialogue (Except PgError UpdateOutcome)) (sql : Text) (params : List Param) : Prop :=
  d = .ask (.send (.extended sql params editQuery)) fun reply => .ret (outcomeOf reply)

/-- A new value goes with a type that stays in its place, closed and without a WHERE. -/
def InPlace (columnType : Text) : Option Text → Prop
  | none => True
  | some _ => ∃ ty, validateTypeExpression columnType = .ok ty ∧ Contained (tokenise ty) ∧
      ∀ t ∈ topTokens [] (tokenise ty), isWhere t = false

theorem updateCell_asks {schema table column columnType ctid sql : Text} {newValue : Option Text}
    {params : List Param}
    (h : sent (updateCell schema table column columnType newValue ctid) = some (sql, params)) :
    Asks (updateCell schema table column columnType newValue ctid) sql params := by
  rw [Asks]
  cases newValue with
  | none =>
    simp only [updateCell] at h ⊢
    obtain ⟨rfl, rfl⟩ := Prod.mk.inj (Option.some.inj h)
    refine congrArg _ (funext fun reply => ?_)
    cases reply <;> rfl
  | some value =>
    cases hty : validateTypeExpression columnType with
    | error e =>
      simp only [updateCell, hty] at h
      cases h
    | ok ty =>
      simp only [updateCell, hty] at h ⊢
      obtain ⟨rfl, rfl⟩ := Prod.mk.inj (Option.some.inj h)
      refine congrArg _ (funext fun reply => ?_)
      cases reply <;> rfl

theorem deleteRows_asks {schema table sql : Text} {ctids : List Text} {params : List Param}
    (h : sent (deleteRows schema table ctids) = some (sql, params)) :
    Asks (deleteRows schema table ctids) sql params := by
  rw [Asks]
  cases ctids with
  | nil => cases h
  | cons ctid ctids =>
    simp only [deleteRows, List.isEmpty_cons, Bool.false_eq_true, if_false] at h ⊢
    obtain ⟨rfl, rfl⟩ := Prod.mk.inj (Option.some.inj h)
    refine congrArg _ (funext fun reply => ?_)
    cases reply <;> rfl

theorem readEdit_update (assign : UpdateReading → List Param → R → R) {sql : Text}
    {params : List Param} {r : UpdateReading} {ctids : List Text}
    (hread : readUpdate (tokenise sql) = some r)
    (hbound : boundCtids params r.condition = some ctids) :
    readEdit assign sql params = some ⟨r.schema, r.table, ctids, some (assign r params)⟩ := by
  simp only [readEdit, hread, hbound, Option.map_some]

theorem updateCell_readEdit (assign : UpdateReading → List Param → R → R)
    (schema table column ctid : Text) {columnType : Text} {newValue : Option Text}
    (h : InPlace columnType newValue) : ∃ sql params row,
      Asks (updateCell schema table column columnType newValue ctid) sql params ∧
        readEdit assign sql params = some ⟨schema, table, [ctid], some row⟩ := by
  cases newValue with
  | none =>
    obtain ⟨sql, hsent, htokens⟩ := sent_updateCell_null schema table column columnType ctid
    have hnull : isWhere (.word "NULL".toList) = false := by decide
    have hread := readUpdate_contained (contained_word _) (isWhere_word hnull) schema table column
      (ctidTokens 1)
    rw [← htokens] at hread
    exact ⟨sql, _, _, updateCell_asks hsent, readEdit_update assign hread (by simp [boundCtids])⟩
  | some value =>
    obtain ⟨ty, hty, hcontained, hwhere⟩ := h
    obtain ⟨sql, hsent, htokens⟩ := sent_updateCell_value hty schema table column value ctid
    have hread := readUpdate_contained (contained_cast 1 hcontained) (isWhere_cast 1 hwhere) schema
      table column (ctidTokens 2)
    have hbound : boundCtids [.text (some value), .text (some ctid)] (ctidTokens 2) = some [ctid] := by
      have hother : ctidTokens 2 ≠ ctidTokens 1 := by decide
      simp [boundCtids, hother]
    rw [← htokens] at hread
    exact ⟨sql, _, _, updateCell_asks hsent, readEdit_update assign hread hbound⟩

theorem deleteRows_readEdit (assign : UpdateReading → List Param → R → R)
    (schema table : Text) {ctids : List Text} (h : ctids ≠ []) : ∃ sql params,
      Asks (deleteRows schema table ctids) sql params ∧
        readEdit assign sql params = some ⟨schema, table, ctids, none⟩ := by
  obtain ⟨sql, hsent, htokens⟩ := sent_deleteRows schema table h
  obtain ⟨sql', hsent', hread⟩ := deleteRows_readsBack schema table h
  obtain ⟨rfl, -⟩ := Prod.mk.inj (Option.some.inj (hsent.symm.trans hsent'))
  have hupdate : readUpdate (tokenise sql) = none := by
    rw [htokens]
    rfl
  refine ⟨sql, _, deleteRows_asks hsent, ?_⟩
  rw [readEdit, hupdate, hread]
  simp [boundCtids]

def places [DecidableEq C] (rel : Partitions H) (cs : List C) : List (H × C) :=
  cs.dedup.flatMap fun c => rel.heaps.map fun h => (h, c)

theorem places_single [DecidableEq C] (rel : Partitions H) (c : C) :
    places rel [c] = rel.heaps.map fun h => (h, c) := by
  rw [places, (List.nodup_singleton c).dedup, List.flatMap_singleton]

theorem nodup_places [DecidableEq C] (rel : Partitions H) (c : C) : (places rel [c]).Nodup := by
  rw [places_single]
  exact rel.nodup.map fun h h' heq => (Prod.mk.inj heq).1

theorem mem_places [DecidableEq C] {rel : Partitions H} {c : C} {p : H × C} :
    p ∈ places rel [c] ↔ p.1 ∈ rel.heaps ∧ p.2 = c := by
  obtain ⟨h, c'⟩ := p
  simp [places_single, eq_comm]

def changeOf (assigned : Option (R → R)) (place : H × C → H × C) : Change (H × C) R :=
  match assigned with
  | some row => .update row place
  | none => .delete

section Serving

variable [DecidableEq H] [DecidableEq C] [DecidableEq R]

def arrival (s : Heaps H C R) (others : Others H C R) : Heaps H C R :=
  (s.run others.before).run others.during

def Server.execute (srv : Server H C R) (s : Heaps H C R) (others : Others H C R) (sql : Text)
    (params : List Param) : Option (Heaps H C R × ℕ) := do
  let edit ← readEdit srv.assign sql params
  let rel ← srv.relation edit.schema edit.table
  let cs ← edit.ctids.mapM srv.tid
  (changeOf edit.assigned others.place).run srv.tx (s.run others.before) (arrival s others)
    (places rel cs)

/-- A statement that fails has no effect; one that waits in vain is cancelled in the end. -/
def Server.extended (srv : Server H C R) (s : Heaps H C R) (others : Others H C R) (sql : Text)
    (params : List Param) : Heaps H C R × Except DriverError Wire.ExtendedReply :=
  match others.fault with
  | some e => (arrival s others, .error e)
  | none =>
    match srv.execute s others sql params with
    | some (s', n) => (s', .ok ⟨[], n, none⟩)
    | none => (arrival s others, .error (.server "57014"))

/-- An edit makes no other request. -/
def Server.serve (srv : Server H C R) (s : Heaps H C R) :
    (q : Request) → Others H C R → Heaps H C R × Reply q
  | .send (.extended sql params _), others => srv.extended s others sql params
  | .send (.batchExecute _), others | .send (.simpleQuery _), others | .send (.prepare _), others
  | .send (.beginDeclare _ _), others | .send (.fetchForward _ _), others
  | .send (.closeCommit _ _), others | .send .rollback, others =>
    (arrival s others, .error .closed)
  | .takeCursor, others | .takeCursorIf _, others | .readCursor, others => (arrival s others, none)
  | .setCursor _, others => (arrival s others, ())

/-- Nothing is taken away and no row reported, or one row is: the version that was read. -/
def TouchesRead (tx : ℕ) (v : Version R) (s s' : Heaps H C R) (rowsAffected : ℕ) : Prop :=
  (rowsAffected = 0 ∧ ∀ p w, ¬Taken tx s s' p w) ∨
    (rowsAffected = 1 ∧ (∃ p, Taken tx s s' p v) ∧ ∀ p w, Taken tx s s' p w → w = v)

/-- What the snapshot shows at a place stays there until the statement comes to it. -/
def Stays (tx : ℕ) (s : Heaps H C R) (others : Others H C R) (p : H × C) : Prop :=
  ∃ w, ((s.run others.before).slots p).visible tx = some w ∧
    ((arrival s others).slots p).present tx = some w

/-- Of the heaps of the relation, only the one that was read has a row at the ctid when the edit
comes, if any has; and no other version was put there since. -/
def Undisturbed (tx : ℕ) (rel : Partitions H) (s : Heaps H C R) (others : Others H C R) (h : H)
    (c : C) : Prop :=
  ∀ h' ∈ rel.heaps, Stays tx s others (h', c) → h' = h ∧ s.refilled others.before (h, c) = false

/-- A change at one ctid touches nothing but the version that was read exactly where nothing has
come in between. -/
theorem touchesRead_iff {tx : ℕ} {rel : Partitions H} {s s' : Heaps H C R} {others : Others H C R}
    {change : Change (H × C) R} {h : H} {c : C} {v : Version R} {n : ℕ}
    (hnumbered : s.Numbered) (hh : h ∈ rel.heaps)
    (hread : (s.slots (h, c)).visible tx = some v)
    (hrun : change.run tx (s.run others.before) (arrival s others) (places rel [c]) =
      some (s', n)) :
    TouchesRead tx v (arrival s others) s' n ↔ Undisturbed tx rel s others h c := by
  obtain ⟨targets, hlength, hnodup, htargets, htaken⟩ := run_targets (nodup_places rel c) hrun
  have hv := Slot.version?_of_visible hread
  constructor
  · intro htouches h' hh' hstays
    obtain ⟨w, hvisible, hpresent⟩ := hstays
    have hmem : Taken tx (arrival s others) s' (h', c) w := by
      rw [htaken, htargets]
      exact ⟨mem_places.mpr ⟨hh', rfl⟩, hvisible, hpresent⟩
    rcases htouches with ⟨-, hnone⟩ | ⟨-, -, hone⟩
    · exact absurd hmem (hnone _ _)
    · obtain rfl := hone _ _ hmem
      rcases Store.version_run others.before (Slot.version?_of_visible hvisible) with
        ⟨hold, hfilled⟩ | ⟨hnew, -⟩
      · obtain ⟨rfl, -⟩ := Prod.mk.inj (hnumbered.apart _ _ _ _ hold hv rfl)
        exact ⟨rfl, hfilled⟩
      · have := hnumbered.below _ _ hv
        omega
  · intro hundisturbed
    have honly : ∀ f ∈ targets, f = ⟨(h, c), v⟩ := by
      rintro ⟨⟨h', c'⟩, w⟩ hf
      obtain ⟨hplace, hvisible, hpresent⟩ := (htargets _).mp hf
      obtain ⟨hh', rfl⟩ := mem_places.mp hplace
      obtain ⟨rfl, hfilled⟩ := hundisturbed h' hh' ⟨w, hvisible, hpresent⟩
      rcases Store.version_run others.before (Slot.version?_of_visible hvisible) with
        ⟨hold, -⟩ | ⟨-, hrefilled⟩
      · obtain rfl := Option.some.inj (hold.symm.trans hv)
        rfl
      · rw [hfilled] at hrefilled
        cases hrefilled
    cases targets with
    | nil =>
      refine .inl ⟨hlength.symm, ?_⟩
      intro p w hw
      cases (htaken p w).mp hw
    | cons f fs =>
      obtain rfl := honly f (by simp)
      have hfs : fs = [] := by
        cases fs with
        | nil => rfl
        | cons g gs =>
          obtain rfl := honly g (by simp)
          simp at hnodup
      subst hfs
      refine .inr ⟨hlength.symm, ⟨(h, c), (htaken _ _).mpr (by simp)⟩, ?_⟩
      intro p w hw
      have hmem := List.mem_singleton.mp ((htaken p w).mp hw)
      exact congrArg Found.version hmem

variable (srv : Server H C R) (s : Heaps H C R) (env : ℕ → Others H C R)

/-- An edit of a relation at one ctid fails and changes nothing, or changes the relation there. -/
theorem exec_edit {d : Dialogue (Except PgError UpdateOutcome)} {sql : Text} {params : List Param}
    (hasks : Asks d sql params) {edit : Edit R} (hedit : readEdit srv.assign sql params = some edit)
    {rel : Partitions H} (hrel : srv.relation edit.schema edit.table = some rel) {c : C}
    (hctids : edit.ctids.mapM srv.tid = some [c]) :
    (∃ e, (exec srv.serve d s env).value = .error e ∧
      (exec srv.serve d s env).state = arrival s (env 0)) ∨
    ∃ n, (exec srv.serve d s env).value = .ok ⟨n⟩ ∧
      (changeOf edit.assigned (env 0).place).run srv.tx (s.run (env 0).before)
        (arrival s (env 0)) (places rel [c]) = some ((exec srv.serve d s env).state, n) := by
  have hexecute : srv.execute s (env 0) sql params =
      (changeOf edit.assigned (env 0).place).run srv.tx (s.run (env 0).before)
        (arrival s (env 0)) (places rel [c]) := by
    simp only [Server.execute, hedit, hrel, hctids, Option.bind_eq_bind, Option.bind_some]
  have hvalue : (exec srv.serve d s env).value =
      outcomeOf (srv.extended s (env 0) sql params).2 := by
    rw [hasks]
    rfl
  have hstate : (exec srv.serve d s env).state = (srv.extended s (env 0) sql params).1 := by
    rw [hasks]
    rfl
  rw [hvalue, hstate, Server.extended]
  cases (env 0).fault with
  | some e => exact .inl ⟨_, rfl, rfl⟩
  | none =>
    rw [← hexecute]
    cases srv.execute s (env 0) sql params with
    | none => exact .inl ⟨_, rfl, rfl⟩
    | some result => exact .inr ⟨result.2, rfl, rfl⟩

/-- An edit that fails has changed nothing. One that succeeds touches nothing but the version that
was read exactly where nothing has come in between. -/
theorem edits_touchRead_iff (hs : s.Reachable) {schema table ctid : Text}
    {rel : Partitions H} (hrel : srv.relation schema table = some rel) {c : C}
    (hctid : srv.tid ctid = some c) {h : H} (hh : h ∈ rel.heaps) {v : Version R}
    (hread : (s.slots (h, c)).visible srv.tx = some v) (column : Text)
    {columnType : Text} {newValue : Option Text} (htype : InPlace columnType newValue)
    (env : ℕ → Others H C R) :
    ∀ d ∈ [updateCell schema table column columnType newValue ctid, deleteRows schema table [ctid]],
      (∀ e, (exec srv.serve d s env).value = .error e →
        (exec srv.serve d s env).state = arrival s (env 0)) ∧
      ∀ n, (exec srv.serve d s env).value = .ok ⟨n⟩ →
        (TouchesRead srv.tx v (arrival s (env 0)) (exec srv.serve d s env).state n ↔
          Undisturbed srv.tx rel s (env 0) h c) := by
  have hctids : [ctid].mapM srv.tid = some [c] := by simp [hctid]
  have hreads : ∀ d ∈ [updateCell schema table column columnType newValue ctid,
      deleteRows schema table [ctid]], ∃ sql params edit, Asks d sql params ∧
        readEdit srv.assign sql params = some edit ∧ edit.schema = schema ∧ edit.table = table ∧
          edit.ctids = [ctid] := by
    intro d hd
    rcases List.mem_pair.mp hd with rfl | rfl
    · obtain ⟨sql, params, row, hasks, hedit⟩ :=
        updateCell_readEdit srv.assign schema table column ctid htype
      exact ⟨sql, params, _, hasks, hedit, rfl, rfl, rfl⟩
    · obtain ⟨sql, params, hasks, hedit⟩ :=
        deleteRows_readEdit srv.assign schema table (List.cons_ne_nil ctid [])
      exact ⟨sql, params, _, hasks, hedit, rfl, rfl, rfl⟩
  intro d hd
  obtain ⟨sql, params, edit, hasks, hedit, rfl, rfl, hedited⟩ := hreads d hd
  rcases exec_edit srv s env hasks hedit hrel (hedited ▸ hctids) with
    ⟨e, hvalue, hstate⟩ | ⟨n, hvalue, hrun⟩
  · refine ⟨fun _ _ => hstate, ?_⟩
    intro n hn
    rw [hvalue] at hn
    cases hn
  · constructor
    · intro e he
      rw [hvalue] at he
      cases he
    · intro m hm
      rw [hvalue] at hm
      cases hm
      exact touchesRead_iff hs.numbered hh hread hrun

end Serving

/-- Relation `parts` has two partitions, `plain` one heap. -/
def twoTables : Server ℕ ℕ ℕ where
  relation _ name :=
    if name = "parts".toList then some ⟨[0, 1], by decide⟩
    else if name = "plain".toList then some ⟨[0], by decide⟩
    else none
  tid text := if text = "(0,1)".toList then some 1 else none
  assign _ _ _ := 0
  tx := 0

def classRows : List ClassRow :=
  [⟨"public".toList, "parts".toList, 'p', "o".toList⟩,
    ⟨"public".toList, "plain".toList, 'r', "o".toList⟩]

def filled : Heaps ℕ ℕ ℕ := Store.empty.run [.insert 1 (0, 1) 7, .insert 1 (1, 1) 8, .commit 1]

/-- The others do this before the edit, and new versions go to ctid 5. -/
def meanwhile (before : List (RowAction (ℕ × ℕ) ℕ)) : ℕ → Others ℕ ℕ ℕ :=
  fun _ => ⟨before, [], fun p => (p.1, 5), none⟩

def elsewhere : List (RowAction (ℕ × ℕ) ℕ) := [.insert 2 (0, 2) 3, .update 2 (0, 2) (0, 3) 4, .commit 2]

/-- The row is deleted, and its place vacuumed and filled again. -/
def reused : List (RowAction (ℕ × ℕ) ℕ) :=
  [.delete 2 (0, 1), .commit 2, .vacuum (0, 1), .insert 3 (0, 1) 9, .commit 3]

def nullEdit (table : Text) : Dialogue (Except PgError UpdateOutcome) :=
  updateCell "public".toList table "c".toList "int4".toList none "(0,1)".toList

theorem edits_touchRead_plain :
    (exec twoTables.serve (nullEdit "plain".toList) filled (meanwhile elsewhere)).value = .ok ⟨1⟩ ∧
      TouchesRead 0 ⟨0, 7⟩ (arrival filled (meanwhile elsewhere 0))
        (exec twoTables.serve (nullEdit "plain".toList) filled (meanwhile elsewhere)).state 1 := by
  have hvalue : (exec twoTables.serve (nullEdit "plain".toList) filled (meanwhile elsewhere)).value =
      .ok ⟨1⟩ := by decide +kernel
  have hundisturbed : Undisturbed 0 ⟨[0], by decide⟩ filled (meanwhile elsewhere 0) 0 1 := by
    intro h' hh' _
    exact ⟨List.mem_singleton.mp hh', by decide +kernel⟩
  have hreachable : filled.Reachable := ⟨_, rfl⟩
  have hrel : twoTables.relation "public".toList "plain".toList = some ⟨[0], by decide⟩ := rfl
  have hctid : twoTables.tid "(0,1)".toList = some 1 := rfl
  have hheap : 0 ∈ (⟨[0], by decide⟩ : Partitions ℕ).heaps := by simp
  have hread : (filled.slots (0, 1)).visible twoTables.tx = some ⟨0, 7⟩ := by decide +kernel
  have htype : InPlace "int4".toList none := trivial
  have h := edits_touchRead_iff twoTables filled hreachable hrel hctid hheap hread "c".toList htype
    (meanwhile elsewhere)
  exact ⟨hvalue, ((h _ (by simp [nullEdit])).2 1 hvalue).mpr hundisturbed⟩

/-- One edit empties a cell in two rows, the other deletes a row that was never shown. -/
theorem edits_touch_others :
    (listSchemaContents (listRelations classRows)).tables.map (·.name) =
        ["parts".toList, "plain".toList] ∧
      (filled.slots (0, 1)).visible 0 = some ⟨0, 7⟩ ∧
      ((exec twoTables.serve (nullEdit "parts".toList) filled (meanwhile [])).value = .ok ⟨2⟩ ∧
        ¬TouchesRead 0 ⟨0, 7⟩ (arrival filled (meanwhile [] 0))
          (exec twoTables.serve (nullEdit "parts".toList) filled (meanwhile [])).state 2) ∧
      (exec twoTables.serve (deleteRows "public".toList "plain".toList ["(0,1)".toList]) filled
          (meanwhile reused)).value = .ok ⟨1⟩ ∧
        ¬TouchesRead 0 ⟨0, 7⟩ (arrival filled (meanwhile reused 0))
          (exec twoTables.serve (deleteRows "public".toList "plain".toList ["(0,1)".toList]) filled
            (meanwhile reused)).state 1 := by
  refine ⟨by decide, by decide +kernel, ⟨by decide +kernel, ?_⟩, by decide +kernel, ?_⟩
  · rintro (⟨hn, -⟩ | ⟨hn, -⟩)
    · cases hn
    · cases hn
  · have htaken : Taken 0 (arrival filled (meanwhile reused 0))
        (exec twoTables.serve (deleteRows "public".toList "plain".toList ["(0,1)".toList]) filled
          (meanwhile reused)).state (0, 1) ⟨2, 9⟩ := by decide +kernel
    rintro (⟨hn, -⟩ | ⟨-, -, hone⟩)
    · cases hn
    · cases hone _ _ htaken

end SshCommander.CtidEdits
