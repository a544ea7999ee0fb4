import SshCommander.RelationalQueries
import SshCommander.RustText

/-!
# What the schema browser shows

Each list of the browser is one query on the system catalogs, and `list_schema_contents` runs four
of them at once, each on the catalogs as they are then. The catalogs' unique indexes make every
object of the schema come up once, under one heading.
-/

namespace SshCommander.SchemaIntrospection
open RelationalQueries RustText

abbrev Oid := UInt32

structure PgDatabase where
  datname : Text
  datistemplate : Bool
  datdba : Oid

structure PgNamespace where
  oid : Oid
  nspname : Text
  nspowner : Oid

structure PgClass where
  oid : Oid
  relname : Text
  relnamespace : Oid
  relkind : Int8
  relowner : Oid
  reltuples : Float32

structure PgProc where
  proname : Text
  pronamespace : Oid
  prokind : Int8
  proowner : Oid
  /-- `pg_get_function_identity_arguments` and `pg_get_function_result`. -/
  identityArguments : Option Text
  result : Option Text

structure PgType where
  oid : Oid
  typname : Text
  typnamespace : Oid
  typtype : Int8
  typowner : Oid
  typrelid : Oid
  typarray : Oid

structure PgAttribute where
  attrelid : Oid
  attnum : Int16
  attname : Text
  atttypid : Oid
  attnotnull : Bool
  attisdropped : Bool
  attgenerated : Int8

structure PgAttrdef where
  adrelid : Oid
  adnum : Int16

/-- One state of the catalogs, with their unique indexes. -/
structure Catalog where
  databases : List PgDatabase
  namespaces : List PgNamespace
  classes : List PgClass
  procs : List PgProc
  types : List PgType
  attributes : List PgAttribute
  attrdefs : List PgAttrdef
  pgGetUserbyid : Oid → Text
  formatType : Oid → Text
  databaseName : (databases.map (·.datname)).Nodup
  namespaceOid : (namespaces.map (·.oid)).Nodup
  namespaceName : (namespaces.map (·.nspname)).Nodup
  classOid : (classes.map (·.oid)).Nodup
  className : (classes.map fun c => (c.relname, c.relnamespace)).Nodup
  typeOid : (types.map (·.oid)).Nodup
  typeName : (types.map fun t => (t.typname, t.typnamespace)).Nodup
  attributeNum : (attributes.map fun a => (a.attrelid, a.attnum)).Nodup
  attrdefNum : (attrdefs.map fun d => (d.adrelid, d.adnum)).Nodup

def byte (c : Char) : Int8 := Int8.ofNat c.toNat

/-- `c as u8 as char`. -/
def charOf (c : Int8) : Char := Char.ofNat c.toUInt8.toNat

inductive RelationKind where
  | table
  | view
  | materializedView
  | partitionedTable
  | foreignTable
  deriving DecidableEq, Repr

def RelationKind.fromRelkind (c : Int8) : Option RelationKind :=
  match charOf c with
  | 'r' => some .table
  | 'v' => some .view
  | 'm' => some .materializedView
  | 'p' => some .partitionedTable
  | 'f' => some .foreignTable
  | _ => none

structure Relation where
  schema : Text
  name : Text
  kind : RelationKind
  owner : Text
  estimatedRows : Float32

structure Sequence where
  schema : Text
  name : Text
  owner : Text
  deriving DecidableEq, Repr

inductive RoutineKind where
  | function
  | procedure
  | aggregate
  | window
  deriving DecidableEq, Repr

def RoutineKind.fromProkind (c : Int8) : Option RoutineKind :=
  match charOf c with
  | 'f' => some .function
  | 'p' => some .procedure
  | 'a' => some .aggregate
  | 'w' => some .window
  | _ => none

structure Routine where
  schema : Text
  name : Text
  kind : RoutineKind
  owner : Text
  argumentSignature : Text
  returnType : Option Text
  deriving DecidableEq, Repr

inductive ObjectTypeKind where
  | composite
  | enum
  | domain
  | range
  deriving DecidableEq, Repr

def ObjectTypeKind.fromTyptype (c : Int8) : Option ObjectTypeKind :=
  match charOf c with
  | 'c' => some .composite
  | 'e' => some .enum
  | 'd' => some .domain
  | 'r' | 'm' => some .range
  | _ => none

structure ObjectType where
  schema : Text
  name : Text
  kind : ObjectTypeKind
  owner : Text
  deriving DecidableEq, Repr

structure SchemaContents where
  tables : List Relation
  views : List Relation
  materializedViews : List Relation
  sequences : List Sequence
  routines : List Routine
  objectTypes : List ObjectType

structure ColumnDetail where
  name : Text
  typeName : Text
  notNull : Bool
  hasDefault : Bool
  isGenerated : Bool
  deriving DecidableEq, Repr

structure RelationRow where
  nspname : Text
  relname : Text
  relkind : Int8
  owner : Text
  reltuples : Float32

structure RoutineRow where
  nspname : Text
  proname : Text
  prokind : Int8
  owner : Text
  argSig : Option Text
  retType : Option Text

structure ObjectTypeRow where
  nspname : Text
  typname : Text
  typtype : Int8
  owner : Text

structure ColumnRow where
  attnum : Int16
  detail : ColumnDetail

/-- `FROM pg_class c JOIN pg_namespace n ON n.oid = c.relnamespace WHERE n.nspname = $1`. -/
def classesOf (cat : Catalog) (schema : Text) : List (PgClass × PgNamespace) :=
  (join cat.classes cat.namespaces fun c n => n.oid == c.relnamespace).filter
    fun (_, n) => n.nspname == schema

def relationsQuery (cat : Catalog) (schema : Text) : List RelationRow :=
  ((classesOf cat schema).filter fun (c, _) =>
    ['r', 'v', 'm', 'p', 'f'].any fun kind => c.relkind == byte kind).map
      fun (c, n) => ⟨n.nspname, c.relname, c.relkind, cat.pgGetUserbyid c.relowner, c.reltuples⟩

def sequencesQuery (cat : Catalog) (schema : Text) : List Sequence :=
  ((classesOf cat schema).filter fun (c, _) => c.relkind == byte 'S').map
    fun (c, n) => ⟨n.nspname, c.relname, cat.pgGetUserbyid c.relowner⟩

def routinesQuery (cat : Catalog) (schema : Text) : List RoutineRow :=
  ((join cat.procs cat.namespaces fun p n => n.oid == p.pronamespace).filter
    fun (_, n) => n.nspname == schema).map fun (p, n) =>
      ⟨n.nspname, p.proname, p.prokind, cat.pgGetUserbyid p.proowner, p.identityArguments, p.result⟩

/-- The query of `list_object_types`. A comparison with a row that is missing is not true. -/
def objectTypesQuery (cat : Catalog) (schema : Text) : List ObjectTypeRow :=
  ((leftJoin (join cat.types cat.namespaces fun t n => n.oid == t.typnamespace) cat.classes
    fun (t, _) c => c.oid == t.typrelid).filter fun ((t, n), c) =>
      n.nspname == schema && (['c', 'e', 'd', 'r', 'm'].any fun kind => t.typtype == byte kind) &&
        (t.typrelid == 0 || c.any (·.relkind == byte 'c')) &&
          !cat.types.any (·.typarray == t.oid)).map
            fun ((t, n), _) => ⟨n.nspname, t.typname, t.typtype, cat.pgGetUserbyid t.typowner⟩

def columnsQuery (cat : Catalog) (schema table : Text) : List ColumnRow :=
  ((leftJoin (join (join cat.attributes cat.classes fun a c => c.oid == a.attrelid) cat.namespaces
    fun (_, c) n => n.oid == c.relnamespace) cat.attrdefs
      fun ((a, _), _) d => d.adrelid == a.attrelid && d.adnum == a.attnum).filter
        fun (((a, c), n), _) => n.nspname == schema && c.relname == table && decide (0 < a.attnum) &&
          !a.attisdropped).map fun (((a, _), _), d) =>
            ⟨a.attnum, a.attname, cat.formatType a.atttypid, a.attnotnull, d.isSome,
              a.attgenerated != 0⟩

def listRelations (rows : List RelationRow) : List Relation :=
  rows.filterMap fun r => (RelationKind.fromRelkind r.relkind).map fun kind =>
    ⟨r.nspname, r.relname, kind, r.owner, r.reltuples⟩

def listRoutines (rows : List RoutineRow) : List Routine :=
  rows.filterMap fun r => (RoutineKind.fromProkind r.prokind).map fun kind =>
    ⟨r.nspname, r.proname, kind, r.owner, r.argSig.getD [], r.retType⟩

def listObjectTypes (rows : List ObjectTypeRow) : List ObjectType :=
  rows.filterMap fun r => (ObjectTypeKind.fromTyptype r.typtype).map fun kind =>
    ⟨r.nspname, r.typname, kind, r.owner⟩

inductive Heading where
  | tables
  | views
  | materializedViews
  deriving DecidableEq, Repr

def RelationKind.heading : RelationKind → Heading
  | .table | .partitionedTable | .foreignTable => .tables
  | .view => .views
  | .materializedView => .materializedViews

def SchemaContents.push (s : SchemaContents) (r : Relation) : SchemaContents :=
  match r.kind.heading with
  | .tables => { s with tables := s.tables ++ [r] }
  | .views => { s with views := s.views ++ [r] }
  | .materializedViews => { s with materializedViews := s.materializedViews ++ [r] }

/-- `list_schema_contents`, with what its four queries come to under `try_join!`. -/
def listSchemaContents {E : Type}
    (answers : Except E (List RelationRow × List Sequence × List RoutineRow × List ObjectTypeRow)) :
    Except E SchemaContents :=
  answers.map fun (relations, sequences, routines, objectTypes) =>
    (listRelations relations).foldl SchemaContents.push
      ⟨[], [], [], sequences, listRoutines routines, listObjectTypes objectTypes⟩

def describeColumns {E : Type} (answer : Except E (List ColumnRow)) : Except E (List ColumnDetail) :=
  answer.map fun rows => rows.map (·.detail)

namespace Catalog

/-- What is read off the namespace of a schema; nothing where there is none. -/
def inSchema {α : Type} (cat : Catalog) (schema : Text) (f : PgNamespace → List α) : List α :=
  (cat.namespaces.find? (·.nspname == schema)).elim [] f

def relations (cat : Catalog) (n : PgNamespace) : List Relation :=
  (cat.classes.filter (·.relnamespace == n.oid)).filterMap fun c =>
    (RelationKind.fromRelkind c.relkind).map fun kind =>
      ⟨n.nspname, c.relname, kind, cat.pgGetUserbyid c.relowner, c.reltuples⟩

def sequences (cat : Catalog) (n : PgNamespace) : List Sequence :=
  (cat.classes.filter fun c => c.relnamespace == n.oid && c.relkind == byte 'S').map fun c =>
    ⟨n.nspname, c.relname, cat.pgGetUserbyid c.relowner⟩

def routines (cat : Catalog) (n : PgNamespace) : List Routine :=
  (cat.procs.filter (·.pronamespace == n.oid)).filterMap fun p =>
    (RoutineKind.fromProkind p.prokind).map fun kind =>
      ⟨n.nspname, p.proname, kind, cat.pgGetUserbyid p.proowner, p.identityArguments.getD [],
        p.result⟩

/-- Not the row type of a table, view or other relation. -/
def standalone (cat : Catalog) (t : PgType) : Bool :=
  t.typrelid == 0 || cat.classes.any fun c => c.oid == t.typrelid && c.relkind == byte 'c'

def arrayType (cat : Catalog) (t : PgType) : Bool := cat.types.any (·.typarray == t.oid)

def objectTypes (cat : Catalog) (n : PgNamespace) : List ObjectType :=
  (cat.types.filter fun t =>
    t.typnamespace == n.oid && cat.standalone t && !cat.arrayType t).filterMap fun t =>
      (ObjectTypeKind.fromTyptype t.typtype).map fun kind =>
        ⟨n.nspname, t.typname, kind, cat.pgGetUserbyid t.typowner⟩

/-- The columns of a relation that are its own and not dropped. -/
def liveColumns (cat : Catalog) (table : Text) (n : PgNamespace) : List PgAttribute :=
  (cat.classes.find? fun c => c.relname == table && c.relnamespace == n.oid).elim [] fun c =>
    cat.attributes.filter fun a =>
      a.attrelid == c.oid && (decide (0 < a.attnum) && !a.attisdropped)

def detail (cat : Catalog) (a : PgAttribute) : ColumnDetail :=
  ⟨a.attname, cat.formatType a.atttypid, a.attnotnull,
    cat.attrdefs.any fun d => d.adrelid == a.attrelid && d.adnum == a.attnum, a.attgenerated != 0⟩

end Catalog

variable {cat : Catalog} {schema : Text} {n : PgNamespace}

/-- A property of every `"char"`. -/
theorem forall_byte {p : Int8 → Prop} (h : ∀ n < 256, p (Int8.ofNat n)) (c : Int8) : p c := by
  have hc : Int8.ofNat c.toUInt8.toNat = c := by
    apply Int8.toBitVec_inj.mp
    apply BitVec.eq_of_toNat_eq
    simp
  exact hc ▸ h c.toUInt8.toNat c.toUInt8.toNat_lt

/-- The filter of the query and the decoder name the same kinds. -/
theorem relkind_shown (c : Int8) : (['r', 'v', 'm', 'p', 'f'].any fun kind => c == byte kind) =
    (RelationKind.fromRelkind c).isSome := by
  revert c
  exact forall_byte (by decide +kernel)

theorem typtype_shown (c : Int8) : (['c', 'e', 'd', 'r', 'm'].any fun kind => c == byte kind) =
    (ObjectTypeKind.fromTyptype c).isSome := by
  revert c
  exact forall_byte (by decide +kernel)

theorem unique_namespace {α : Type} (cat : Catalog) (f : α → Oid) :
    Unique cat.namespaces fun a n => n.oid == f a :=
  .of_nodup cat.namespaceOid fun _ _ h => beq_iff_eq.mp h

theorem namespace_pairwise (cat : Catalog) (schema : Text) : cat.namespaces.Pairwise fun n n' =>
    ¬((n.nspname == schema) = true ∧ (n'.nspname == schema) = true) := by
  refine (List.pairwise_map.mp cat.namespaceName).imp fun hne hboth => hne ?_
  rw [beq_iff_eq.mp hboth.1, beq_iff_eq.mp hboth.2]

/-- A join with the namespaces, under the name of a schema, goes over the rows of the schema. -/
theorem join_namespaces {α : Type} (cat : Catalog) (l : List α) (f : α → Oid) (schema : Text) :
    ((join l cat.namespaces fun a n => n.oid == f a).filter fun r => r.2.nspname == schema) =
      cat.inSchema schema fun n => (l.filter fun a => f a == n.oid).map fun a => (a, n) := by
  have hflip (n : PgNamespace) : (fun a => n.oid == f a) = fun a => f a == n.oid := by
    funext a
    exact BEq.comm
  rw [join_pick (p := fun n : PgNamespace => n.nspname == schema) (unique_namespace cat f)
    (namespace_pairwise cat schema), Catalog.inSchema]
  simp only [hflip]

theorem relations_read (cat : Catalog) (schema : Text) :
    listRelations (relationsQuery cat schema) = cat.inSchema schema cat.relations := by
  rw [relationsQuery, classesOf, join_namespaces cat cat.classes (·.relnamespace) schema,
    Catalog.inSchema, Catalog.inSchema]
  cases cat.namespaces.find? (·.nspname == schema) with
  | none => rfl
  | some n =>
    rw [Option.elim_some, Option.elim_some, Catalog.relations, listRelations, List.filterMap_map,
      List.filter_map, List.filterMap_map, List.filterMap_filter]
    refine List.filterMap_congr fun c _ => ?_
    simp only [Function.comp_apply, relkind_shown]
    cases RelationKind.fromRelkind c.relkind with
    | none => rfl
    | some kind => rfl

theorem sequences_read (cat : Catalog) (schema : Text) :
    sequencesQuery cat schema = cat.inSchema schema cat.sequences := by
  rw [sequencesQuery, classesOf, join_namespaces cat cat.classes (·.relnamespace) schema,
    Catalog.inSchema, Catalog.inSchema]
  cases cat.namespaces.find? (·.nspname == schema) with
  | none => rfl
  | some n =>
    rw [Option.elim_some, Option.elim_some, Catalog.sequences, List.filter_map, List.map_map,
      List.filter_filter]
    have hboth : (fun c : PgClass => c.relkind == byte 'S' && c.relnamespace == n.oid) =
        fun c => c.relnamespace == n.oid && c.relkind == byte 'S' := by
      funext c
      exact Bool.and_comm _ _
    simp only [Function.comp_def, hboth]

theorem routines_read (cat : Catalog) (schema : Text) :
    listRoutines (routinesQuery cat schema) = cat.inSchema schema cat.routines := by
  rw [routinesQuery, join_namespaces cat cat.procs (·.pronamespace) schema, Catalog.inSchema,
    Catalog.inSchema]
  cases cat.namespaces.find? (·.nspname == schema) with
  | none => rfl
  | some n =>
    rw [Option.elim_some, Option.elim_some, Catalog.routines, listRoutines, List.filterMap_map,
      List.filterMap_map]
    rfl

theorem objectTypes_read (cat : Catalog) (schema : Text) :
    listObjectTypes (objectTypesQuery cat schema) = cat.inSchema schema cat.objectTypes := by
  have hclass : Unique cat.classes fun (r : PgType × PgNamespace) c => c.oid == r.1.typrelid :=
    .of_nodup cat.classOid fun _ _ h => beq_iff_eq.mp h
  have hquery : objectTypesQuery cat schema =
      (((join cat.types cat.namespaces fun t n => n.oid == t.typnamespace).filter
        fun r => r.2.nspname == schema).filter fun r =>
          (ObjectTypeKind.fromTyptype r.1.typtype).isSome &&
            (cat.standalone r.1 && !cat.arrayType r.1)).map fun r =>
              ⟨r.2.nspname, r.1.typname, r.1.typtype, cat.pgGetUserbyid r.1.typowner⟩ := by
    rw [objectTypesQuery, leftJoin_unique hclass, List.filter_map, List.map_map, List.filter_filter]
    refine congrArg _ (List.filter_congr fun r _ => ?_)
    simp only [Function.comp_apply, typtype_shown, Catalog.standalone, Catalog.arrayType,
      find?_any (hclass r)]
    cases r.2.nspname == schema <;> simp [Bool.and_assoc]
  rw [hquery, join_namespaces cat cat.types (·.typnamespace) schema, Catalog.inSchema,
    Catalog.inSchema]
  cases cat.namespaces.find? (·.nspname == schema) with
  | none => rfl
  | some n =>
    rw [Option.elim_some, Option.elim_some, Catalog.objectTypes, listObjectTypes, List.filterMap_map,
      List.filter_map, List.filterMap_map, List.filter_filter, List.filterMap_filter,
      List.filterMap_filter]
    refine List.filterMap_congr fun t _ => ?_
    simp only [Function.comp_apply]
    cases ObjectTypeKind.fromTyptype t.typtype with
    | none => simp
    | some kind =>
      cases t.typnamespace == n.oid <;> cases cat.standalone t <;> cases cat.arrayType t <;> rfl

def nameLe (a b : Text) : Prop := textLe a b = true

instance (a b : Text) : Decidable (nameLe a b) := inferInstanceAs (Decidable (textLe a b = true))

/-- An order of rows is one by name first. -/
def ByName {α : Type} (name : α → Text) (le : α → α → Prop) : Prop :=
  ∀ a b, le a b → nameLe (name a) (name b)

theorem foldl_push (s : SchemaContents) (rs : List Relation) : rs.foldl SchemaContents.push s =
    { s with
      tables := s.tables ++ rs.filter (·.kind.heading == .tables)
      views := s.views ++ rs.filter (·.kind.heading == .views)
      materializedViews := s.materializedViews ++
        rs.filter (·.kind.heading == .materializedViews) } := by
  induction rs generalizing s with
  | nil => simp
  | cons r rs ih =>
    rw [List.foldl_cons, ih, SchemaContents.push]
    cases hr : r.kind.heading <;> simp [hr]

/-- Every relation is under one heading. -/
theorem headings_perm (rs : List Relation) :
    (rs.filter (·.kind.heading == .tables) ++ rs.filter (·.kind.heading == .views) ++
      rs.filter (·.kind.heading == .materializedViews)).Perm rs := by
  induction rs with
  | nil => exact .refl _
  | cons r rs ih =>
    cases hr : r.kind.heading with
    | tables => simpa [hr] using ih
    | views =>
      simp only [List.filter_cons, hr, beq_self_eq_true, if_true, reduceCtorEq, beq_iff_eq, if_false]
      exact (List.perm_middle.append_right _).trans (ih.cons r)
    | materializedViews =>
      simp only [List.filter_cons, hr, beq_self_eq_true, if_true, reduceCtorEq, beq_iff_eq, if_false]
      exact List.perm_middle.trans (ih.cons r)

theorem nodup_inSchema {α : Type} {f : PgNamespace → List α} {name : α → Text}
    (h : ∀ n, ((f n).map name).Nodup) (cat : Catalog) (schema : Text) :
    ((cat.inSchema schema f).map name).Nodup := by
  unfold Catalog.inSchema
  cases cat.namespaces.find? (·.nspname == schema) with
  | none => exact List.nodup_nil
  | some n => exact h n

/-- Two relations of a namespace have different names. -/
theorem classes_pairwise (cat : Catalog) (n : PgNamespace) :
    (cat.classes.filter (·.relnamespace == n.oid)).Pairwise fun c c' => c.relname ≠ c'.relname := by
  rw [List.pairwise_filter]
  refine (List.pairwise_map.mp cat.className).imp fun hne hc hc' heq => hne ?_
  rw [heq, beq_iff_eq.mp hc, beq_iff_eq.mp hc']

theorem relations_nodup (cat : Catalog) (n : PgNamespace) :
    ((cat.relations n).map (·.name)).Nodup := by
  refine List.pairwise_map.mpr (List.pairwise_filterMap.mpr ((classes_pairwise cat n).imp ?_))
  intro c c' hne r hr r' hr'
  obtain ⟨kind, -, rfl⟩ := Option.map_eq_some_iff.mp hr
  obtain ⟨kind', -, rfl⟩ := Option.map_eq_some_iff.mp hr'
  exact hne

theorem sequences_nodup (cat : Catalog) (n : PgNamespace) :
    ((cat.sequences n).map (·.name)).Nodup := by
  refine List.pairwise_map.mpr (List.pairwise_map.mpr ?_)
  have hsub : (cat.classes.filter fun c => c.relnamespace == n.oid && c.relkind == byte 'S').Sublist
      (cat.classes.filter (·.relnamespace == n.oid)) :=
    List.monotone_filter_right _ fun c hc => (Bool.and_eq_true _ _ ▸ hc).1
  exact (classes_pairwise cat n).sublist hsub

theorem objectTypes_nodup (cat : Catalog) (n : PgNamespace) :
    ((cat.objectTypes n).map (·.name)).Nodup := by
  refine List.pairwise_map.mpr (List.pairwise_filterMap.mpr (List.pairwise_filter.mpr ?_))
  refine (List.pairwise_map.mp cat.typeName).imp ?_
  intro t t' hne ht ht' r hr r' hr' heq
  obtain ⟨kind, -, rfl⟩ := Option.map_eq_some_iff.mp hr
  obtain ⟨kind', -, rfl⟩ := Option.map_eq_some_iff.mp hr'
  simp only [Bool.and_eq_true, beq_iff_eq] at ht ht'
  exact hne (Prod.ext heq (ht.1.1.trans ht'.1.1.symm))

/-- A list of the browser: what the catalogs have, each name once, in the order of the names. -/
structure Shows {α : Type} (name : α → Text) (expected shown : List α) : Prop where
  answers : Answers (fun a b => nameLe (name a) (name b)) expected shown
  once : (shown.map name).Nodup

theorem Shows.of_answers {α : Type} {name : α → Text} {expected shown : List α}
    (h : Answers (fun a b => nameLe (name a) (name b)) expected shown)
    (hnodup : (expected.map name).Nodup) : Shows name expected shown :=
  ⟨h, (h.same.map name).nodup_iff.mpr hnodup⟩

/-- Whatever states of the catalogs the four queries see, the browser shows under each heading
exactly the relations of that kind, the sequences, the routines and the types that users have made
in the schema, in the order of their names, and no relation, sequence or type twice or under two
headings. -/
theorem schema_contents_exact (E : Type) (cat₁ cat₂ cat₃ cat₄ : Catalog) (schema : Text)
    (relations : List RelationRow) (sequences : List Sequence) (routines : List RoutineRow)
    (objectTypes : List ObjectTypeRow) (routineLe : RoutineRow → RoutineRow → Prop)
    (hroutine : ByName (·.proname) routineLe)
    (hrelations : Answers (fun a b => nameLe a.relname b.relname) (relationsQuery cat₁ schema)
      relations)
    (hsequences : Answers (fun a b => nameLe a.name b.name) (sequencesQuery cat₂ schema) sequences)
    (hroutines : Answers routineLe (routinesQuery cat₃ schema) routines)
    (htypes : Answers (fun a b => nameLe a.typname b.typname) (objectTypesQuery cat₄ schema)
      objectTypes) :
    ∃ s, listSchemaContents (E := E) (.ok (relations, sequences, routines, objectTypes)) = .ok s ∧
      (∀ heading, Answers (fun a b => nameLe a.name b.name)
        ((cat₁.inSchema schema cat₁.relations).filter (·.kind.heading == heading))
        (match heading with
          | .tables => s.tables
          | .views => s.views
          | .materializedViews => s.materializedViews)) ∧
      ((s.tables ++ s.views ++ s.materializedViews).map (·.name)).Nodup ∧
      Shows (·.name) (cat₂.inSchema schema cat₂.sequences) s.sequences ∧
      Answers (fun a b => nameLe a.name b.name) (cat₃.inSchema schema cat₃.routines) s.routines ∧
      Shows (·.name) (cat₄.inSchema schema cat₄.objectTypes) s.objectTypes := by
  have hr : Answers (fun a b => nameLe a.name b.name) (cat₁.inSchema schema cat₁.relations)
      (listRelations relations) := by
    rw [← relations_read]
    refine hrelations.filterMap fun a a' b b' hb hb' hle => ?_
    obtain ⟨kind, -, rfl⟩ := Option.map_eq_some_iff.mp hb
    obtain ⟨kind', -, rfl⟩ := Option.map_eq_some_iff.mp hb'
    exact hle
  have hp : Answers (fun a b => nameLe a.name b.name) (cat₃.inSchema schema cat₃.routines)
      (listRoutines routines) := by
    rw [← routines_read]
    refine hroutines.filterMap fun a a' b b' hb hb' hle => ?_
    obtain ⟨kind, -, rfl⟩ := Option.map_eq_some_iff.mp hb
    obtain ⟨kind', -, rfl⟩ := Option.map_eq_some_iff.mp hb'
    exact hroutine a a' hle
  have ht : Answers (fun a b => nameLe a.name b.name) (cat₄.inSchema schema cat₄.objectTypes)
      (listObjectTypes objectTypes) := by
    rw [← objectTypes_read]
    refine htypes.filterMap fun a a' b b' hb hb' hle => ?_
    obtain ⟨kind, -, rfl⟩ := Option.map_eq_some_iff.mp hb
    obtain ⟨kind', -, rfl⟩ := Option.map_eq_some_iff.mp hb'
    exact hle
  rw [sequences_read] at hsequences
  refine ⟨_, rfl, fun heading => ?_, ?_, ?_, ?_, ?_⟩
  · have hheading := hr.filter (·.kind.heading == heading)
    cases heading <;> simpa only [foldl_push, List.nil_append] using hheading
  · have hnodup := nodup_inSchema (relations_nodup cat₁) cat₁ schema
    simp only [foldl_push, List.nil_append]
    exact (((headings_perm _).trans hr.same).map _).nodup_iff.mpr hnodup
  · simp only [foldl_push]
    exact .of_answers hsequences (nodup_inSchema (sequences_nodup cat₂) cat₂ schema)
  · simpa only [foldl_push] using hp
  · simp only [foldl_push]
    exact .of_answers ht (nodup_inSchema (objectTypes_nodup cat₄) cat₄ schema)

def shop : Catalog where
  databases := [⟨['d'], false, 5⟩, ⟨['t'], true, 5⟩]
  namespaces := [⟨1, ['s'], 5⟩, ⟨2, ['x'], 5⟩]
  classes := [⟨12, ['v'], 1, byte 'v', 5, 0⟩, ⟨10, ['t'], 1, byte 'r', 5, 0⟩,
    ⟨11, ['q'], 1, byte 'S', 5, 0⟩, ⟨13, ['t'], 2, byte 'p', 5, 0⟩]
  procs := []
  types := [⟨20, ['t'], 1, byte 'c', 5, 10, 21⟩, ⟨21, ['_', 't'], 1, byte 'b', 5, 0, 0⟩,
    ⟨22, ['e'], 1, byte 'e', 5, 0, 0⟩]
  attributes := [⟨10, -1, ['c'], 27, true, false, 0⟩, ⟨10, 3, ['n'], 25, false, false, 0⟩,
    ⟨10, 2, ['d'], 25, false, true, 0⟩, ⟨10, 1, ['i'], 23, true, false, 0⟩]
  attrdefs := [⟨10, 1⟩]
  pgGetUserbyid _ := ['o']
  formatType oid := if oid == 23 then ['i', 'n', 't'] else ['t', 'e', 'x', 't']
  databaseName := by decide
  namespaceOid := by decide
  namespaceName := by decide
  classOid := by decide
  className := by decide
  typeOid := by decide
  typeName := by decide
  attributeNum := by decide
  attrdefNum := by decide

theorem schema_contents_exact_shop : ∃ s, listSchemaContents (E := Unit)
    (.ok ((relationsQuery shop ['s']).reverse, sequencesQuery shop ['s'], [],
      objectTypesQuery shop ['s'])) = .ok s ∧
    s.tables.map (·.name) = [['t']] ∧ s.objectTypes = [⟨['s'], ['e'], .enum, ['o']⟩] := by
  have hrelations : Answers (fun a b => nameLe a.relname b.relname) (relationsQuery shop ['s'])
      (relationsQuery shop ['s']).reverse := ⟨List.reverse_perm _, by decide⟩
  obtain ⟨s, hs, hheadings, -, -, -, htypes⟩ := schema_contents_exact Unit shop shop shop shop
    ['s'] _ _ [] _ (fun a b => nameLe a.proname b.proname) (fun _ _ h => h) hrelations
    ⟨.refl _, by decide⟩ ⟨.refl _, .nil⟩ ⟨.refl _, by decide⟩
  exact ⟨s, hs, List.perm_singleton.mp ((hheadings .tables).same.map (·.name)),
    List.perm_singleton.mp htypes.answers.same⟩

theorem class_pairwise (cat : Catalog) (table : Text) (n : PgNamespace) :
    cat.classes.Pairwise fun c c' => ¬((c.relname == table && c.relnamespace == n.oid) = true ∧
      (c'.relname == table && c'.relnamespace == n.oid) = true) := by
  refine (List.pairwise_map.mp cat.className).imp fun hne hboth => hne ?_
  simp only [Bool.and_eq_true, beq_iff_eq] at hboth
  exact Prod.ext (hboth.1.1.trans hboth.2.1.symm) (hboth.1.2.trans hboth.2.2.symm)

theorem columns_read (cat : Catalog) (schema table : Text) :
    columnsQuery cat schema table = cat.inSchema schema fun n =>
      (cat.liveColumns table n).map fun a => ⟨a.attnum, cat.detail a⟩ := by
  have hdef : Unique cat.attrdefs fun (r : (PgAttribute × PgClass) × PgNamespace) d =>
      d.adrelid == r.1.1.attrelid && d.adnum == r.1.1.attnum := by
    refine .of_nodup (f := fun r => (r.1.1.attrelid, r.1.1.attnum)) cat.attrdefNum fun _ _ h => ?_
    simp only [Bool.and_eq_true, beq_iff_eq] at h
    exact Prod.ext h.1 h.2
  have hclass : Unique cat.classes fun (a : PgAttribute) c => c.oid == a.attrelid :=
    .of_nodup cat.classOid fun _ _ h => beq_iff_eq.mp h
  have hquery : columnsQuery cat schema table =
      (((join (join cat.attributes cat.classes fun a c => c.oid == a.attrelid) cat.namespaces
        fun r n => n.oid == r.2.relnamespace).filter fun r => r.2.nspname == schema).filter
          fun r => r.1.2.relname == table &&
            (decide (0 < r.1.1.attnum) && !r.1.1.attisdropped)).map
              fun r => ⟨r.1.1.attnum, cat.detail r.1.1⟩ := by
    rw [columnsQuery, leftJoin_unique hdef, List.filter_map, List.map_map, List.filter_filter]
    have hdetail (r : (PgAttribute × PgClass) × PgNamespace) : (cat.attrdefs.find? fun d =>
        d.adrelid == r.1.1.attrelid && d.adnum == r.1.1.attnum).isSome =
          cat.attrdefs.any fun d => d.adrelid == r.1.1.attrelid && d.adnum == r.1.1.attnum := by
      rw [List.isSome_find?]
    simp only [Function.comp_def, hdetail]
    refine congrArg _ (List.filter_congr fun r _ => ?_)
    cases r.2.nspname == schema <;> simp [Bool.and_assoc]
  rw [hquery, join_namespaces cat (join cat.attributes cat.classes fun a c => c.oid == a.attrelid)
    (·.2.relnamespace) schema, Catalog.inSchema, Catalog.inSchema]
  cases cat.namespaces.find? (·.nspname == schema) with
  | none => rfl
  | some n =>
    rw [Option.elim_some, Option.elim_some, List.filter_map, List.map_map, List.filter_filter]
    have hpick : ((join cat.attributes cat.classes fun a c => c.oid == a.attrelid).filter fun r =>
        r.2.relname == table && r.2.relnamespace == n.oid) = _ :=
      join_pick (p := fun c : PgClass => c.relname == table && c.relnamespace == n.oid) hclass
        (class_pairwise cat table n) cat.attributes
    have hsplit : ((join cat.attributes cat.classes fun a c => c.oid == a.attrelid).filter fun r =>
        (r.2.relname == table && (decide (0 < r.1.attnum) && !r.1.attisdropped)) &&
          r.2.relnamespace == n.oid) =
        (((join cat.attributes cat.classes fun a c => c.oid == a.attrelid).filter fun r =>
          r.2.relname == table && r.2.relnamespace == n.oid).filter fun r =>
            decide (0 < r.1.attnum) && !r.1.attisdropped) := by
      rw [List.filter_filter]
      refine List.filter_congr fun r _ => ?_
      cases r.2.relname == table <;> cases r.2.relnamespace == n.oid <;> simp
    simp only [Function.comp_def]
    rw [hsplit, hpick, Catalog.liveColumns]
    cases cat.classes.find? (fun c => c.relname == table && c.relnamespace == n.oid) with
    | none => rfl
    | some c =>
      rw [Option.elim_some, Option.elim_some, List.filter_map, List.map_map, List.filter_filter]
      have hcond (a : PgAttribute) : ((decide (0 < a.attnum) && !a.attisdropped) &&
          c.oid == a.attrelid) = (a.attrelid == c.oid && (decide (0 < a.attnum) && !a.attisdropped)) := by
        rw [Bool.and_comm, BEq.comm]
      simp only [Function.comp_def, hcond]

/-- The columns of a relation have different numbers. -/
theorem liveColumns_pairwise (cat : Catalog) (table : Text) (n : PgNamespace) :
    (cat.liveColumns table n).Pairwise fun a a' => a.attnum ≠ a'.attnum := by
  unfold Catalog.liveColumns
  cases cat.classes.find? (fun c => c.relname == table && c.relnamespace == n.oid) with
  | none => exact .nil
  | some c =>
    rw [Option.elim_some, List.pairwise_filter]
    refine (List.pairwise_map.mp cat.attributeNum).imp fun hne ha ha' heq => hne ?_
    simp only [Bool.and_eq_true, beq_iff_eq] at ha ha'
    exact Prod.ext (ha.1.trans ha'.1.symm) heq

theorem inSchema_map {α β : Type} (cat : Catalog) (schema : Text) (f : PgNamespace → List α)
    (g : α → β) : (cat.inSchema schema fun n => (f n).map g) = (cat.inSchema schema f).map g := by
  unfold Catalog.inSchema
  cases cat.namespaces.find? (·.nspname == schema) <;> rfl

/-- The form for an insert has exactly the columns of the relation that are its own and not
dropped, in their order, each with a default exactly where the catalogs have one. -/
theorem columns_exact (E : Type) (cat : Catalog) (schema table : Text) (rows : List ColumnRow)
    (h : Answers (fun a b => a.attnum ≤ b.attnum) (columnsQuery cat schema table) rows) :
    describeColumns (E := E) (.ok rows) =
      .ok (((cat.inSchema schema (cat.liveColumns table)).mergeSort
        fun a b => decide (a.attnum ≤ b.attnum)).map cat.detail) := by
  have hpairwise : (cat.inSchema schema (cat.liveColumns table)).Pairwise
      fun a a' => a.attnum ≠ a'.attnum := by
    unfold Catalog.inSchema
    cases cat.namespaces.find? (·.nspname == schema) with
    | none => exact .nil
    | some n => exact liveColumns_pairwise cat table n
  rw [columns_read, inSchema_map] at h
  generalize cat.inSchema schema (cat.liveColumns table) = live at h hpairwise
  have hperm := List.mergeSort_perm live fun a b => decide (a.attnum ≤ b.attnum)
  have hsorted : (live.mergeSort fun a b => decide (a.attnum ≤ b.attnum)).Pairwise
      fun a b => a.attnum ≤ b.attnum := by
    have hall : (live.mergeSort fun a b => decide (a.attnum ≤ b.attnum)).Pairwise
        fun a b => decide (a.attnum ≤ b.attnum) = true := by
      apply List.pairwise_mergeSort
      · exact fun a b c hab hbc => decide_eq_true
          (Int16.le_trans (of_decide_eq_true hab) (of_decide_eq_true hbc))
      · exact fun a b => by simpa using Int16.le_total a.attnum b.attnum
    exact hall.imp fun hab => of_decide_eq_true hab
  have hrows : rows = (live.mergeSort fun a b => decide (a.attnum ≤ b.attnum)).map
      fun a => ⟨a.attnum, cat.detail a⟩ := by
    refine List.Perm.eq_of_pairwise ?_ h.ordered (List.pairwise_map.mpr hsorted)
      (h.same.trans (hperm.map _).symm)
    intro a b ha hb hab hba
    obtain ⟨a', ha', rfl⟩ := List.mem_map.mp (h.same.mem_iff.mp ha)
    obtain ⟨b', hb', rfl⟩ := List.mem_map.mp hb
    have hb' := hperm.mem_iff.mp hb'
    have hnum : a'.attnum = b'.attnum := Int16.le_antisymm hab hba
    rw [List.inj_on_of_nodup_map (List.pairwise_map.mpr hpairwise) ha' hb' hnum]
  rw [describeColumns, hrows]
  simp only [Except.map, List.map_map, Function.comp_def]

theorem columns_exact_shop : describeColumns (E := Unit)
    (.ok (columnsQuery shop ['s'] ['t']).reverse) =
      .ok [⟨['i'], ['i', 'n', 't'], true, true, false⟩,
        ⟨['n'], ['t', 'e', 'x', 't'], false, false, false⟩] := by
  rw [columns_exact Unit shop ['s'] ['t'] _ ⟨List.reverse_perm _, by decide⟩]
  have hlive : shop.inSchema ['s'] (shop.liveColumns ['t']) =
      [⟨10, 3, ['n'], 25, false, false, 0⟩, ⟨10, 1, ['i'], 23, true, false, 0⟩] := rfl
  have hsort : (shop.inSchema ['s'] (shop.liveColumns ['t'])).mergeSort
      (fun a b => decide (a.attnum ≤ b.attnum)) =
        [⟨10, 1, ['i'], 23, true, false, 0⟩, ⟨10, 3, ['n'], 25, false, false, 0⟩] := by
    simp [hlive, List.mergeSort]
  rw [hsort]
  rfl

end SshCommander.SchemaIntrospection
