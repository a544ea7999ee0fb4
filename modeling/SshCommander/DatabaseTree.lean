import SshCommander.LikePatterns
import SshCommander.SchemaIntrospection

/-!
# The databases and schemas of the tree

`list_databases` and `list_schemas`. The patterns for the system schemas have underscores, which
`LIKE` reads as any character, so they take in a few names that Postgres leaves to its users.
-/

namespace SshCommander.DatabaseTree
open RelationalQueries RustText SchemaIntrospection LikePatterns

structure DbSummary where
  name : Text
  isTemplate : Bool
  owner : Text
  deriving DecidableEq, Repr

structure SchemaSummary where
  name : Text
  owner : Text
  isSystem : Bool
  deriving DecidableEq, Repr

/-- The rows of the query of `list_databases`: `datname`, `datistemplate` and `owner`. -/
def databasesQuery (cat : Catalog) : List (Text × Bool × Text) :=
  (cat.databases.filter (! ·.datistemplate)).map fun d =>
    (d.datname, d.datistemplate, cat.pgGetUserbyid d.datdba)

def tempSchemas : Text := "pg_temp_%".toList

def toastTempSchemas : Text := "pg_toast_temp_%".toList

def isSystem (name : Text) : Bool :=
  ["pg_catalog".toList, "information_schema".toList, "pg_toast".toList].contains name ||
    like tempSchemas name || like toastTempSchemas name

/-- The rows of the query of `list_schemas`: `nspname`, `owner` and `is_system`. -/
def schemasQuery (cat : Catalog) : List (Text × Text × Bool) :=
  cat.namespaces.map fun n => (n.nspname, cat.pgGetUserbyid n.nspowner, isSystem n.nspname)

def schemaLe (a b : Text × Text × Bool) : Prop :=
  a.2.2 = false ∧ b.2.2 = true ∨ a.2.2 = b.2.2 ∧ nameLe a.1 b.1

instance (a b : Text × Text × Bool) : Decidable (schemaLe a b) :=
  inferInstanceAs (Decidable (_ ∨ _))

def listDatabases {E : Type} (answer : Except E (List (Text × Bool × Text))) :
    Except E (List DbSummary) :=
  answer.map fun rows => rows.map fun (name, isTemplate, owner) => ⟨name, isTemplate, owner⟩

def listSchemas {E : Type} (answer : Except E (List (Text × Text × Bool))) :
    Except E (List SchemaSummary) :=
  answer.map fun rows => rows.map fun (name, owner, isSystem) => ⟨name, owner, isSystem⟩

variable {cat : Catalog} {rows : List (Text × Text × Bool)} {name : Text}

/-- A name as the patterns have it: `pg`, any character and the rest. -/
inductive SystemName : Text → Prop where
  | catalog : SystemName "pg_catalog".toList
  | information : SystemName "information_schema".toList
  | toast : SystemName "pg_toast".toList
  | temp (a b : Char) (rest : Text) : SystemName (['p', 'g', a, 't', 'e', 'm', 'p', b] ++ rest)
  | toastTemp (a b c : Char) (rest : Text) : SystemName
      (['p', 'g', a, 't', 'o', 'a', 's', 't', b, 't', 'e', 'm', 'p', c] ++ rest)

theorem like_temp : like tempSchemas name = true ↔
    ∃ a b rest, name = ['p', 'g', a, 't', 'e', 'm', 'p', b] ++ rest := by
  have hsplit : tempSchemas = "pg_temp_".toList ++ ['%'] := rfl
  have hplain : ∀ c ∈ "pg_temp_".toList, Plain c := by simp [Plain]
  rw [hsplit, like_prefix hplain]
  constructor
  · rintro ⟨t, rest, rfl, h⟩
    obtain ⟨a, b, rfl⟩ : ∃ a b, t = ['p', 'g', a, 't', 'e', 'm', 'p', b] := by
      simpa [List.forall₂_cons_left_iff] using h
    exact ⟨a, b, rest, rfl⟩
  · rintro ⟨a, b, rest, rfl⟩
    exact ⟨_, rest, rfl, by simp⟩

theorem like_toastTemp : like toastTempSchemas name = true ↔
    ∃ a b c rest, name =
      ['p', 'g', a, 't', 'o', 'a', 's', 't', b, 't', 'e', 'm', 'p', c] ++ rest := by
  have hsplit : toastTempSchemas = "pg_toast_temp_".toList ++ ['%'] := rfl
  have hplain : ∀ c ∈ "pg_toast_temp_".toList, Plain c := by simp [Plain]
  rw [hsplit, like_prefix hplain]
  constructor
  · rintro ⟨t, rest, rfl, h⟩
    obtain ⟨a, b, c, rfl⟩ : ∃ a b c, t =
        ['p', 'g', a, 't', 'o', 'a', 's', 't', b, 't', 'e', 'm', 'p', c] := by
      simpa [List.forall₂_cons_left_iff] using h
    exact ⟨a, b, c, rest, rfl⟩
  · rintro ⟨a, b, c, rest, rfl⟩
    exact ⟨_, rest, rfl, by simp⟩

theorem isSystem_iff : isSystem name = true ↔ SystemName name := by
  rw [isSystem, Bool.or_eq_true, Bool.or_eq_true, like_temp, like_toastTemp, List.contains_iff_mem]
  constructor
  · rintro ((hfixed | ⟨a, b, rest, rfl⟩) | ⟨a, b, c, rest, rfl⟩)
    · simp only [List.mem_cons, List.not_mem_nil, or_false] at hfixed
      obtain rfl | rfl | rfl := hfixed
      · exact .catalog
      · exact .information
      · exact .toast
    · exact .temp a b rest
    · exact .toastTemp a b c rest
  · intro h
    cases h with
    | catalog => exact .inl (.inl (by simp))
    | information => exact .inl (.inl (by simp))
    | toast => exact .inl (.inl (by simp))
    | temp a b rest => exact .inl (.inr ⟨a, b, rest, rfl⟩)
    | toastTemp a b c rest => exact .inr ⟨a, b, c, rest, rfl⟩

instance (name : Text) : Decidable (SystemName name) := decidable_of_iff _ isSystem_iff

def Catalog.ownDatabases (cat : Catalog) : List DbSummary :=
  (cat.databases.filter (! ·.datistemplate)).map fun d =>
    ⟨d.datname, false, cat.pgGetUserbyid d.datdba⟩

def Catalog.schemas (cat : Catalog) (system : Bool) : List SchemaSummary :=
  (cat.namespaces.filter fun n => decide (SystemName n.nspname) == system).map fun n =>
    ⟨n.nspname, cat.pgGetUserbyid n.nspowner, system⟩

/-- Rows that come after those without a mark, where they have it. -/
theorem filter_append_filter {α : Type} {marked : α → Bool} {l : List α}
    (h : l.Pairwise fun a b => marked a = true → marked b = true) :
    l.filter (marked · == false) ++ l.filter (marked · == true) = l := by
  induction l with
  | nil => rfl
  | cons a l ih =>
    obtain ⟨hfirst, hrest⟩ := List.pairwise_cons.mp h
    cases ha : marked a with
    | false => simpa [ha] using ih hrest
    | true =>
      have hall : ∀ b ∈ l, marked b = true := fun b hb => hfirst b hb ha
      have hnone : l.filter (marked · == false) = [] :=
        List.filter_eq_nil_iff.mpr fun b hb => by simp [hall b hb]
      have hself : l.filter (marked · == true) = l :=
        List.filter_eq_self.mpr fun b hb => by simp [hall b hb]
      rw [List.filter_cons_of_neg (by simp [ha]), hnone, List.filter_cons_of_pos (by simp [ha]), hself,
        List.nil_append]

theorem schemas_shown (h : Answers schemaLe (schemasQuery cat) rows) (system : Bool) :
    Shows (·.name) (Catalog.schemas cat system)
      ((rows.filter (·.2.2 == system)).map fun r => ⟨r.1, r.2.1, r.2.2⟩) := by
  have hmark (n : PgNamespace) : isSystem n.nspname = decide (SystemName n.nspname) :=
    Bool.eq_iff_iff.mpr (isSystem_iff.trans decide_eq_true_iff.symm)
  refine .of_answers ⟨?_, ?_⟩ ?_
  · have hsame := (h.same.filter (·.2.2 == system)).map
      fun r => (⟨r.1, r.2.1, r.2.2⟩ : SchemaSummary)
    rw [schemasQuery, List.filter_map, List.map_map] at hsame
    refine hsame.trans (.of_eq ?_)
    rw [Catalog.schemas, Function.comp_def]
    simp only [hmark]
    refine List.map_congr_left fun n hn => ?_
    have hn : decide (SystemName n.nspname) = system := beq_iff_eq.mp (List.mem_filter.mp hn).2
    simp only [hn]
  · rw [List.pairwise_map, List.pairwise_filter]
    refine h.ordered.imp ?_
    intro a b hle ha hb
    obtain ⟨hfalse, htrue⟩ | ⟨-, hname⟩ := hle
    · rw [hfalse] at ha
      rw [htrue] at hb
      cases beq_iff_eq.mp ha
      cases beq_iff_eq.mp hb
    · exact hname
  · rw [Catalog.schemas, List.map_map]
    exact cat.namespaceName.sublist (List.filter_sublist.map _)

/-- The tree shows the databases that are no templates, each once and in the order of their names,
and every schema once, those of users first and then those whose names are the system's, both in
the order of their names. -/
theorem tree_listed (E : Type) (cat₁ cat₂ : Catalog) (databases : List (Text × Bool × Text))
    (schemas : List (Text × Text × Bool))
    (hdatabases : Answers (fun a b => nameLe a.1 b.1) (databasesQuery cat₁) databases)
    (hschemas : Answers schemaLe (schemasQuery cat₂) schemas) :
    ∃ shown users systems, listDatabases (E := E) (.ok databases) = .ok shown ∧
      Shows (·.name) (Catalog.ownDatabases cat₁) shown ∧
      listSchemas (E := E) (.ok schemas) = .ok (users ++ systems) ∧
      Shows (·.name) (Catalog.schemas cat₂ false) users ∧
      Shows (·.name) (Catalog.schemas cat₂ true) systems := by
  refine ⟨_, _, _, rfl, ?_, ?_, schemas_shown hschemas false, schemas_shown hschemas true⟩
  · refine .of_answers ⟨?_, List.pairwise_map.mpr hdatabases.ordered⟩ ?_
    · refine (hdatabases.same.map _).trans (.of_eq ?_)
      rw [databasesQuery, Catalog.ownDatabases, List.map_map]
      refine List.map_congr_left fun d hd => ?_
      have hown : d.datistemplate = false := by simpa using (List.mem_filter.mp hd).2
      simp only [Function.comp_apply, hown]
    · rw [Catalog.ownDatabases, List.map_map]
      exact cat₁.databaseName.sublist (List.filter_sublist.map _)
  · rw [listSchemas, Except.map, ← List.map_append, filter_append_filter]
    refine hschemas.ordered.imp ?_
    rintro a b (⟨-, hb⟩ | ⟨hab, -⟩) ha
    · exact hb
    · exact hab.symm.trans ha

def twoSchemas : Catalog where
  databases := [⟨['d'], false, 5⟩, ⟨['t'], true, 5⟩]
  namespaces := [⟨11, "pg_catalog".toList, 5⟩, ⟨1, ['s'], 5⟩, ⟨2, ['a'], 5⟩]
  classes := []
  procs := []
  types := []
  attributes := []
  attrdefs := []
  pgGetUserbyid _ := ['o']
  formatType _ := []
  databaseName := shop.databaseName
  namespaceOid := by decide
  namespaceName := by decide
  classOid := by decide
  className := by decide
  typeOid := by decide
  typeName := by decide
  attributeNum := by decide
  attrdefNum := by decide

theorem tree_listed_twoSchemas : ∃ shown users systems,
    listDatabases (E := Unit) (.ok (databasesQuery twoSchemas)) = .ok shown ∧
      shown = [⟨['d'], false, ['o']⟩] ∧
      listSchemas (E := Unit) (.ok (schemasQuery twoSchemas).reverse) = .ok (users ++ systems) ∧
      systems = [⟨"pg_catalog".toList, ['o'], true⟩] := by
  have hschemas : Answers schemaLe (schemasQuery twoSchemas) (schemasQuery twoSchemas).reverse :=
    ⟨List.reverse_perm _, by decide⟩
  obtain ⟨shown, users, systems, hshown, hdatabases, hlisted, -, hsystems⟩ :=
    tree_listed Unit twoSchemas twoSchemas _ _ ⟨.refl _, by decide⟩ hschemas
  exact ⟨shown, users, systems, hshown, List.perm_singleton.mp hdatabases.answers.same, hlisted,
    List.perm_singleton.mp hsystems.answers.same⟩

end SshCommander.DatabaseTree
