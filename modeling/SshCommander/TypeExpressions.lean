import SshCommander.EditSql
import Mathlib.Algebra.GroupWithZero.Nat

/-!
# Type expressions inside the statements they are put in

`validate_type_expression` checks characters and quotes. The statement keeps its shape exactly
where the brackets of the expression are its own and no comma or WHERE stands outside them.
-/

namespace SshCommander.TypeExpressions
open RustText PooledConnection RowEditing SqlTokens EditSql

/-- One SET target, the column's, and the WHERE clause of the builder. -/
def UpdateShape (schema table column sql : Text) : Prop :=
  ∃ value, readUpdate (tokenise sql) =
    some ⟨schema, table, [.quoted column :: .symbol '=' :: value], ctidTokens 2⟩

/-- One VALUES tuple, with one expression for each input column. -/
def InsertShape (schema table : Text) (inputs : List InsertColumnInput) (sql : Text) : Prop :=
  ∃ values aliases, readInsert (tokenise sql) =
    some ⟨schema, table, inputs.map (·.name), values, aliases⟩ ∧ values.length = inputs.length

/-- Outside its quotes the expression closes its own brackets, and has no comma outside them. -/
structure Contained (ts : List Token) : Prop where
  balanced : BracketsClosed ts
  single : .symbol ',' ∉ topTokens [] ts

theorem balanced_append {a b : List Token} (ha : BracketsClosed a) : BracketsClosed (a ++ b) ↔ BracketsClosed b := by
  rw [BracketsClosed, nest_append, ha]
  rfl

theorem balanced_cons_plain {t : Token} (ht : push t [] = some []) (ts : List Token) :
    BracketsClosed (t :: ts) ↔ BracketsClosed ts := by
  rw [BracketsClosed, nest, ht]
  rfl

theorem balanced_joinTokens {parts : List (List Token)} (h : ∀ p ∈ parts, BracketsClosed p) :
    BracketsClosed (joinTokens parts) := by
  induction parts with
  | nil => rfl
  | cons p ps ih =>
    have hp := h p (by simp)
    have hps := ih fun q hq => h q (List.mem_cons_of_mem _ hq)
    cases ps with
    | nil => exact hp
    | cons q qs =>
      rw [joinTokens, balanced_append hp, balanced_cons_plain rfl]
      · exact hps
      · simp

/-- The commas at the top of a list are those that join it and those of its parts. -/
theorem count_joinTokens {parts : List (List Token)} (hne : parts ≠ [])
    (h : ∀ p ∈ parts, BracketsClosed p) :
    (topTokens [] (joinTokens parts)).count (.symbol ',') + 1 =
      (parts.map fun p => (topTokens [] p).count (.symbol ',')).sum + parts.length := by
  induction parts with
  | nil => exact absurd rfl hne
  | cons p ps ih =>
    have hp := h p (by simp)
    cases ps with
    | nil => simp [joinTokens]
    | cons q qs =>
      have hps := ih (by simp) fun r hr => h r (List.mem_cons_of_mem _ hr)
      have hjoin : joinTokens (p :: q :: qs) = p ++ .symbol ',' :: joinTokens (q :: qs) := rfl
      have htop : topTokens [] (.symbol ',' :: joinTokens (q :: qs)) =
          .symbol ',' :: topTokens [] (joinTokens (q :: qs)) := rfl
      rw [hjoin, topTokens_append hp, htop, List.count_append, List.count_cons_self, List.map_cons,
        List.sum_cons, List.length_cons]
      omega

/-- As many expressions as were joined, exactly where none has a comma of its own. -/
theorem length_commaParts_joinTokens {parts : List (List Token)} (hne : parts ≠ [])
    (h : ∀ p ∈ parts, BracketsClosed p) :
    (commaParts [] (joinTokens parts)).length = parts.length ↔
      ∀ p ∈ parts, .symbol ',' ∉ topTokens [] p := by
  have hcount := count_joinTokens hne h
  rw [length_commaParts]
  constructor
  · intro hlen p hp
    apply List.count_eq_zero.mp
    have hzero : (parts.map fun p => (topTokens [] p).count (.symbol ',')).sum = 0 := by omega
    exact List.sum_eq_zero_iff_forall_eq_nat.mp hzero _ (List.mem_map_of_mem hp)
  · intro hall
    have hzero : (parts.map fun p => (topTokens [] p).count (.symbol ',')).sum = 0 := by
      apply List.sum_eq_zero_iff_forall_eq_nat.mpr
      intro n hn
      obtain ⟨p, hp, rfl⟩ := List.mem_map.mp hn
      exact List.count_eq_zero.mpr (hall p hp)
    omega

theorem commaParts_joinTokens {parts : List (List Token)} (hne : parts ≠ [])
    (h : ∀ p ∈ parts, Contained p) : commaParts [] (joinTokens parts) = parts := by
  induction parts with
  | nil => exact absurd rfl hne
  | cons p ps ih =>
    have hp := h p (by simp)
    cases ps with
    | nil => exact commaParts_of_top hp.single
    | cons q qs =>
      have hps := ih (by simp) fun r hr => h r (List.mem_cons_of_mem _ hr)
      have hjoin : joinTokens (p :: q :: qs) = p ++ .symbol ',' :: joinTokens (q :: qs) := rfl
      rw [hjoin, commaParts_cons hp.balanced hp.single, hps]

/-- No bracket that is its own closes at the top. -/
theorem close_notMem_top {stack stack' : List Char} {ts : List Token}
    (h : nest stack ts = some stack') : .symbol ')' ∉ topTokens stack ts := by
  induction ts generalizing stack with
  | nil => exact List.not_mem_nil
  | cons t ts ih =>
    rw [nest] at h
    obtain ⟨next, hpush, hnest⟩ := Option.bind_eq_some_iff.mp h
    rw [topTokens, List.mem_append, not_or, hpush, Option.getD_some]
    refine ⟨?_, ih hnest⟩
    intro hm
    by_cases hstack : stack = []
    · rw [if_pos hstack] at hm
      rw [← List.mem_singleton.mp hm, hstack] at hpush
      cases hpush
    · rw [if_neg hstack] at hm
      cases hm

theorem readGroup_balanced {ts : List Token} (h : BracketsClosed ts) (rest : List Token) :
    readGroup (.symbol '(' :: (ts ++ .symbol ')' :: rest)) = some (ts, rest) := by
  rw [readGroup, if_pos rfl]
  apply upTo_stop h
  · intro t ht
    rw [beq_eq_false_iff_ne]
    rintro rfl
    exact close_notMem_top h ht
  · rfl

theorem contained_quoted (name : Text) : Contained [.quoted name] := ⟨rfl, by simp [topTokens]⟩

theorem contained_returning (name : Text) : Contained (returningTokens name) := by
  rw [returningTokens]
  split_ifs
  · exact ⟨rfl, by simp [topTokens, push]⟩
  · exact ⟨rfl, by simp [topTokens, push]⟩

theorem mapM_map_some {α β γ : Type} {f : α → Option β} {g : γ → α} {k : γ → β}
    (h : ∀ x, f (g x) = some (k x)) (xs : List γ) : (xs.map g).mapM f = some (xs.map k) := by
  induction xs with
  | nil => rfl
  | cons x xs ih =>
    rw [List.map_cons, List.mapM_cons, h, ih]
    rfl

theorem readAlias_returning (name : Text) : readAlias (returningTokens name) = some name := by
  have hreverse : (returningTokens name).reverse = .quoted name :: .word "AS".toList ::
      ((returningTokens name).take 4).reverse := rfl
  rw [readAlias, hreverse]
  exact if_pos rfl

theorem returned_ne_nil (returnColumns : List Text) : returned returnColumns ≠ [] := by
  rw [returned]
  split_ifs with h
  · simp
  · exact h

theorem readAliases (returnColumns : List Text) :
    (commaParts [] (joinTokens ((returned returnColumns).map returningTokens))).mapM readAlias =
      some (returned returnColumns) := by
  have hparts : commaParts [] (joinTokens ((returned returnColumns).map returningTokens)) =
      (returned returnColumns).map returningTokens := by
    apply commaParts_joinTokens
    · simpa using returned_ne_nil returnColumns
    · intro p hp
      obtain ⟨name, -, rfl⟩ := List.mem_map.mp hp
      exact contained_returning name
  rw [hparts, mapM_map_some readAlias_returning, List.map_id']

theorem readUpdate_set (schema table : Text) (rest : List Token) :
    readUpdate (.word "UPDATE".toList :: .quoted schema :: .symbol '.' :: .quoted table ::
        .word "SET".toList :: rest) =
      (upTo isWhere [] rest).map fun p => ⟨schema, table, commaParts [] p.1, p.2⟩ := by
  have hupdate (ts : List Token) :
      readWords ["UPDATE".toList] (.word "UPDATE".toList :: ts) = some ts := rfl
  have hset (ts : List Token) : readWords ["SET".toList] (.word "SET".toList :: ts) = some ts := rfl
  have hname (ts : List Token) : readQualified (.quoted schema :: .symbol '.' :: .quoted table :: ts) =
      some (schema, table, ts) := rfl
  rw [readUpdate, hupdate]
  simp only [Option.bind_eq_bind, Option.bind_some, hname, hset]
  cases upTo isWhere [] rest with
  | none => rfl
  | some p => rfl

/-- The names and the expressions stand in the two lists the builder wrote. -/
theorem readInsert_tuple (schema table : Text) {inputs : List InsertColumnInput} (hne : inputs ≠ [])
    {values : List Token} (hvalues : BracketsClosed values) (returnColumns : List Text) :
    readInsert (insertTokens schema table
        (.symbol '(' :: (joinTokens (inputs.map fun i => [.quoted i.name]) ++ .symbol ')' ::
          .word "VALUES".toList :: .symbol '(' :: (values ++ .symbol ')' ::
            .word "RETURNING".toList :: joinTokens ((returned returnColumns).map returningTokens))))) =
      some ⟨schema, table, inputs.map (·.name), commaParts [] values, returned returnColumns⟩ := by
  have hcontained : ∀ p ∈ inputs.map fun i => [Token.quoted i.name], Contained p := by
    intro p hp
    obtain ⟨i, -, rfl⟩ := List.mem_map.mp hp
    exact contained_quoted i.name
  have hbalanced := balanced_joinTokens fun p hp => (hcontained p hp).balanced
  have hparts := commaParts_joinTokens (by simpa using hne) hcontained
  have hnames : (inputs.map fun i => [Token.quoted i.name]).mapM readName =
      some (inputs.map (·.name)) := mapM_map_some (f := readName) (g := fun i : InsertColumnInput => [Token.quoted i.name])
      (k := (·.name)) (fun i => rfl) inputs
  have halias := readAliases returnColumns
  simp [readInsert, insertTokens, readWords, readQualified, readGroup_balanced hbalanced,
    readGroup_balanced hvalues, hparts, hnames, halias]

theorem nest_castTokens (k : ℕ) : nest [] (castTokens k) = some [] := rfl

theorem topTokens_castTokens (k : ℕ) (ts : List Token) :
    topTokens [] (castTokens k ++ ts) = castTokens k ++ topTokens [] ts := by
  rw [topTokens_append (nest_castTokens k)]
  rfl

theorem balanced_cast (k : ℕ) (ts : List Token) : BracketsClosed (castTokens k ++ ts) ↔ BracketsClosed ts :=
  balanced_append (nest_castTokens k)

theorem comma_notMem_cast (k : ℕ) (ts : List Token) :
    .symbol ',' ∉ topTokens [] (castTokens k ++ ts) ↔ .symbol ',' ∉ topTokens [] ts := by
  rw [topTokens_castTokens]
  simp [castTokens]

theorem contained_cast {ts : List Token} (k : ℕ) (h : Contained ts) : Contained (castTokens k ++ ts) :=
  ⟨(balanced_cast k ts).mpr h.balanced, (comma_notMem_cast k ts).mpr h.single⟩

theorem topTokens_setTokens (column : Text) (value : List Token) :
    topTokens [] (setTokens column value) =
      .quoted column :: .symbol '=' :: topTokens [] value := rfl

theorem contained_setTokens (column : Text) {value : List Token} :
    Contained (setTokens column value) ↔ Contained value := by
  have hmem : Token.symbol ',' ∈ topTokens [] (setTokens column value) ↔
      .symbol ',' ∈ topTokens [] value := by
    rw [topTokens_setTokens]
    simp
  constructor
  · rintro ⟨hbalanced, hsingle⟩
    exact ⟨hbalanced, fun hm => hsingle (hmem.mpr hm)⟩
  · rintro ⟨hbalanced, hsingle⟩
    exact ⟨hbalanced, fun hm => hsingle (hmem.mp hm)⟩

theorem isWhere_cast {ts : List Token} (k : ℕ) (h : ∀ t ∈ topTokens [] ts, isWhere t = false) :
    ∀ t ∈ topTokens [] (castTokens k ++ ts), isWhere t = false := by
  intro t ht
  rw [topTokens_castTokens, List.mem_append] at ht
  rcases ht with ht | ht
  · have hdollar : isWhere (.word ('$' :: (toString k).toList)) = false := by
      rw [isWhere, beq_eq_false_iff_ne, List.map_cons]
      intro heq
      exact absurd (List.cons.inj heq).1 (by decide)
    have htext : isWhere (.word "text".toList) = false := by decide
    simp only [castTokens, List.mem_cons, List.not_mem_nil, or_false] at ht
    rcases ht with rfl | rfl | rfl | rfl | rfl | rfl
    · exact hdollar
    · rfl
    · rfl
    · exact htext
    · rfl
    · rfl
  · exact h t ht

theorem isWhere_setTokens (column : Text) {value : List Token} :
    (∀ t ∈ topTokens [] (setTokens column value), isWhere t = false) ↔
      ∀ t ∈ topTokens [] value, isWhere t = false := by
  rw [topTokens_setTokens]
  simp [isWhere]

theorem readUpdate_where {value : List Token} (h : BracketsClosed value)
    (hwhere : ∀ t ∈ topTokens [] value, isWhere t = false) (schema table column : Text)
    (condition : List Token) :
    readUpdate (updateTokens schema table column value condition) =
      some ⟨schema, table, commaParts [] (setTokens column value), condition⟩ := by
  have hset : BracketsClosed (setTokens column value) := h
  have hstop : isWhere (.word "WHERE".toList) = true := by decide
  rw [updateTokens, readUpdate_set, upTo_stop hset ((isWhere_setTokens column).mpr hwhere) hstop,
    Option.map_some]

theorem readUpdate_contained {value : List Token} (h : Contained value)
    (hwhere : ∀ t ∈ topTokens [] value, isWhere t = false) (schema table column : Text)
    (condition : List Token) :
    readUpdate (updateTokens schema table column value condition) =
      some ⟨schema, table, [setTokens column value], condition⟩ := by
  rw [readUpdate_where h.balanced hwhere, commaParts_of_top ((contained_setTokens column).mpr h).single]

/-- The SET clause ends where the builder wrote WHERE exactly if no WHERE stands in it. -/
theorem updateReading_iff {value : List Token} (hvalue : BracketsClosed value)
    (schema table column : Text) (condition : List Token) :
    (∃ v, readUpdate (updateTokens schema table column value condition) =
      some ⟨schema, table, [.quoted column :: .symbol '=' :: v], condition⟩) ↔
    .symbol ',' ∉ topTokens [] value ∧ ∀ t ∈ topTokens [] value, isWhere t = false := by
  by_cases hnone : ∀ t ∈ topTokens [] value, isWhere t = false
  · constructor
    · rintro ⟨v, hv⟩
      have hparts := length_commaParts [] (setTokens column value)
      rw [readUpdate_where hvalue hnone] at hv
      have htargets : commaParts [] (setTokens column value) = [.quoted column :: .symbol '=' :: v] :=
        congrArg UpdateReading.targets (Option.some.inj hv)
      rw [htargets, List.length_singleton] at hparts
      have hzero : (topTokens [] (setTokens column value)).count (.symbol ',') = 0 := by omega
      refine ⟨fun hm => List.count_eq_zero.mp hzero ?_, hnone⟩
      rw [topTokens_setTokens]
      exact List.mem_cons_of_mem _ (List.mem_cons_of_mem _ hm)
    · rintro ⟨hcomma, -⟩
      exact ⟨value, readUpdate_contained ⟨hvalue, hcomma⟩ hnone schema table column condition⟩
  · constructor
    · rintro ⟨v, hv⟩
      obtain ⟨t, ht, hstop⟩ : ∃ t ∈ topTokens [] (setTokens column value), isWhere t = true := by
        by_contra hall
        apply hnone
        rw [← isWhere_setTokens column]
        simpa using hall
      have hset : BracketsClosed (setTokens column value) := hvalue
      obtain ⟨before, t', after, -, hup⟩ := upTo_inside hset
        ⟨t, ht, hstop⟩ (.word "WHERE".toList :: condition)
      rw [updateTokens, readUpdate_set, hup, Option.map_some] at hv
      -- what follows the first WHERE is longer than the builder's own condition
      have hlen := congrArg (fun r => r.condition.length) (Option.some.inj hv)
      simp only [List.length_append, List.length_cons] at hlen
      omega
    · rintro ⟨-, hall⟩
      exact absurd hall hnone

theorem balanced_valueTokens (input : InsertColumnInput × ℕ) :
    BracketsClosed (valueTokens input) ↔ BracketsClosed (tokenise (trim input.1.typeName)) :=
  balanced_cast (input.2 + 1) _

/-- One expression for each input column exactly if no type has a comma of its own. -/
theorem length_tuple_iff {inputs : List InsertColumnInput} (hne : inputs ≠ [])
    (h : ∀ i ∈ inputs, BracketsClosed (tokenise (trim i.typeName))) :
    (commaParts [] (joinTokens ((inputs.zipIdx 0).map valueTokens))).length = inputs.length ↔
      ∀ i ∈ inputs, .symbol ',' ∉ topTokens [] (tokenise (trim i.typeName)) := by
  have hlen : ((inputs.zipIdx 0).map valueTokens).length = inputs.length := by simp
  have hbalanced : ∀ p ∈ (inputs.zipIdx 0).map valueTokens, BracketsClosed p := by
    intro p hp
    obtain ⟨x, hx, rfl⟩ := List.mem_map.mp hp
    exact (balanced_valueTokens x).mpr (h x.1 (List.fst_mem_of_mem_zipIdx hx))
  rw [← hlen, length_commaParts_joinTokens (by simpa using hne) hbalanced]
  constructor
  · intro hall i hi
    obtain ⟨k, hk, rfl⟩ := List.getElem_of_mem hi
    apply (comma_notMem_cast (k + 1) _).mp
    apply hall
    apply List.mem_map_of_mem (f := valueTokens) (a := (inputs[k], k))
    exact List.mk_mem_zipIdx_iff_getElem?.mpr (List.getElem?_eq_getElem hk)
  · intro hall p hp
    obtain ⟨x, hx, rfl⟩ := List.mem_map.mp hp
    exact (comma_notMem_cast _ _).mpr (hall x.1 (List.fst_mem_of_mem_zipIdx hx))

/-- An accepted expression leaves both statements in shape exactly where its brackets are its own
and no comma (in an UPDATE, no WHERE either) stands outside them. -/
theorem shape_iff (schema table column value ctid : Text) {columnType ty : Text}
    (hty : validateTypeExpression columnType = .ok ty) {inputs : List InsertColumnInput}
    (hinputs : TypesAccepted inputs) (hne : inputs ≠ []) (returnColumns : List Text) :
    ((BracketsClosed (tokenise ty) ∧ ∃ sql params,
        sent (updateCell schema table column columnType (some value) ctid) = some (sql, params) ∧
          UpdateShape schema table column sql) ↔
      Contained (tokenise ty) ∧ ∀ t ∈ topTokens [] (tokenise ty), isWhere t = false) ∧
    (((∀ i ∈ inputs, BracketsClosed (tokenise (trim i.typeName))) ∧ ∃ sql params,
        sent (insertRow schema table inputs returnColumns) = some (sql, params) ∧
          InsertShape schema table inputs sql) ↔
      ∀ i ∈ inputs, Contained (tokenise (trim i.typeName))) := by
  constructor
  · obtain ⟨sql, hsent, htokens⟩ := sent_updateCell_value hty schema table column value ctid
    have hshape (hb : BracketsClosed (tokenise ty)) : UpdateShape schema table column sql ↔
        .symbol ',' ∉ topTokens [] (tokenise ty) ∧
          ∀ t ∈ topTokens [] (tokenise ty), isWhere t = false := by
      have hread := updateReading_iff ((balanced_cast 1 _).mpr hb) schema table column (ctidTokens 2)
      rw [UpdateShape, htokens, hread, comma_notMem_cast]
      refine and_congr_right fun _ => ⟨fun h t ht => h t ?_, isWhere_cast 1⟩
      rw [topTokens_castTokens]
      exact List.mem_append_right _ ht
    constructor
    · rintro ⟨hb, sql', params, hsent', hupdate⟩
      rw [hsent] at hsent'
      obtain ⟨rfl, -⟩ := Prod.mk.inj (Option.some.inj hsent')
      obtain ⟨hcomma, hwhere⟩ := (hshape hb).mp hupdate
      exact ⟨⟨hb, hcomma⟩, hwhere⟩
    · rintro ⟨⟨hb, hcomma⟩, hwhere⟩
      exact ⟨hb, sql, _, hsent, (hshape hb).mpr ⟨hcomma, hwhere⟩⟩
  · obtain ⟨sql, hsent, htokens⟩ := sent_insertRow schema table hinputs hne returnColumns
    have hshape (hb : ∀ i ∈ inputs, BracketsClosed (tokenise (trim i.typeName))) :
        InsertShape schema table inputs sql ↔
          ∀ i ∈ inputs, .symbol ',' ∉ topTokens [] (tokenise (trim i.typeName)) := by
      have htuple : BracketsClosed (joinTokens ((inputs.zipIdx 0).map valueTokens)) := by
        apply balanced_joinTokens
        intro p hp
        obtain ⟨x, hx, rfl⟩ := List.mem_map.mp hp
        exact (balanced_valueTokens x).mpr (hb x.1 (List.fst_mem_of_mem_zipIdx hx))
      have hread := readInsert_tuple schema table hne htuple returnColumns
      rw [InsertShape, htokens, hread, ← length_tuple_iff hne hb]
      constructor
      · rintro ⟨values, aliases, hv, hlen⟩
        have hvalues : _ = values := congrArg InsertReading.values (Option.some.inj hv)
        rw [← hlen, ← hvalues]
      · intro hlen
        exact ⟨_, _, rfl, hlen⟩
    constructor
    · rintro ⟨hb, sql', params, hsent', hinsert⟩
      rw [hsent] at hsent'
      obtain ⟨rfl, -⟩ := Prod.mk.inj (Option.some.inj hsent')
      exact fun i hi => ⟨hb i hi, (hshape hb).mp hinsert i hi⟩
    · intro hall
      have hb := fun i hi => (hall i hi).balanced
      exact ⟨hb, sql, _, hsent, (hshape hb).mpr fun i hi => (hall i hi).single⟩

def amountInput : InsertColumnInput := ⟨"amount".toList, "numeric(10,2)".toList, some "3.5".toList⟩

theorem contained_numeric : Contained (tokenise "numeric(10,2)".toList) :=
  ⟨by decide, by decide⟩

theorem shape_iff_numeric :
    (BracketsClosed (tokenise "numeric(10,2)".toList) ∧ ∃ sql params,
      sent (updateCell "s".toList "t".toList "amount".toList "numeric(10,2)".toList
        (some "3.5".toList) "(0,1)".toList) = some (sql, params) ∧
        UpdateShape "s".toList "t".toList "amount".toList sql) ∧
    ((∀ i ∈ [amountInput], BracketsClosed (tokenise (trim i.typeName))) ∧ ∃ sql params,
      sent (insertRow "s".toList "t".toList [amountInput] []) = some (sql, params) ∧
        InsertShape "s".toList "t".toList [amountInput] sql) := by
  have htype : validateTypeExpression "numeric(10,2)".toList = .ok "numeric(10,2)".toList := by decide
  have htrim : trim amountInput.typeName = "numeric(10,2)".toList := by decide
  have haccepted : TypesAccepted [amountInput] := by
    intro i hi
    obtain rfl := List.mem_singleton.mp hi
    exact htype.trans (congrArg Except.ok htrim.symm)
  have hwhere : (topTokens [] (tokenise "numeric(10,2)".toList)).all (fun t => !isWhere t) = true := by
    decide
  have h := shape_iff "s".toList "t".toList "amount".toList "3.5".toList "(0,1)".toList htype
    haccepted (by simp) []
  constructor
  · apply h.1.mpr
    exact ⟨contained_numeric, by simpa using hwhere⟩
  · apply h.2.mpr
    intro i hi
    obtain rfl := List.mem_singleton.mp hi
    rw [htrim]
    exact contained_numeric

/-- An accepted type that closes the tuple and opens another. -/
def secondRow : InsertColumnInput := ⟨"a".toList, "int4), (default".toList, some "1".toList⟩

def secondRowSql : Text :=
  "INSERT INTO \"s\".\"t\" (\"a\") VALUES ($1::text::int4), (default) ".toList ++
    "RETURNING ctid::text AS \"__pg_rowid__\"".toList

theorem secondRow_escapes :
    validateTypeExpression secondRow.typeName = .ok secondRow.typeName ∧
    ¬BracketsClosed (tokenise secondRow.typeName) ∧
    (sent (insertRow "s".toList "t".toList [secondRow] [])).map (·.1) =
      some secondRowSql ∧
    ¬∃ sql params, sent (insertRow "s".toList "t".toList [secondRow] []) = some (sql, params) ∧
      InsertShape "s".toList "t".toList [secondRow] sql := by
  have hsent : (sent (insertRow "s".toList "t".toList [secondRow] [])).map (·.1) =
      some secondRowSql := by
    decide
  have hread : readInsert (tokenise secondRowSql) = none := by
    decide
  refine ⟨by decide, by decide, hsent, ?_⟩
  rintro ⟨sql, params, hs, values, aliases, hv, -⟩
  rw [hs] at hsent
  have hsql : sql = secondRowSql := Option.some.inj hsent
  rw [hsql, hread] at hv
  cases hv

end SshCommander.TypeExpressions
