import SshCommander.TypeExpressions

/-!
# Row edits, read back

The text of an edit gives the names it was built from, and pairs the k-th column with the k-th
placeholder, bound to the k-th value.
-/

namespace SshCommander.EditRoundTrip
open InteractionPrograms RustText PooledConnection RowEditing SqlTokens EditSql TypeExpressions

/-- An unquoted name, and not the reserved word that ends the SET clause. -/
structure PlainName (s : Text) : Prop where
  nonempty : trim s ≠ []
  word : (trim s).all wordChar = true
  notWhere : isWhere (.word (trim s)) = false

/-- `$k::text::name` -/
def typedPlaceholder (k : ℕ) (typeName : Text) : List Token :=
  castTokens k ++ [.word (trim typeName)]

theorem wordChar_not_quote {c : Char} (h : wordChar c = true) : c ≠ '"' := by
  rintro rfl
  cases h

/-- A text of word characters is one word. -/
theorem tokenise_word {s : Text} (hne : s ≠ []) (h : ∀ c ∈ s, wordChar c = true) :
    tokenise s = [.word s] := by
  cases s with
  | nil => exact absurd rfl hne
  | cons c cs =>
    have hc := h c (by simp)
    have hstart : scanChar .idle c = ([], .word [c]) := by
      rw [scanChar, start, if_neg (wordChar_not_quote hc), if_pos hc]
    have hrest := scan_word [c] cs fun d hd => h d (List.mem_cons_of_mem _ hd)
    rw [tokenise, scan]
    simp only [hstart, hrest]
    rfl

theorem contained_word (text : Text) : Contained [.word text] := ⟨rfl, by simp [topTokens]⟩

theorem tokenise_plain {typeName ty : Text} (hplain : PlainName typeName)
    (h : validateTypeExpression typeName = .ok ty) : ty = trim typeName ∧ tokenise ty = [.word ty] := by
  obtain ⟨rfl, haccepted⟩ := accepted_of_ok h
  exact ⟨rfl, tokenise_word haccepted.nonempty (List.all_eq_true.mp hplain.word)⟩

/-- Of the characters of names, `typeChar` has the ASCII letters, the digits and the underscore. -/
def InAlphabet (s : Text) : Prop := (trim s).all typeChar = true

instance (s : Text) : Decidable (InAlphabet s) := inferInstanceAs (Decidable (_ = _))

theorem endsQuoted_unquoted {s : Text} (h : ∀ c ∈ s, c ≠ '"') : endsQuoted false s = false := by
  induction s with
  | nil => rfl
  | cons c cs ih =>
    rw [endsQuoted_other (h c (by simp)), ih fun d hd => h d (List.mem_cons_of_mem _ hd)]

theorem validate_plain {s : Text} (hplain : PlainName s) :
    validateTypeExpression s = .ok (trim s) ↔ InAlphabet s := by
  constructor
  · intro h
    exact List.all_eq_true.mpr (accepted_of_ok h).2.chars
  · intro h
    have hempty : ¬(trim s).isEmpty = true := by simpa using hplain.nonempty
    have hchars : ¬(!(trim s).all typeChar) = true := by
      rw [show (trim s).all typeChar = true from h]
      decide
    have hquoted : ¬endsQuoted false (trim s) = true := by
      rw [endsQuoted_unquoted fun c hc =>
        wordChar_not_quote (List.all_eq_true.mp hplain.word c hc)]
      decide
    simp only [validateTypeExpression]
    rw [if_neg hempty, if_neg hchars, if_neg hquoted]

theorem validate_refused {s : Text} (hplain : PlainName s) (h : ¬InAlphabet s) :
    ∃ e, validateTypeExpression s = .error e := by
  cases hv : validateTypeExpression s with
  | error e => exact ⟨e, rfl⟩
  | ok ty =>
    have hty := (accepted_of_ok hv).1
    exact absurd ((validate_plain hplain).mp (hv.trans (congrArg _ hty))) h

theorem placeholders_error {inputs : List InsertColumnInput} (h : ¬TypesAccepted inputs) (idx : ℕ) :
    ∃ e, placeholders idx inputs = .error e := by
  induction inputs generalizing idx with
  | nil => exact absurd (fun i hi => by cases hi) h
  | cons i rest ih =>
    cases hi : validateTypeExpression i.typeName with
    | error e => exact ⟨e, by simp only [placeholders, hi]⟩
    | ok ty =>
      have hrest : ¬TypesAccepted rest := by
        intro hrest
        apply h
        intro j hj
        rcases List.mem_cons.mp hj with rfl | hj
        · rw [hi, (accepted_of_ok hi).1]
        · exact hrest j hj
      obtain ⟨e, he⟩ := ih hrest (idx + 1)
      exact ⟨e, by simp only [placeholders, hi, he]⟩

theorem sent_insertRow_refused (schema table : Text) {inputs : List InsertColumnInput}
    (h : ¬TypesAccepted inputs) (returnColumns : List Text) :
    sent (insertRow schema table inputs returnColumns) = none := by
  have hne : inputs ≠ [] := by
    rintro rfl
    exact h fun i hi => by cases hi
  obtain ⟨e, he⟩ := placeholders_error h 0
  have hclauses : insertClauses inputs = .error e := by
    rw [insertClauses, if_neg (by simpa using hne), he]
  simp only [insertRow, hclauses]
  rfl

theorem sent_updateCell_refused (schema table column value ctid : Text) {columnType : Text}
    {e : PgError} (h : validateTypeExpression columnType = .error e) :
    sent (updateCell schema table column columnType (some value) ctid) = none := by
  simp only [updateCell, h]
  rfl

/-- The names, the placeholders and the values of an INSERT stand in one order. -/
def InsertReadsBack (schema table : Text) (inputs : List InsertColumnInput)
    (returnColumns : List Text) : Prop :=
  ∃ sql, sent (insertRow schema table inputs returnColumns) =
      some (sql, inputs.map (.text ·.value)) ∧
    readInsert (tokenise sql) = some ⟨schema, table, inputs.map (·.name),
      (inputs.zipIdx 1).map fun input => typedPlaceholder input.2 input.1.typeName,
      returned returnColumns⟩

/-- The one column is set to the first placeholder, or to NULL without one. -/
def UpdateReadsBack (schema table column columnType ctid : Text) : Option Text → Prop
  | some value => ∃ sql, sent (updateCell schema table column columnType (some value) ctid) =
        some (sql, [.text (some value), .text (some ctid)]) ∧
      readUpdate (tokenise sql) = some ⟨schema, table,
        [.quoted column :: .symbol '=' :: typedPlaceholder 1 columnType], ctidTokens 2⟩
  | none => ∃ sql, sent (updateCell schema table column columnType none ctid) =
        some (sql, [.text (some ctid)]) ∧
      readUpdate (tokenise sql) = some ⟨schema, table,
        [[.quoted column, .symbol '=', .word "NULL".toList]], ctidTokens 1⟩

def anyTokens : List Token := tokenise "ctid = ANY($1::text[]::tid[])".toList

def DeleteReadsBack (schema table : Text) (ctids : List Text) : Prop :=
  ∃ sql, sent (deleteRows schema table ctids) = some (sql, [.texts ctids]) ∧
    readDelete (tokenise sql) = some ⟨schema, table, anyTokens⟩

theorem zipIdx_tuple {inputs : List InsertColumnInput}
    (hplain : ∀ i ∈ inputs, PlainName i.typeName) (h : TypesAccepted inputs) (idx : ℕ) :
    (inputs.zipIdx idx).map valueTokens =
      (inputs.zipIdx (idx + 1)).map fun input => typedPlaceholder input.2 input.1.typeName := by
  induction inputs generalizing idx with
  | nil => rfl
  | cons i rest ih =>
    have hi := (tokenise_plain (hplain i (by simp)) (h i (by simp))).2
    have hrest := ih (fun j hj => hplain j (List.mem_cons_of_mem _ hj))
      (fun j hj => h j (List.mem_cons_of_mem _ hj)) (idx + 1)
    rw [List.zipIdx_cons, List.zipIdx_cons, List.map_cons, List.map_cons, hrest, valueTokens, hi]
    rfl

theorem insertRow_readsBack (schema table : Text) {inputs : List InsertColumnInput}
    (hplain : ∀ i ∈ inputs, PlainName i.typeName) (h : TypesAccepted inputs)
    (returnColumns : List Text) : InsertReadsBack schema table inputs returnColumns := by
  by_cases hne : inputs = []
  · subst hne
    obtain ⟨sql, hsent, htokens⟩ := sent_insertRow_default schema table returnColumns
    refine ⟨sql, hsent, ?_⟩
    have halias := readAliases returnColumns
    rw [htokens]
    simp [readInsert, insertTokens, readWords, readQualified, halias]
  · obtain ⟨sql, hsent, htokens⟩ := sent_insertRow schema table h hne returnColumns
    have hcontained : ∀ p ∈ (inputs.zipIdx 0).map valueTokens, Contained p := by
      intro p hp
      obtain ⟨x, hx, rfl⟩ := List.mem_map.mp hp
      have hi := List.fst_mem_of_mem_zipIdx hx
      rw [valueTokens, (tokenise_plain (hplain x.1 hi) (h x.1 hi)).2]
      exact contained_cast _ (contained_word _)
    have hbalanced := balanced_joinTokens fun p hp => (hcontained p hp).balanced
    have hparts := commaParts_joinTokens (by simpa using hne) hcontained
    refine ⟨sql, hsent, ?_⟩
    rw [htokens, readInsert_tuple schema table hne hbalanced, hparts, zipIdx_tuple hplain h 0]

theorem isWhere_word {text : Text} (h : isWhere (.word text) = false) :
    ∀ t ∈ topTokens [] [.word text], isWhere t = false := by
  intro t ht
  rw [List.mem_singleton.mp ht]
  exact h

theorem updateCell_null_readsBack (schema table column columnType ctid : Text) :
    UpdateReadsBack schema table column columnType ctid none := by
  obtain ⟨sql, hsent, htokens⟩ := sent_updateCell_null schema table column columnType ctid
  have hnull : isWhere (.word "NULL".toList) = false := by decide
  refine ⟨sql, hsent, ?_⟩
  rw [htokens, readUpdate_contained (contained_word _) (isWhere_word hnull)]
  rfl

theorem updateCell_readsBack (schema table column ctid : Text) {columnType ty : Text}
    (hplain : PlainName columnType) (h : validateTypeExpression columnType = .ok ty)
    (value : Text) : UpdateReadsBack schema table column columnType ctid (some value) := by
  obtain ⟨sql, hsent, htokens⟩ := sent_updateCell_value h schema table column value ctid
  obtain ⟨rfl, hword⟩ := tokenise_plain hplain h
  have hwhere := isWhere_cast 1 (isWhere_word hplain.notWhere)
  refine ⟨sql, hsent, ?_⟩
  rw [htokens, hword, readUpdate_contained (contained_cast 1 (contained_word _)) hwhere]
  rfl

theorem deleteRows_readsBack (schema table : Text) {ctids : List Text} (h : ctids ≠ []) :
    DeleteReadsBack schema table ctids := by
  obtain ⟨sql, hsent, htokens⟩ := sent_deleteRows schema table h
  have hwhere : tokenise " WHERE ctid = ANY($1::text[]::tid[])".toList =
      .word "WHERE".toList :: anyTokens := by decide
  refine ⟨sql, hsent, ?_⟩
  rw [htokens, hwhere]
  simp [readDelete, readWords, readQualified]

/-- Every edit that is sent reads back as what it was built from; none is sent for a type with a
character outside the alphabet, or without ctids. -/
theorem edits_readBack (schema table column ctid : Text) {inputs : List InsertColumnInput}
    (hinputs : ∀ i ∈ inputs, PlainName i.typeName) {columnType : Text}
    (hcolumn : PlainName columnType) (returnColumns ctids : List Text) :
    ((∀ i ∈ inputs, InAlphabet i.typeName) → InsertReadsBack schema table inputs returnColumns) ∧
    (¬(∀ i ∈ inputs, InAlphabet i.typeName) →
      sent (insertRow schema table inputs returnColumns) = none) ∧
    UpdateReadsBack schema table column columnType ctid none ∧
    (InAlphabet columnType →
      ∀ value, UpdateReadsBack schema table column columnType ctid (some value)) ∧
    (¬InAlphabet columnType →
      ∀ value, sent (updateCell schema table column columnType (some value) ctid) = none) ∧
    (ctids ≠ [] → DeleteReadsBack schema table ctids) ∧
    sent (deleteRows schema table []) = none := by
  have hall : TypesAccepted inputs ↔ ∀ i ∈ inputs, InAlphabet i.typeName :=
    forall₂_congr fun i hi => validate_plain (hinputs i hi)
  refine ⟨?_, ?_, ?_, ?_, ?_, deleteRows_readsBack schema table, rfl⟩
  · intro h
    exact insertRow_readsBack schema table hinputs (hall.mpr h) returnColumns
  · intro h
    exact sent_insertRow_refused schema table (fun haccepted => h (hall.mp haccepted)) returnColumns
  · exact updateCell_null_readsBack schema table column columnType ctid
  · intro h value
    exact updateCell_readsBack schema table column ctid hcolumn ((validate_plain hcolumn).mpr h) value
  · intro h value
    obtain ⟨e, he⟩ := validate_refused hcolumn h
    exact sent_updateCell_refused schema table column value ctid he

def oddInputs : List InsertColumnInput :=
  [⟨"".toList, "int4".toList, some "1".toList⟩, ⟨"WHERE, \"".toList, "int4".toList, none⟩]

theorem edits_readBack_odd :
    InsertReadsBack "a\"b".toList "t, (x)".toList oddInputs
      ["\"".toList, "__pg_rowid__".toList] ∧
    UpdateReadsBack "a\"b".toList "t, (x)".toList "=".toList "int4".toList "(0,1)".toList
      (some "2".toList) := by
  have hplain : PlainName "int4".toList := ⟨by decide, by decide, by decide⟩
  have halphabet : InAlphabet "int4".toList := by decide
  have htypes : ∀ i ∈ oddInputs, i.typeName = "int4".toList := by
    rw [oddInputs]
    simp
  have h := edits_readBack "a\"b".toList "t, (x)".toList "=".toList "(0,1)".toList
    (fun i hi => by rw [htypes i hi]; exact hplain) hplain ["\"".toList, "__pg_rowid__".toList] []
  constructor
  · apply h.1
    intro i hi
    rw [htypes i hi]
    exact halphabet
  · exact h.2.2.2.1 halphabet "2".toList

/-- Without return columns the row id comes back, under a name that was not asked for. -/
theorem rowId_alias : ∃ sql params reading,
    sent (insertRow "s".toList "t".toList [] []) = some (sql, params) ∧
      readInsert (tokenise sql) = some reading ∧ reading.aliases = ["__pg_rowid__".toList] ∧
        reading.aliases ≠ [] := by
  have hplain : ∀ i ∈ ([] : List InsertColumnInput), PlainName i.typeName := by simp
  have htypes : TypesAccepted [] := by simp [TypesAccepted]
  obtain ⟨sql, hsent, hread⟩ := insertRow_readsBack "s".toList "t".toList hplain htypes []
  exact ⟨sql, _, _, hsent, hread, rfl, by simp [returned]⟩

end SshCommander.EditRoundTrip
