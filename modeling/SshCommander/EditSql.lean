import SshCommander.SqlTokens
import SshCommander.RustTextLaws
import SshCommander.RowEditing

/-!
# The SQL of row edits, read back

What `update_cell`, `insert_row` and `delete_rows` send, read as tokens: quoted names are opaque,
and the type expressions stand where the builder put them.
-/

namespace SshCommander.EditSql
open InteractionPrograms RustText PooledConnection RowEditing SqlTokens

def sent {α : Type} : Dialogue α → Option (Text × List Param)
  | .ask (.send (.extended sql params _)) _ => some (sql, params)
  | _ => none

def isWhere : Token → Bool
  | .word text => text.map Char.toLower == "where".toList
  | _ => false

structure UpdateReading where
  schema : Text
  table : Text
  /-- The parts of the SET clause. -/
  targets : List (List Token)
  condition : List Token
  deriving DecidableEq, Repr

structure InsertReading where
  schema : Text
  table : Text
  columns : List Text
  /-- The expressions of the one VALUES tuple. -/
  values : List (List Token)
  /-- The names after AS in the RETURNING list. -/
  aliases : List Text
  deriving DecidableEq, Repr

structure DeleteReading where
  schema : Text
  table : Text
  condition : List Token
  deriving DecidableEq, Repr

/-- `"schema"."table"`, and what follows it. -/
def readQualified : List Token → Option (Text × Text × List Token)
  | .quoted schema :: .symbol c :: .quoted table :: rest =>
    if c = '.' then some (schema, table, rest) else none
  | _ => none

def readWords : List Text → List Token → Option (List Token)
  | [], ts => some ts
  | w :: ws, t :: ts => if t = .word w then readWords ws ts else none
  | _ :: _, [] => none

def readUpdate (ts : List Token) : Option UpdateReading := do
  let rest ← readWords ["UPDATE".toList] ts
  let (schema, table, rest) ← readQualified rest
  let rest ← readWords ["SET".toList] rest
  let (set, condition) ← upTo isWhere [] rest
  return ⟨schema, table, commaParts [] set, condition⟩

/-- What stands between an opening parenthesis and the one that closes it. -/
def readGroup : List Token → Option (List Token × List Token)
  | .symbol c :: rest => if c = '(' then upTo (· == .symbol ')') [] rest else none
  | _ => none

def readName : List Token → Option Text
  | [.quoted name] => some name
  | _ => none

/-- The name after the AS that ends an item. -/
def readAlias (item : List Token) : Option Text :=
  match item.reverse with
  | .quoted name :: t :: _ => if t = .word "AS".toList then some name else none
  | _ => none

def readInsert (ts : List Token) : Option InsertReading := do
  let rest ← readWords ["INSERT".toList, "INTO".toList] ts
  let (schema, table, rest) ← readQualified rest
  match readWords ["DEFAULT".toList, "VALUES".toList, "RETURNING".toList] rest with
  | some returning =>
    let aliases ← (commaParts [] returning).mapM readAlias
    return ⟨schema, table, [], [], aliases⟩
  | none =>
    let (columns, rest) ← readGroup rest
    let names ← (commaParts [] columns).mapM readName
    let rest ← readWords ["VALUES".toList] rest
    let (tuple, rest) ← readGroup rest
    let returning ← readWords ["RETURNING".toList] rest
    let aliases ← (commaParts [] returning).mapM readAlias
    return ⟨schema, table, names, commaParts [] tuple, aliases⟩

def readDelete (ts : List Token) : Option DeleteReading := do
  let rest ← readWords ["DELETE".toList, "FROM".toList] ts
  let (schema, table, rest) ← readQualified rest
  let condition ← readWords ["WHERE".toList] rest
  return ⟨schema, table, condition⟩

/-- `$k::text::` -/
def castTokens (k : ℕ) : List Token :=
  [.word ('$' :: (toString k).toList), .symbol ':', .symbol ':', .word "text".toList, .symbol ':',
    .symbol ':']

/-- `ctid = $k::text::tid` -/
def ctidTokens (k : ℕ) : List Token :=
  .word "ctid".toList :: .symbol '=' :: castTokens k ++ [.word "tid".toList]

theorem scan_quoted (name s : Text) :
    scan (.quoted name) (s.flatMap (fun c => if c = '"' then ['"', '"'] else [c]) ++ ['"']) =
      ([], .closing (name ++ s)) := by
  induction s generalizing name with
  | nil => simp [scan, scanChar]
  | cons c cs ih =>
    by_cases hc : c = '"'
    · subst hc
      have hnext := ih (name ++ ['"'])
      simp [scan, scanChar, hnext]
    · have hnext := ih (name ++ [c])
      simp [scan, scanChar, hc, hnext]

/-- A quoted name is one token, whatever is in it. -/
theorem scan_quoteIdent (s : Text) : scan .idle (quoteIdent s) = ([], .closing s) := by
  have h := scan_quoted [] s
  rw [List.nil_append] at h
  rw [quoteIdent, List.cons_append, scan]
  simp only [scanChar, start, if_true, h, List.nil_append]

/-- What `validate_type_expression` checks. -/
structure Accepted (ty : Text) : Prop where
  nonempty : ty ≠ []
  chars : ∀ c ∈ ty, typeChar c = true
  closed : endsQuoted false ty = false

theorem accepted_of_ok {s ty : Text} (h : validateTypeExpression s = .ok ty) :
    ty = trim s ∧ Accepted ty := by
  simp only [validateTypeExpression] at h
  split_ifs at h with hempty hchars hquoted
  obtain rfl : trim s = ty := Except.ok.inj h
  refine ⟨rfl, by simpa using hempty, ?_, by simpa using hquoted⟩
  simpa using hchars

def isQuoted : Reading → Bool
  | .quoted _ => true
  | _ => false

def isClosing : Reading → Bool
  | .closing _ => true
  | _ => false

theorem start_open {c : Char} (hc : c ≠ '"') :
    isQuoted (start c).2 = false ∧ isClosing (start c).2 = false := by
  rw [start, if_neg hc]
  split_ifs <;> exact ⟨rfl, rfl⟩

theorem endsQuoted_other {c : Char} (hc : c ≠ '"') (quoted : Bool) (cs : Text) :
    endsQuoted quoted (c :: cs) = endsQuoted quoted cs := by
  rw [endsQuoted, if_neg hc]
  intro rest _ hquote _
  exact hc hquote

theorem endsQuoted_opening (cs : Text) : endsQuoted false ('"' :: cs) = endsQuoted true cs := by
  rw [endsQuoted, if_pos rfl]
  · rfl
  · intro rest h
    cases h

theorem endsQuoted_closing {cs : Text} (h : cs.head? ≠ some '"') :
    endsQuoted true ('"' :: cs) = endsQuoted false cs := by
  rw [endsQuoted, if_pos rfl]
  · rfl
  · intro rest _ _ hcs
    exact h (by rw [hcs]; rfl)

/-- The parity loop ends inside a quoted name exactly where the tokens do. -/
theorem endsQuoted_scan (n : ℕ) (s : Text) (hn : s.length ≤ n) :
    (∀ name, isQuoted (scan (.quoted name) s).2 = endsQuoted true s) ∧
      ∀ r, isQuoted r = false → isClosing r = false →
        isQuoted (scan r s).2 = endsQuoted false s := by
  induction n generalizing s with
  | zero =>
    obtain rfl : s = [] := List.length_eq_zero_iff.mp (by omega)
    exact ⟨fun name => rfl, fun r hr _ => hr⟩
  | succ n ih =>
    cases s with
    | nil => exact ⟨fun name => rfl, fun r hr _ => hr⟩
    | cons c cs =>
      rw [List.length_cons] at hn
      obtain ⟨hquoted, hopen⟩ := ih cs (by omega)
      constructor
      · intro name
        by_cases hc : c = '"'
        · subst hc
          cases cs with
          | nil => rfl
          | cons d ds =>
            rw [List.length_cons] at hn
            obtain ⟨hquoted', hopen'⟩ := ih ds (by omega)
            by_cases hd : d = '"'
            · subst hd
              rw [endsQuoted]
              exact hquoted' _
            · have hstart := start_open hd
              rw [endsQuoted_closing (by simpa using hd), endsQuoted_other hd]
              simp only [scan, scanChar, if_true, if_neg hd]
              exact hopen' _ hstart.1 hstart.2
        · rw [endsQuoted_other hc]
          simp only [scan, scanChar, if_neg hc]
          exact hquoted _
      · intro r hr hclosing
        by_cases hc : c = '"'
        · subst hc
          rw [endsQuoted_opening]
          cases r with
          | idle => exact hquoted _
          | word text => exact hquoted _
          | quoted name => cases hr
          | closing name => cases hclosing
        · have hstart := start_open hc
          rw [endsQuoted_other hc]
          cases r with
          | idle => exact hopen _ hstart.1 hstart.2
          | word text =>
            simp only [scan, scanChar]
            split_ifs
            · exact hopen _ rfl rfl
            · exact hopen _ hstart.1 hstart.2
          | quoted name => cases hr
          | closing name => cases hclosing

/-- What ends no token by itself: the builder puts it after a type expression. -/
structure Separator (c : Char) : Prop where
  plain : c ≠ '"'
  stops : wordChar c = false

theorem scanChar_separator {r : Reading} (hr : isQuoted r = false) {c : Char} (hc : Separator c) :
    scanChar r c = (flush r ++ (start c).1, (start c).2) := by
  cases r with
  | idle => rfl
  | word text => simp [scanChar, hc.stops, flush]
  | quoted name => cases hr
  | closing name => simp [scanChar, hc.plain, flush]

/-- An accepted type expression is tokens of its own in front of a separator. -/
theorem scan_accepted {ty : Text} (h : Accepted ty) {c : Char} (hc : Separator c) (rest : Text) :
    scan .idle (ty ++ c :: rest) =
      (tokenise ty ++ (scan .idle (c :: rest)).1, (scan .idle (c :: rest)).2) := by
  have hopen : isQuoted (scan .idle ty).2 = false := by
    rw [(endsQuoted_scan ty.length ty le_rfl).2 .idle rfl rfl]
    exact h.closed
  have hidle : scanChar .idle c = start c := rfl
  rw [scan_append, tokenise]
  simp only [scan, scanChar_separator hopen hc, hidle, List.append_assoc]

/-- `"schema"."table"` and what follows it, up to a character that is no quote. -/
theorem scan_qualified (schema table : Text) {c : Char} (hc : c ≠ '"') (rest : Text) :
    scan .idle (qualify schema table ++ c :: rest) =
      (.quoted schema :: .symbol '.' :: .quoted table :: (scan .idle (c :: rest)).1,
        (scan .idle (c :: rest)).2) := by
  have hdot : scan (.closing schema) ".".toList = ([.quoted schema, .symbol '.'], .idle) := rfl
  have hend : scan (.closing table) (c :: rest) =
      (.quoted table :: (scan .idle (c :: rest)).1, (scan .idle (c :: rest)).2) := by
    simp [scan, scanChar, hc]
  rw [qualify, scan_append, scan_append, scan_append, scan_quoteIdent]
  simp only [hdot, scan_quoteIdent, hend]
  rfl

/-- The tokens of a text whose beginning reads as complete tokens. -/
theorem tokenise_idle {a : Text} {ts : List Token} (h : scan .idle a = (ts, .idle)) (b : Text) :
    tokenise (a ++ b) = ts ++ tokenise b := by
  rw [tokenise_append a b h, tokenise]

theorem tokenise_qualified (schema table : Text) {c : Char} (hc : c ≠ '"') (rest : Text) :
    tokenise (qualify schema table ++ c :: rest) =
      .quoted schema :: .symbol '.' :: .quoted table :: tokenise (c :: rest) := by
  rw [tokenise, scan_qualified schema table hc, tokenise]
  simp

theorem tokenise_quoteIdent (name : Text) {c : Char} (hc : c ≠ '"') (rest : Text) :
    tokenise (quoteIdent name ++ c :: rest) = .quoted name :: tokenise (c :: rest) := by
  rw [tokenise_append _ _ (scan_quoteIdent name), tokenise]
  simp [scan, scanChar, hc]

theorem tokenise_accepted {ty : Text} (h : Accepted ty) {c : Char} (hc : Separator c)
    (rest : Text) : tokenise (ty ++ c :: rest) = tokenise ty ++ tokenise (c :: rest) := by
  rw [tokenise, scan_accepted h hc, List.append_assoc]
  rfl

/-- A text whose tokens are its own wherever the builder puts it. -/
structure ReadsAs (text : Text) (ts : List Token) : Prop where
  inside : ∀ c rest, Separator c → tokenise (text ++ c :: rest) = ts ++ tokenise (c :: rest)
  final : tokenise text = ts

theorem readsAs_accepted {ty : Text} (h : Accepted ty) : ReadsAs ty (tokenise ty) :=
  ⟨fun _ rest hc => tokenise_accepted h hc rest, rfl⟩

theorem readsAs_quoteIdent (name : Text) : ReadsAs (quoteIdent name) [.quoted name] := by
  constructor
  · intro c rest hc
    exact tokenise_quoteIdent name hc.plain rest
  · rw [tokenise, scan_quoteIdent]
    rfl

theorem ReadsAs.prepend {a text : Text} {as ts : List Token} (ha : scan .idle a = (as, .idle))
    (h : ReadsAs text ts) : ReadsAs (a ++ text) (as ++ ts) := by
  constructor
  · intro c rest hc
    rw [List.append_assoc, tokenise_idle ha, h.inside c rest hc, List.append_assoc]
  · rw [tokenise_idle ha, h.final]

theorem separator_comma : Separator ',' := ⟨by decide, by decide⟩

theorem separator_close : Separator ')' := ⟨by decide, by decide⟩

theorem separator_blank : Separator ' ' := ⟨by decide, by decide⟩

def joinTokens : List (List Token) → List Token
  | [] => []
  | [ts] => ts
  | ts :: tss => ts ++ .symbol ',' :: joinTokens tss

theorem readsAs_joinComma {α : Type} (text : α → Text) (toks : α → List Token) (xs : List α)
    (hne : xs ≠ []) (h : ∀ x ∈ xs, ReadsAs (text x) (toks x)) :
    ReadsAs (joinComma (xs.map text)) (joinTokens (xs.map toks)) := by
  induction xs with
  | nil => exact absurd rfl hne
  | cons x xs ih =>
    cases xs with
    | nil => exact h x (by simp)
    | cons y ys =>
      have hx := h x (by simp)
      have htail := ih (by simp) fun z hz => h z (List.mem_cons_of_mem _ hz)
      have hcomma : scan .idle ", ".toList = ([.symbol ','], .idle) := rfl
      have hjoin : joinComma ((x :: y :: ys).map text) =
          text x ++ ", ".toList ++ joinComma ((y :: ys).map text) := rfl
      have hsep : ", ".toList = ',' :: [' '] := rfl
      rw [hjoin]
      constructor
      · intro c rest hc
        rw [List.append_assoc, List.append_assoc, hsep, List.cons_append,
          hx.inside ',' _ separator_comma, ← List.cons_append, ← hsep, tokenise_idle hcomma,
          htail.inside c rest hc]
        simp [joinTokens]
      · rw [List.append_assoc, hsep, List.cons_append, hx.inside ',' _ separator_comma,
          ← List.cons_append, ← hsep, tokenise_idle hcomma, htail.final]
        simp [joinTokens]

theorem scan_word (text digits : Text) (h : ∀ c ∈ digits, wordChar c = true) :
    scan (.word text) digits = ([], .word (text ++ digits)) := by
  induction digits generalizing text with
  | nil => simp [scan]
  | cons c cs ih =>
    have hc : wordChar c = true := h c (by simp)
    simp [scan, scanChar, hc, ih (text ++ [c]) fun d hd => h d (by simp [hd])]

theorem wordChar_digit {k : ℕ} {c : Char} (h : c ∈ (toString k).toList) : wordChar c = true := by
  have hdigit : c.isDigit = true := by
    apply Nat.isDigit_of_mem_toDigits (b := 10) (n := k) (by decide) (by decide)
    simpa using h
  simp only [Char.isDigit, Bool.and_eq_true, decide_eq_true_eq, ge_iff_le] at hdigit
  simp only [wordChar, Bool.or_eq_true, Bool.and_eq_true, decide_eq_true_eq]
  exact Or.inl (Or.inl (Or.inl (Or.inr hdigit)))

def castText (k : ℕ) : Text := "$".toList ++ (toString k).toList ++ "::text::".toList

theorem scan_castText (k : ℕ) : scan .idle (castText k) = (castTokens k, .idle) := by
  have hdollar : scan .idle "$".toList = ([], .word ['$']) := rfl
  have hdigits := scan_word ['$'] (toString k).toList fun c hc => wordChar_digit hc
  have hcast (w : Text) : scan (.word w) "::text::".toList =
      ([.word w, .symbol ':', .symbol ':', .word "text".toList, .symbol ':', .symbol ':'], .idle) := rfl
  rw [castText, scan_append, scan_append, hdollar]
  simp only [hdigits, hcast]
  rfl

/-- `"schema"."table"` after the words of a statement, in front of the rest. -/
theorem tokenise_target {words : Text} {ws : List Token} (hwords : scan .idle words = (ws, .idle))
    (schema table : Text) {rest : Text} (hrest : rest.head? = some ' ') :
    tokenise (words ++ (qualify schema table ++ rest)) =
      ws ++ .quoted schema :: .symbol '.' :: .quoted table :: tokenise rest := by
  obtain ⟨rest, rfl⟩ := List.head?_eq_some_iff.mp hrest
  rw [tokenise_idle hwords, tokenise_qualified schema table (by decide)]

/-- `SET "column" = value WHERE condition` -/
theorem tokenise_set (column : Text) {value condition : Text} {vs cs : List Token}
    (hvalue : ReadsAs value vs) (hcondition : tokenise (' ' :: condition) = cs) :
    tokenise (" SET ".toList ++ (quoteIdent column ++ (" = ".toList ++ (value ++ ' ' :: condition)))) =
      .word "SET".toList :: .quoted column :: .symbol '=' :: (vs ++ cs) := by
  have hset : scan .idle " SET ".toList = ([.word "SET".toList], .idle) := rfl
  have heq : scan .idle " = ".toList = ([.symbol '='], .idle) := rfl
  have hcolumn (rest : Text) : tokenise (quoteIdent column ++ (" = ".toList ++ rest)) =
      .quoted column :: tokenise (" = ".toList ++ rest) :=
    tokenise_quoteIdent column (by decide) ("= ".toList ++ rest)
  rw [tokenise_idle hset, hcolumn, tokenise_idle heq, hvalue.inside ' ' _ separator_blank,
    hcondition]
  rfl

def setTokens (column : Text) (value : List Token) : List Token :=
  .quoted column :: .symbol '=' :: value

/-- `UPDATE "schema"."table" SET "column" = value WHERE condition` -/
def updateTokens (schema table column : Text) (value condition : List Token) : List Token :=
  .word "UPDATE".toList :: .quoted schema :: .symbol '.' :: .quoted table :: .word "SET".toList ::
    (setTokens column value ++ .word "WHERE".toList :: condition)

theorem tokenise_update (schema table column : Text) {value condition : Text}
    {vs cs : List Token} (hvalue : ReadsAs value vs)
    (hcondition : tokenise (' ' :: condition) = .word "WHERE".toList :: cs) :
    tokenise ("UPDATE ".toList ++ qualify schema table ++ " SET ".toList ++ quoteIdent column ++
        (" = ".toList ++ value) ++ ' ' :: condition) = updateTokens schema table column vs cs := by
  have hupdate : scan .idle "UPDATE ".toList = ([.word "UPDATE".toList], .idle) := rfl
  have htarget (rest : Text) : tokenise ("UPDATE ".toList ++ (qualify schema table ++
      (" SET ".toList ++ rest))) = .word "UPDATE".toList :: .quoted schema :: .symbol '.' ::
        .quoted table :: tokenise (" SET ".toList ++ rest) :=
    tokenise_target hupdate schema table rfl
  simp only [List.append_assoc]
  rw [htarget, tokenise_set column hvalue hcondition]
  rfl

theorem tokenise_condition (k : ℕ) :
    tokenise (' ' :: ("WHERE ctid = ".toList ++ castText k ++ "tid".toList)) =
      .word "WHERE".toList :: ctidTokens k := by
  have hwhere : scan .idle (' ' :: "WHERE ctid = ".toList) =
      ([.word "WHERE".toList, .word "ctid".toList, .symbol '='], .idle) := rfl
  have htid : tokenise "tid".toList = [.word "tid".toList] := rfl
  rw [List.append_assoc, ← List.cons_append, tokenise_idle hwhere, tokenise_idle (scan_castText k),
    htid]
  rfl

/-- The statement and parameters of an update to a value. -/
theorem sent_updateCell_value {columnType ty : Text} (h : validateTypeExpression columnType = .ok ty)
    (schema table column value ctid : Text) :
    ∃ sql, sent (updateCell schema table column columnType (some value) ctid) =
        some (sql, [.text (some value), .text (some ctid)]) ∧
      tokenise sql =
        updateTokens schema table column (castTokens 1 ++ tokenise ty) (ctidTokens 2) := by
  have hcast := (readsAs_accepted (accepted_of_ok h).2).prepend (scan_castText 1)
  have hvalue : " = $1::text::".toList = " = ".toList ++ castText 1 := by decide
  have hwhere : " WHERE ctid = $2::text::tid".toList =
      ' ' :: ("WHERE ctid = ".toList ++ castText 2 ++ "tid".toList) := by decide
  refine ⟨_, by simp only [updateCell, h]; rfl, ?_⟩
  rw [← tokenise_update schema table column hcast (tokenise_condition 2), hvalue, hwhere]
  simp only [List.append_assoc]

theorem sent_updateCell_null (schema table column columnType ctid : Text) :
    ∃ sql, sent (updateCell schema table column columnType none ctid) =
        some (sql, [.text (some ctid)]) ∧
      tokenise sql = updateTokens schema table column [.word "NULL".toList] (ctidTokens 1) := by
  have hnull : ReadsAs "NULL".toList [.word "NULL".toList] :=
    readsAs_accepted ⟨by decide, List.all_eq_true.mp (by decide), by decide⟩
  have hwhere : " = NULL WHERE ctid = $1::text::tid".toList = " = ".toList ++ "NULL".toList ++
      ' ' :: ("WHERE ctid = ".toList ++ castText 1 ++ "tid".toList) := by decide
  refine ⟨_, by simp only [updateCell]; rfl, ?_⟩
  rw [← tokenise_update schema table column hnull (tokenise_condition 1), hwhere]
  simp only [List.append_assoc]

def TypesAccepted (inputs : List InsertColumnInput) : Prop :=
  ∀ i ∈ inputs, validateTypeExpression i.typeName = .ok (trim i.typeName)

/-- `$k::text::type` of an input and its index. -/
def valueTokens (input : InsertColumnInput × ℕ) : List Token :=
  castTokens (input.2 + 1) ++ tokenise (trim input.1.typeName)

def valueText (input : InsertColumnInput × ℕ) : Text :=
  castText (input.2 + 1) ++ trim input.1.typeName

theorem placeholders_ok {inputs : List InsertColumnInput} (h : TypesAccepted inputs) (idx : ℕ) :
    placeholders idx inputs = .ok ((inputs.zipIdx idx).map valueText) := by
  induction inputs generalizing idx with
  | nil => rfl
  | cons i rest ih =>
    have hi := h i (by simp)
    have hrest := ih (fun j hj => h j (List.mem_cons_of_mem _ hj)) (idx + 1)
    simp only [placeholders, hi, hrest, List.zipIdx_cons, List.map_cons]
    rfl

theorem readsAs_value {inputs : List InsertColumnInput} (h : TypesAccepted inputs) (idx : ℕ) :
    ∀ x ∈ inputs.zipIdx idx, ReadsAs (valueText x) (valueTokens x) := by
  rintro ⟨i, k⟩ hx
  have hi : i ∈ inputs := List.fst_mem_of_mem_zipIdx hx
  exact (readsAs_accepted (accepted_of_ok (h i hi)).2).prepend (scan_castText (k + 1))

/-- `expression::text AS "name"` -/
def returningTokens (name : Text) : List Token :=
  (if name = "__pg_rowid__".toList then .word "ctid".toList else .quoted name) ::
    [.symbol ':', .symbol ':', .word "text".toList, .word "AS".toList, .quoted name]

theorem readsAs_returningColumn (name : Text) :
    ReadsAs (returningColumn name) (returningTokens name) := by
  rw [returningColumn, returningTokens]
  split_ifs
  · have hctid : scan .idle "ctid::text AS ".toList = ([.word "ctid".toList, .symbol ':',
        .symbol ':', .word "text".toList, .word "AS".toList], .idle) := rfl
    exact (readsAs_quoteIdent name).prepend hctid
  · have hcast : scan (.closing name) "::text AS ".toList = ([.quoted name, .symbol ':',
        .symbol ':', .word "text".toList, .word "AS".toList], .idle) := rfl
    have hname : scan .idle (quoteIdent name ++ "::text AS ".toList) = ([.quoted name, .symbol ':',
        .symbol ':', .word "text".toList, .word "AS".toList], .idle) := by
      rw [scan_append, scan_quoteIdent]
      simp only [hcast]
      rfl
    exact (readsAs_quoteIdent name).prepend hname

/-- The names that come back: the row id alone where none was asked for. -/
def returned (returnColumns : List Text) : List Text :=
  if returnColumns = [] then ["__pg_rowid__".toList] else returnColumns

theorem readsAs_returningClause (returnColumns : List Text) :
    ReadsAs (returningClause returnColumns)
      (joinTokens ((returned returnColumns).map returningTokens)) := by
  by_cases h : returnColumns = []
  · subst h
    have hrow := readsAs_returningColumn "__pg_rowid__".toList
    have htext : returningColumn "__pg_rowid__".toList = returningClause [] := by decide
    rwa [htext] at hrow
  · rw [returningClause, if_neg (by simpa using h), returned, if_neg h]
    exact readsAs_joinComma returningColumn returningTokens returnColumns h
      fun name _ => readsAs_returningColumn name

theorem tokenise_returning (returnColumns : List Text) :
    tokenise (" RETURNING ".toList ++ returningClause returnColumns) =
      .word "RETURNING".toList :: joinTokens ((returned returnColumns).map returningTokens) := by
  have hreturning : scan .idle " RETURNING ".toList = ([.word "RETURNING".toList], .idle) := rfl
  rw [tokenise_idle hreturning, (readsAs_returningClause returnColumns).final]
  rfl

/-- A list in parentheses, in front of the rest. -/
theorem tokenise_group {opening : Text} {os : List Token}
    (hopening : scan .idle opening = (os, .idle)) {text : Text} {ts : List Token}
    (h : ReadsAs text ts) (rest : Text) :
    tokenise (opening ++ (text ++ ')' :: rest)) = os ++ (ts ++ .symbol ')' :: tokenise rest) := by
  have hclose : scan .idle [')'] = ([.symbol ')'], .idle) := rfl
  have hrest := tokenise_idle hclose rest
  rw [tokenise_idle hopening, h.inside ')' rest separator_close]
  exact congrArg (fun x => os ++ (ts ++ x)) hrest

def insertTokens (schema table : Text) (rest : List Token) : List Token :=
  .word "INSERT".toList :: .word "INTO".toList :: .quoted schema :: .symbol '.' :: .quoted table ::
    rest

/-- The statement and parameters of an insert. -/
theorem sent_insertRow (schema table : Text) {inputs : List InsertColumnInput}
    (h : TypesAccepted inputs) (hne : inputs ≠ []) (returnColumns : List Text) :
    ∃ sql, sent (insertRow schema table inputs returnColumns) =
        some (sql, inputs.map (.text ·.value)) ∧
      tokenise sql = insertTokens schema table
        (.symbol '(' :: (joinTokens (inputs.map fun i => [.quoted i.name]) ++ .symbol ')' ::
          .word "VALUES".toList :: .symbol '(' ::
            (joinTokens ((inputs.zipIdx 0).map valueTokens) ++ .symbol ')' ::
              .word "RETURNING".toList ::
                joinTokens ((returned returnColumns).map returningTokens)))) := by
  have hclauses : insertClauses inputs = .ok
      (" (".toList ++ joinComma (inputs.map (quoteIdent ·.name)) ++ ")".toList,
        "VALUES (".toList ++ joinComma ((inputs.zipIdx 0).map valueText) ++ ")".toList) := by
    rw [insertClauses, if_neg (by simpa using hne), placeholders_ok h]
  have hnames : ReadsAs (joinComma (inputs.map (quoteIdent ·.name)))
      (joinTokens (inputs.map fun i => [.quoted i.name])) :=
    readsAs_joinComma (quoteIdent ·.name) _ inputs hne fun i _ => readsAs_quoteIdent i.name
  have hvalues : ReadsAs (joinComma ((inputs.zipIdx 0).map valueText))
      (joinTokens ((inputs.zipIdx 0).map valueTokens)) :=
    readsAs_joinComma valueText valueTokens _ (by simpa using hne) (readsAs_value h 0)
  have hinsert : scan .idle "INSERT INTO ".toList =
      ([.word "INSERT".toList, .word "INTO".toList], .idle) := rfl
  have hopen : scan .idle " (".toList = ([.symbol '('], .idle) := rfl
  have hvaluesOpen : scan .idle " VALUES (".toList =
      ([.word "VALUES".toList, .symbol '('], .idle) := rfl
  have htarget (rest : Text) : tokenise ("INSERT INTO ".toList ++ (qualify schema table ++
      (" (".toList ++ rest))) = .word "INSERT".toList :: .word "INTO".toList :: .quoted schema ::
        .symbol '.' :: .quoted table :: tokenise (" (".toList ++ rest) :=
    tokenise_target hinsert schema table rfl
  refine ⟨_, by simp only [insertRow, hclauses]; rfl, ?_⟩
  have hreturning := tokenise_returning returnColumns
  have htuple := tokenise_group hvaluesOpen hvalues
    (" RETURNING ".toList ++ returningClause returnColumns)
  have hgroup := tokenise_group hopen hnames (" VALUES (".toList ++
    (joinComma ((inputs.zipIdx 0).map valueText) ++ ')' ::
      (" RETURNING ".toList ++ returningClause returnColumns)))
  rw [htuple, hreturning] at hgroup
  simp only [List.append_assoc]
  rw [htarget]
  exact congrArg (fun x => insertTokens schema table x) hgroup

theorem sent_insertRow_default (schema table : Text) (returnColumns : List Text) :
    ∃ sql, sent (insertRow schema table [] returnColumns) = some (sql, []) ∧
      tokenise sql = insertTokens schema table
        (.word "DEFAULT".toList :: .word "VALUES".toList :: .word "RETURNING".toList ::
          joinTokens ((returned returnColumns).map returningTokens)) := by
  have hinsert : scan .idle "INSERT INTO ".toList =
      ([.word "INSERT".toList, .word "INTO".toList], .idle) := rfl
  have hdefault : scan .idle " DEFAULT VALUES".toList =
      ([.word "DEFAULT".toList], .word "VALUES".toList) := rfl
  have htarget (rest : Text) : tokenise ("INSERT INTO ".toList ++ (qualify schema table ++
      (" DEFAULT VALUES".toList ++ rest))) = .word "INSERT".toList :: .word "INTO".toList ::
        .quoted schema :: .symbol '.' :: .quoted table ::
          tokenise (" DEFAULT VALUES".toList ++ rest) :=
    tokenise_target hinsert schema table rfl
  have hvalues (rest : Text) : tokenise (" DEFAULT VALUES".toList ++ (" RETURNING ".toList ++ rest)) =
      .word "DEFAULT".toList :: .word "VALUES".toList :: tokenise (" RETURNING ".toList ++ rest) := by
    rw [tokenise_append _ _ hdefault]
    rfl
  refine ⟨_, rfl, ?_⟩
  simp only [List.append_assoc, List.nil_append]
  have hwhole := htarget (" RETURNING ".toList ++ returningClause returnColumns)
  rw [hvalues, tokenise_returning] at hwhole
  exact hwhole

theorem sent_deleteRows (schema table : Text) {ctids : List Text} (h : ctids ≠ []) :
    ∃ sql, sent (deleteRows schema table ctids) = some (sql, [.texts ctids]) ∧
      tokenise sql = .word "DELETE".toList :: .word "FROM".toList :: .quoted schema ::
        .symbol '.' :: .quoted table ::
          tokenise " WHERE ctid = ANY($1::text[]::tid[])".toList := by
  have hdelete : scan .idle "DELETE FROM ".toList =
      ([.word "DELETE".toList, .word "FROM".toList], .idle) := rfl
  refine ⟨_, by simp only [deleteRows, List.isEmpty_iff, h, if_false]; rfl, ?_⟩
  simp only [List.append_assoc]
  exact tokenise_target hdelete schema table rfl

end SshCommander.EditSql
