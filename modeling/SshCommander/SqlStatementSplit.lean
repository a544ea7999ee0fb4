import SshCommander.RustText

/-!
# Splitting a SQL script at its top-level semicolons

The lexer of `exec.rs` walks bytes and slices the text at byte offsets, so every
function here returns `none` where a slice panics. The loops carry fuel for the
number of bytes left; each turn advances the offset by at least one.
-/

namespace SshCommander.SqlStatementSplit
open RustText

abbrev Sql := Text

inductive LexState where
  | normal
  | singleQuote
  | doubleQuote
  | lineComment
  | blockComment
  | dollarQuote (delimiter : Text)
  deriving DecidableEq, Repr

def isAsciiAlphabetic (b : UInt8) : Bool := (65 ≤ b && b ≤ 90) || (97 ≤ b && b ≤ 122)

def isAsciiAlphanumeric (b : UInt8) : Bool := isAsciiAlphabetic b || (48 ≤ b && b ≤ 57)

/-- The `while let` loop: the first offset from `i` that is not part of a tag. -/
def tagEnd (bytes : List UInt8) : ℕ → ℕ → ℕ
  | 0, i => i
  | fuel + 1, i =>
    match bytes[i]? with
    | some b => if isAsciiAlphanumeric b || b == 95 then tagEnd bytes fuel (i + 1) else i
    | none => i

def sliceInclusive (sql : Sql) (start stop : ℕ) : Option Text :=
  (sliceTo sql (stop + 1)).bind fun s => sliceFrom s start

/-- The outer `none` is the panic, the inner one "no delimiter here". -/
def dollarQuoteDelimiterAt (sql : Sql) (start : ℕ) : Option (Option Text) :=
  let bytes := utf8 sql
  if bytes[start]? != some 36 then some none
  else match bytes[start + 1]? with
    | some b =>
      if b == 36 then (sliceInclusive sql start (start + 1)).map some
      else if isAsciiAlphabetic b || b == 95 then
        let stop := tagEnd bytes bytes.length (start + 2)
        if bytes[stop]? == some 36 then (sliceInclusive sql start stop).map some else some none
      else some none
    | none => some none

/-- One turn of the loop of `top_level_semicolons` at offset `i` and byte `c`: the next
state, how far `i` moves, and whether `i` is recorded. -/
def lexStep (sql : Sql) (bytes : List UInt8) (i : ℕ) (c : UInt8) (state : LexState) :
    Option (LexState × ℕ × Bool) :=
  let next := bytes[i + 1]?
  match state with
  | .normal =>
    if c == 39 then some (.singleQuote, 1, false)
    else if c == 34 then some (.doubleQuote, 1, false)
    else if c == 45 && next == some 45 then some (.lineComment, 2, false)
    else if c == 47 && next == some 42 then some (.blockComment, 2, false)
    else if c == 36 then
      match dollarQuoteDelimiterAt sql i with
      | none => none
      | some none => some (.normal, 1, false)
      | some (some delimiter) => some (.dollarQuote delimiter, (utf8 delimiter).length, false)
    else if c == 59 then some (.normal, 1, true)
    else some (.normal, 1, false)
  | .singleQuote =>
    if c == 39 then
      if next == some 39 then some (.singleQuote, 2, false) else some (.normal, 1, false)
    else some (.singleQuote, 1, false)
  | .doubleQuote =>
    if c == 34 then
      if next == some 34 then some (.doubleQuote, 2, false) else some (.normal, 1, false)
    else some (.doubleQuote, 1, false)
  | .lineComment => some (if c == 10 then .normal else .lineComment, 1, false)
  | .blockComment =>
    if c == 42 && next == some 47 then some (.normal, 2, false) else some (.blockComment, 1, false)
  | .dollarQuote delimiter =>
    match sliceFrom sql i with
    -- `sql[i..]` panics when `i` is inside a character of the quoted body
    | none => none
    | some rest =>
      if delimiter.isPrefixOf rest then some (.normal, (utf8 delimiter).length, false)
      else some (.dollarQuote delimiter, 1, false)

def scanSemicolons (sql : Sql) (bytes : List UInt8) :
    ℕ → ℕ → LexState → List ℕ → Option (List ℕ)
  | 0, _, _, positions => some positions
  | fuel + 1, i, state, positions =>
    match bytes[i]? with
    | none => some positions
    | some c =>
      match lexStep sql bytes i c state with
      | none => none
      | some (state', advance, found) =>
        scanSemicolons sql bytes fuel (i + advance) state'
          (if found then positions ++ [i] else positions)

def topLevelSemicolons (sql : Sql) : Option (List ℕ) :=
  let bytes := utf8 sql
  scanSemicolons sql bytes bytes.length 0 .normal []

/-- One turn of the loop of `is_effectively_empty`; `none` is the early `return false`. -/
def blankStep (bytes : List UInt8) (i : ℕ) (c : UInt8) (state : LexState) :
    Option (LexState × ℕ) :=
  let next := bytes[i + 1]?
  match state with
  | .lineComment => some (if c == 10 then .normal else .lineComment, 1)
  | .blockComment =>
    if c == 42 && next == some 47 then some (.normal, 2) else some (.blockComment, 1)
  | _ =>
    if c == 32 || c == 9 || c == 10 || c == 13 then some (.normal, 1)
    else if c == 45 && next == some 45 then some (.lineComment, 2)
    else if c == 47 && next == some 42 then some (.blockComment, 2)
    else none

def scanBlank (bytes : List UInt8) : ℕ → ℕ → LexState → Bool
  | 0, _, _ => true
  | fuel + 1, i, state =>
    match bytes[i]? with
    | none => true
    | some c =>
      match blankStep bytes i c state with
      | none => false
      | some (state', advance) => scanBlank bytes fuel (i + advance) state'

def isEffectivelyEmpty (sql : Sql) : Bool :=
  let bytes := utf8 sql
  scanBlank bytes bytes.length 0 .normal

/-- `iter.any` over the slices after each position, in order. -/
def anyFollowed (sql : Sql) : List ℕ → Option Bool
  | [] => some false
  | idx :: rest =>
    match sliceFrom sql (idx + 1) with
    | none => none
    | some tail => if isEffectivelyEmpty tail then anyFollowed sql rest else some true

def isMultiStatement (sql : Sql) : Option Bool :=
  (topLevelSemicolons sql).bind (anyFollowed sql)

def splitAtLastStatement (sql : Sql) : Option (Option (Sql × Sql)) :=
  match topLevelSemicolons sql with
  | none => none
  | some positions =>
    match positions.getLast? with
    | none => some none
    | some split =>
      match sliceFrom sql (split + 1), sliceTo sql (split + 1) with
      | some rest, some preamble =>
        if isEffectivelyEmpty rest then some none
        else
          let main := trim rest
          match isMultiStatement main with
          | none => none
          | some true => some none
          | some false => some (some (preamble, main))
      | _, _ => none

/-- Everything a successful split says. -/
theorem splitAtLastStatement_cases {sql pre main : Sql}
    (h : splitAtLastStatement sql = some (some (pre, main))) :
    ∃ positions split rest, topLevelSemicolons sql = some positions ∧
      positions.getLast? = some split ∧ sliceTo sql (split + 1) = some pre ∧
      sliceFrom sql (split + 1) = some rest ∧ isEffectivelyEmpty rest = false ∧
      main = trim rest ∧ isMultiStatement main = some false := by
  unfold splitAtLastStatement at h
  split at h
  · cases h
  rename_i positions hpos
  split at h
  · cases h
  rename_i split hlast
  split at h
  · rename_i rest preamble hrest hpre
    split at h
    · cases h
    rename_i hempty
    cases hm : isMultiStatement (trim rest) with
    | none => simp [hm] at h
    | some multi =>
      cases multi with
      | true => simp [hm] at h
      | false =>
        simp only [hm, Option.some.injEq, Prod.mk.injEq] at h
        obtain ⟨rfl, rfl⟩ := h
        exact ⟨positions, split, rest, hpos, hlast, hpre, hrest, by simpa using hempty, rfl, hm⟩
  · cases h

theorem sliceTo_succ_pos {s a : Text} {i : ℕ} (h : sliceTo s (i + 1) = some a) : 0 < a.length := by
  cases s with
  | nil => cases h
  | cons c cs =>
    simp only [sliceTo] at h
    split at h
    · obtain ⟨a, -, rfl⟩ := Option.map_eq_some_iff.mp h
      simp
    · cases h

/-- The main statement is shorter than the script, so `open_query` recurses on less text. -/
theorem splitAtLastStatement_length {sql pre main : Sql}
    (h : splitAtLastStatement sql = some (some (pre, main))) : main.length < sql.length := by
  obtain ⟨_, split, rest, -, -, hpre, hrest, -, rfl, -⟩ := splitAtLastStatement_cases h
  have hsql := sliceTo_append_sliceFrom hpre hrest
  have hpos := sliceTo_succ_pos hpre
  have htrim : (trim rest).length ≤ rest.length :=
    (List.rdropWhile_prefix _ _).length_le.trans (List.dropWhile_suffix _).length_le
  rw [hsql, List.length_append]
  omega

example : splitAtLastStatement "SET x = 'a;b'; SELECT 1".toList =
    some (some ("SET x = 'a;b';".toList, "SELECT 1".toList)) := by decide +kernel

end SshCommander.SqlStatementSplit
