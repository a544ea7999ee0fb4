import SshCommander.Utf8Offsets
import SshCommander.SqlStatementSplit

/-!
# The splitter's lexer, character by character

What `top_level_semicolons` reads where its byte offsets stay at the boundaries of characters: one
state, and one character of the text after another.
-/

namespace SshCommander.SplitterLexer
open RustText SqlStatementSplit

def isTagStart (c : Char) : Bool :=
  (65 ≤ c.toNat && c.toNat ≤ 90) || (97 ≤ c.toNat && c.toNat ≤ 122) || c.toNat == 95

def isTagChar (c : Char) : Bool := isTagStart c || (48 ≤ c.toNat && c.toNat ≤ 57)

/-- The delimiter `$tag$` that a text starts with. -/
def delimiterOf : Text → Option Text
  | [] => none
  | c :: cs =>
    if c = '$' then
      if cs.head? = some '$' then some ['$', '$']
      else if cs.head?.any isTagStart && (cs.dropWhile isTagChar).head? == some '$' then
        some ('$' :: cs.takeWhile isTagChar ++ ['$'])
      else none
    else none

/-- One character: the next state, and how many of the characters that follow belong to it. -/
def readStep (state : LexState) (c : Char) (cs : Text) : LexState × ℕ :=
  match state with
  | .normal =>
    if c = '\'' then (.singleQuote, 0)
    else if c = '"' then (.doubleQuote, 0)
    else if c = '-' ∧ cs.head? = some '-' then (.lineComment, 1)
    else if c = '/' ∧ cs.head? = some '*' then (.blockComment, 1)
    else
      match delimiterOf (c :: cs) with
      | some delimiter => (.dollarQuote delimiter, delimiter.length - 1)
      | none => (.normal, 0)
  | .singleQuote =>
    if c = '\'' then if cs.head? = some '\'' then (.singleQuote, 1) else (.normal, 0)
    else (.singleQuote, 0)
  | .doubleQuote =>
    if c = '"' then if cs.head? = some '"' then (.doubleQuote, 1) else (.normal, 0)
    else (.doubleQuote, 0)
  | .lineComment => (if c = '\n' then .normal else .lineComment, 0)
  | .blockComment => if c = '*' ∧ cs.head? = some '/' then (.normal, 1) else (.blockComment, 0)
  | .dollarQuote delimiter =>
    if delimiter.isPrefixOf (c :: cs) then (.normal, delimiter.length - 1)
    else (.dollarQuote delimiter, 0)

structure Reading where
  state : LexState
  char : Char
  rest : Text
  deriving DecidableEq

/-- Each character that a turn of the loop starts at, with the state it is read in and what
follows. -/
def readings (state : LexState) : ℕ → Text → List Reading
  | _, [] => []
  | skip + 1, _ :: cs => readings state skip cs
  | 0, c :: cs => ⟨state, c, cs⟩ :: readings (readStep state c cs).1 (readStep state c cs).2 cs

theorem readings_skip (state : LexState) (skip : ℕ) (s : Text) :
    readings state skip s = readings state 0 (s.drop skip) := by
  induction s generalizing skip with
  | nil => cases skip <;> rfl
  | cons c cs ih =>
    cases skip with
    | zero => rfl
    | succ skip => exact ih skip

theorem readings_cons (state : LexState) (c : Char) (cs : Text) :
    readings state 0 (c :: cs) = ⟨state, c, cs⟩ ::
      readings (readStep state c cs).1 0 (cs.drop (readStep state c cs).2) := by
  rw [readings, readings_skip]

def dollarQuoted (sql : Sql) : List Char :=
  (readings .normal 0 sql).filterMap fun r =>
    match r.state with
    | .dollarQuote _ => some r.char
    | _ => none

/-- What follows each semicolon that the lexer reads at top level. -/
def afterSemicolons (state : LexState) (sql : Sql) : List Text :=
  (readings state 0 sql).filterMap fun r =>
    if r.state = .normal ∧ r.char = ';' then some r.rest else none

theorem not_closes {c : Char} {cs : Text} (h : ¬['*', '/'] <:+: c :: cs) :
    ¬(c = '*' ∧ cs.head? = some '/') := by
  rintro ⟨rfl, hhead⟩
  obtain ⟨t, rfl⟩ := List.head?_eq_some_iff.mp hhead
  exact h ⟨[], t, rfl⟩

theorem not_closes_append {c : Char} {cs : Text} (h : ¬['*', '/'] <:+: c :: cs) (rest : Text) :
    ¬(c = '*' ∧ (cs ++ '*' :: rest).head? = some '/') := by
  cases cs with
  | nil => simp
  | cons d ds =>
    have hclosed : ¬(c = '*' ∧ (d :: ds).head? = some '/') := not_closes h
    exact hclosed

end SshCommander.SplitterLexer
