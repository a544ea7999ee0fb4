import SshCommander.SqlStatementSplit

/-!
# PostgreSQL's lexer

Where the server's quotes, comments and names begin and end, one character after another, with
`standard_conforming_strings` on. Numbers and operators are read no further than that needs.
-/

namespace SshCommander.PostgresLexer
open RustText SqlStatementSplit

def isSpace (c : Char) : Bool :=
  c == ' ' || c == '\t' || c == '\n' || c == '\r' || c == '\x0b' || c == '\x0c'

def isLetter (c : Char) : Bool :=
  (65 ≤ c.toNat && c.toNat ≤ 90) || (97 ≤ c.toNat && c.toNat ≤ 122) || c.toNat == 95 ||
    128 ≤ c.toNat

def isDigit (c : Char) : Bool := 48 ≤ c.toNat && c.toNat ≤ 57

/-- A dollar goes on with a name but does not start one. -/
def continuesName (c : Char) : Bool := isLetter c || isDigit c || c == '$'

def dollarTag : Text → Option Text
  | [] => none
  | c :: cs =>
    if c = '$' then
      if cs.head? = some '$' then some ['$', '$']
      else if cs.head?.any isLetter &&
          (cs.dropWhile fun c => isLetter c || isDigit c).head? == some '$' then
        some ('$' :: cs.takeWhile (fun c => isLetter c || isDigit c) ++ ['$'])
      else none
    else none

inductive State where
  | normal
  | word
  | number
  /-- After an E that a quote follows at once. -/
  | marked
  | single
  | escape
  /-- After a backslash in an escape string. -/
  | escaped
  /-- After the end of an escape string, which goes on with a quote on a later line. -/
  | gap (newline : Bool)
  | gapLine
  | double
  | line
  /-- In a block comment, inside so many others. -/
  | block (depth : ℕ)
  | dollar (tag : Text)
  deriving DecidableEq

/-- A line comment ends at a newline or a carriage return; of the two together, at the newline. -/
def endsLine (c : Char) (cs : Text) : Bool :=
  c == '\n' || (c == '\r' && cs.head? != some '\n')

/-- Where a character does not go on with what was read before, it is read from the start. -/
def settle (state : State) (c : Char) (cs : Text) : State :=
  match state with
  | .word => if continuesName c then .word else .normal
  | .number => if isLetter c || isDigit c then .number else .normal
  | .gap newline =>
    if isSpace c || (c == '-' && cs.head? == some '-') || (c == '\'' && newline) then .gap newline
    else .normal
  | other => other

/-- One character: the next state, and how many of the characters that follow belong to it. -/
def readStep (state : State) (c : Char) (cs : Text) : State × ℕ :=
  match state with
  | .normal =>
    if c = '\'' then (.single, 0)
    else if c = '"' then (.double, 0)
    else if c = '-' ∧ cs.head? = some '-' then (.line, 1)
    else if c = '/' ∧ cs.head? = some '*' then (.block 0, 1)
    else if (c = 'E' ∨ c = 'e') ∧ cs.head? = some '\'' then (.marked, 0)
    else if isLetter c then (.word, 0)
    else if isDigit c then (.number, 0)
    else
      match dollarTag (c :: cs) with
      | some tag => (.dollar tag, tag.length - 1)
      | none => (.normal, 0)
  | .word => (.word, 0)
  | .number => (.number, 0)
  | .marked => (.escape, 0)
  | .single =>
    if c = '\'' then if cs.head? = some '\'' then (.single, 1) else (.normal, 0) else (.single, 0)
  | .escape =>
    if c = '\'' then if cs.head? = some '\'' then (.escape, 1) else (.gap false, 0)
    else if c = '\\' then (.escaped, 0)
    else (.escape, 0)
  | .escaped => (.escape, 0)
  | .gap newline =>
    if c = '\'' then (.escape, 0)
    else if c = '-' then (.gapLine, 1)
    else (.gap (newline || c == '\n' || c == '\r'), 0)
  | .gapLine => (if endsLine c cs then .gap true else .gapLine, 0)
  | .double =>
    if c = '"' then if cs.head? = some '"' then (.double, 1) else (.normal, 0) else (.double, 0)
  | .line => (if endsLine c cs then .normal else .line, 0)
  | .block depth =>
    if c = '*' ∧ cs.head? = some '/' then
      (match depth with
        | 0 => .normal
        | outer + 1 => .block outer, 1)
    else if c = '/' ∧ cs.head? = some '*' then (.block (depth + 1), 1)
    else (.block depth, 0)
  | .dollar tag =>
    if tag.isPrefixOf (c :: cs) then (.normal, tag.length - 1) else (.dollar tag, 0)

structure Reading where
  state : State
  char : Char
  rest : Text
  deriving DecidableEq

/-- Each character that is read by itself, with the state it is read in and what follows. -/
def readings (state : State) : ℕ → Text → List Reading
  | _, [] => []
  | skip + 1, _ :: cs => readings state skip cs
  | 0, c :: cs =>
    let settled := settle state c cs
    ⟨settled, c, cs⟩ :: readings (readStep settled c cs).1 (readStep settled c cs).2 cs

/-- What follows each semicolon that is a token. -/
def afterSemicolons (sql : Sql) : List Text :=
  (readings .normal 0 sql).filterMap fun r =>
    if r.state = .normal ∧ r.char = ';' then some r.rest else none

/-- What is left of a text after its tokens: white space, comments and semicolons. -/
def Reading.idle (r : Reading) : Bool :=
  match r.state with
  | .normal => isSpace r.char || r.char == ';' || (r.char == '-' && r.rest.head? == some '-') ||
      (r.char == '/' && r.rest.head? == some '*')
  | .line | .block _ => true
  | _ => false

def endState (state : State) : ℕ → Text → State
  | _, [] => state
  | skip + 1, _ :: cs => endState state skip cs
  | 0, c :: cs =>
    let next := readStep (settle state c cs) c cs
    endState next.1 next.2 cs

def State.inComment : State → Bool
  | .block _ => true
  | _ => false

/-- No statement stands in the text, and no comment is left open. -/
def holdsNothing (sql : Sql) : Bool :=
  (readings .normal 0 sql).all Reading.idle && !(endState .normal 0 sql).inComment

theorem readings_skip (state : State) (skip : ℕ) (s : Text) :
    readings state skip s = readings state 0 (s.drop skip) := by
  induction s generalizing skip with
  | nil => cases skip <;> rfl
  | cons c cs ih =>
    cases skip with
    | zero => rfl
    | succ skip => exact ih skip

theorem readings_cons (state : State) (c : Char) (cs : Text) :
    readings state 0 (c :: cs) = ⟨settle state c cs, c, cs⟩ ::
      readings (readStep (settle state c cs) c cs).1 0
        (cs.drop (readStep (settle state c cs) c cs).2) := by
  rw [readings, readings_skip]

end SshCommander.PostgresLexer
