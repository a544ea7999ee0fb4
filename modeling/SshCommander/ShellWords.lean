import Mathlib.Data.List.Basic
import SshCommander.RustText

/-!
# The words of a POSIX shell command

Token recognition: single quotes, the backslash outside quotes, words split at unquoted blanks, and
operators of unquoted metacharacters. Double quotes, comments and expansions are not read.
-/

namespace SshCommander.ShellWords
open RustText

inductive Token where
  | word (value : Text)
  /-- Unquoted digits directly before a redirection. -/
  | ioNumber (digits : Text)
  | operator (text : Text)
  deriving DecidableEq, Repr

def isBlank (c : Char) : Bool := c = ' ' || c = '\t'

def operators : List Text :=
  ["&".toList, "&&".toList, "(".toList, ")".toList, ";".toList, ";;".toList, "\n".toList,
    "|".toList, "||".toList, "<".toList, ">".toList, ">|".toList, "<<".toList, ">>".toList,
    "<&".toList, ">&".toList, "<<-".toList, "<>".toList]

def isMeta (c : Char) : Bool := [c] ∈ operators

/-- What has been read of the token under way. -/
inductive Mode where
  | between
  | word (value : Text) (quoted : Bool)
  | single (value : Text)
  | escape (before : Mode)
  | operator (text : Text)
  deriving DecidableEq, Repr

def start (c : Char) : Mode :=
  if isBlank c then .between
  else if c = '\'' then .single []
  else if c = '\\' then .escape .between
  else if isMeta c then .operator [c]
  else .word [c] false

def endWord (value : Text) (quoted : Bool) (c : Char) : Token :=
  if !quoted && value.all (·.isDigit) && (c = '<' || c = '>') then .ioNumber value else .word value

def step : Mode → Char → Mode × List Token
  | .between, c => (start c, [])
  | .word value quoted, c =>
    if isBlank c then (.between, [.word value])
    else if c = '\'' then (.single value, [])
    else if c = '\\' then (.escape (.word value quoted), [])
    else if isMeta c then (.operator [c], [endWord value quoted c])
    else (.word (value ++ [c]) quoted, [])
  | .single value, c => if c = '\'' then (.word value true, []) else (.single (value ++ [c]), [])
  | .escape before, c =>
    -- a backslash and a newline are as if they were not there
    if c = '\n' then (before, [])
    else match before with
      | .word value _ => (.word (value ++ [c]) true, [])
      | .operator text => (.word [c] true, [.operator text])
      | _ => (.word [c] true, [])
  | .operator text, c =>
    if text ++ [c] ∈ operators then (.operator (text ++ [c]), [])
    else if c = '\\' then (.escape (.operator text), [])
    else (start c, [.operator text])

/-- The token under way at the end; `none` where a quote or a backslash is open. -/
def finish : Mode → Option (List Token)
  | .between => some []
  | .word value _ => some [.word value]
  | .operator text => some [.operator text]
  | .single _ | .escape _ => none

def run : Mode → Text → Mode × List Token
  | mode, [] => (mode, [])
  | mode, c :: cs => ((run (step mode c).1 cs).1, (step mode c).2 ++ (run (step mode c).1 cs).2)

def tokensFrom (mode : Mode) (s : Text) : Option (List Token) :=
  (finish (run mode s).1).map ((run mode s).2 ++ ·)

def tokenize (s : Text) : Option (List Token) := tokensFrom .between s

def wordsOnly : List Token → Option (List Text)
  | [] => some []
  | .word value :: ts => (wordsOnly ts).map (value :: ·)
  | _ => none

/-- The words of a command that has no operators. -/
def wordsOf (s : Text) : Option (List Text) := (tokenize s).bind wordsOnly

variable {mode mode' : Mode} {s : Text} {c : Char} {ts : List Token}

theorem run_append (mode : Mode) (s s' : Text) : run mode (s ++ s') =
    ((run (run mode s).1 s').1, (run mode s).2 ++ (run (run mode s).1 s').2) := by
  induction s generalizing mode with
  | nil => rfl
  | cons c s ih => simp [run, ih]

theorem tokensFrom_append (mode : Mode) (s s' : Text) : tokensFrom mode (s ++ s') =
    (tokensFrom (run mode s).1 s').map ((run mode s).2 ++ ·) := by
  simp only [tokensFrom, run_append, Option.map_map]
  congr 1
  funext out
  simp

theorem not_mem_operators_of_blank (text : Text) (h : isBlank c = true) :
    text ++ [c] ∉ operators := by
  intro hmem
  have hall : operators.all (fun op => op.all (!isBlank ·)) = true := by decide
  have hop : (text ++ [c]).all (!isBlank ·) = true := List.all_eq_true.mp hall _ hmem
  simp [h] at hop

/-- An unquoted blank ends the token under way. -/
theorem step_blank (h : isBlank c = true) (hfin : finish mode = some ts) :
    step mode c = (.between, ts) := by
  have hstart : start c = .between := by simp [start, h]
  cases mode with
  | between => simp_all [step, finish]
  | word value quoted => simp_all [step, finish]
  | operator text =>
    have hc : c ≠ '\\' := fun hc => by simp [hc, isBlank] at h
    simp_all [step, finish, not_mem_operators_of_blank text h]
  | single | escape => cases hfin

/-- What comes after a complete text and a blank is read on its own. -/
theorem tokenize_blank (h : isBlank c = true) (hs : tokenize s = some ts) (rest : Text) :
    tokenize (s ++ c :: rest) = (tokenize rest).map (ts ++ ·) := by
  obtain ⟨out, hfin, rfl⟩ := Option.map_eq_some_iff.mp hs
  have hstep : step (run .between s).1 c = (.between, out) := step_blank h hfin
  rw [tokenize, tokensFrom_append, ← List.singleton_append, tokensFrom_append]
  simp only [run, hstep, tokenize, Option.map_map]
  congr 1
  funext more
  simp

theorem wordsOf_words {words : List Text} (h : tokenize s = some (words.map .word)) :
    wordsOf s = some words := by
  rw [wordsOf, h, Option.bind_some]
  clear h
  induction words with
  | nil => rfl
  | cons word words ih => rw [List.map_cons, wordsOnly, ih, Option.map_some]

/-- A character that stands for itself outside quotes, at any place. -/
def isOrdinary (c : Char) : Bool := !isBlank c && c != '\'' && c != '\\' && !isMeta c

def special : Text := " \t'\\&();\n|<>".toList

theorem special_of_isMeta (h : isMeta c = true) : c ∈ special := by
  have hall : operators.all (fun op => op.length != 1 || op.all (special.contains ·)) = true := by
    decide +kernel
  simpa using List.all_eq_true.mp hall [c] (of_decide_eq_true h)

theorem isOrdinary_of_not_mem (h : c ∉ special) : isOrdinary c = true := by
  have hmeta : isMeta c = false := Bool.eq_false_iff.mpr fun hm => h (special_of_isMeta hm)
  have hne : ∀ d ∈ special, c ≠ d := fun d hd hc => h (hc ▸ hd)
  have hblank : isBlank c = false := by
    simp [isBlank, hne ' ' (by decide), hne '\t' (by decide)]
  simp [isOrdinary, hmeta, hblank, hne '\'' (by decide), hne '\\' (by decide)]

/-- Letters and digits are ordinary. -/
theorem isOrdinary_of_isAlphanum (h : c.isAlphanum = true) : isOrdinary c = true := by
  refine isOrdinary_of_not_mem fun hmem => ?_
  have hall : special.all (! ·.isAlphanum) = true := by decide +kernel
  have hnot := List.all_eq_true.mp hall c hmem
  simp [h] at hnot

theorem run_ordinary (value : Text) (h : ∀ c ∈ s, isOrdinary c = true) :
    run (.word value false) s = (.word (value ++ s) false, []) := by
  induction s generalizing value with
  | nil => simp [run]
  | cons c s ih =>
    have hc := h c List.mem_cons_self
    simp only [isOrdinary, Bool.and_eq_true, Bool.not_eq_true', bne_iff_ne] at hc
    have hstep : step (.word value false) c = (.word (value ++ [c]) false, []) := by
      simp [step, hc]
    simp [run, hstep, ih (value ++ [c]) fun c hmem => h c (List.mem_cons_of_mem _ hmem)]

/-- A text of ordinary characters is read as it stands. -/
theorem run_word (hne : s ≠ []) (h : ∀ c ∈ s, isOrdinary c = true) :
    run .between s = (.word s false, []) := by
  obtain ⟨c, s, rfl⟩ := List.exists_cons_of_ne_nil hne
  have hc := h c List.mem_cons_self
  simp only [isOrdinary, Bool.and_eq_true, Bool.not_eq_true', bne_iff_ne] at hc
  have hstep : step .between c = (.word [c] false, []) := by simp [step, start, hc]
  simp [run, hstep, run_ordinary [c] fun d hmem => h d (List.mem_cons_of_mem _ hmem)]

theorem tokenize_ordinary (hne : s ≠ []) (h : ∀ c ∈ s, isOrdinary c = true) :
    tokenize s = some [.word s] := by
  rw [tokenize, tokensFrom, run_word hne h]
  rfl

/-- A text without a quote is read as it stands between quotes. -/
theorem run_single (value : Text) (h : '\'' ∉ s) :
    run (.single value) s = (.single (value ++ s), []) := by
  induction s generalizing value with
  | nil => simp [run]
  | cons c s ih =>
    have hc : c ≠ '\'' := fun heq => h (heq ▸ List.mem_cons_self)
    have hstep : step (.single value) c = (.single (value ++ [c]), []) := by simp [step, hc]
    simp [run, hstep, ih (value ++ [c]) fun hmem => h (List.mem_cons_of_mem _ hmem)]

/-- A quote and a blank end the word. -/
theorem run_close (value rest : Text) : run (.single value) ('\'' :: ' ' :: rest) =
    ((run .between rest).1, .word value :: (run .between rest).2) := rfl

theorem tokenize_single (h : '\'' ∉ s) : tokenize ('\'' :: s ++ ['\'']) = some [.word s] := by
  have hopen : run .between ['\''] = (.single [], []) := by decide
  have hclose : run (.single s) ['\''] = (.word s true, []) := rfl
  have hsplit : '\'' :: s ++ ['\''] = ['\''] ++ (s ++ ['\'']) := rfl
  rw [tokenize, tokensFrom, hsplit, run_append, hopen, run_append, run_single [] h,
    List.nil_append, hclose]
  rfl

end SshCommander.ShellWords
