import SshCommander.ShellWords

/-!
# Quoting for a remote shell

`quote` writes any text as one word of a shell command, and `git_status` writes a path between
quotes of its own, after it has refused one with a quote in it.
-/

namespace SshCommander.ShellQuoting
open RustText ShellWords

def escapeQuotes (s : Text) : Text := s.flatMap fun ch => if ch = '\'' then "'\\''".toList else [ch]

def quote (s : Text) : Text := '\'' :: escapeQuotes s ++ ['\'']

inductive ToolsError where
  | parse (message : Text)
  deriving DecidableEq, Repr

def gitCommand (repoPath : Text) : Text :=
  "git -C '".toList ++ repoPath ++ "' status --porcelain=v2 --branch 2>&1 ; ".toList ++
    "echo '--LOG--' ; ".toList ++
    "git -C '".toList ++ repoPath ++ "' log -1 --format='%H%x09%an%x09%ar%x09%s' 2>&1".toList

/-- `git_status`, up to the command that it sends. -/
def gitStatusCommand (repoPath : Text) : Except ToolsError Text :=
  if '\'' ∈ repoPath then .error (.parse "repo path contains a single quote".toList)
  else .ok (gitCommand repoPath)

def gitTokens (repoPath : Text) : List Token :=
  [.word "git".toList, .word "-C".toList, .word repoPath, .word "status".toList,
    .word "--porcelain=v2".toList, .word "--branch".toList,
    .ioNumber "2".toList, .operator ">&".toList, .word "1".toList, .operator ";".toList,
    .word "echo".toList, .word "--LOG--".toList, .operator ";".toList,
    .word "git".toList, .word "-C".toList, .word repoPath, .word "log".toList, .word "-1".toList,
    .word "--format=%H%x09%an%x09%ar%x09%s".toList,
    .ioNumber "2".toList, .operator ">&".toList, .word "1".toList]

variable {s repoPath cmd : Text} {b b' : Char} {ts : List Token}

/-- Between the outer quotes, each quote of the text closes the quotes, stands escaped, and opens
them again. -/
theorem run_escapeQuotes (value s : Text) :
    run (.single value) (escapeQuotes s) = (.single (value ++ s), []) := by
  induction s generalizing value with
  | nil => simp [escapeQuotes, run]
  | cons ch s ih =>
    have hchar : run (.single value) (if ch = '\'' then "'\\''".toList else [ch]) =
        (.single (value ++ [ch]), []) := by
      by_cases hch : ch = '\''
      · subst hch
        rfl
      · simp [hch, run, step]
    have hrest : run (.single (value ++ [ch])) (escapeQuotes s) =
        (.single (value ++ ch :: s), []) := by
      rw [ih, List.append_assoc]
      rfl
    rw [escapeQuotes, List.flatMap_cons, run_append, hchar]
    exact congrArg (fun r : Mode × List Token => (r.1, [] ++ r.2)) hrest

theorem run_quote (s : Text) : run .between (quote s) = (.word s true, []) := by
  have hopen : run .between ['\''] = (.single [], []) := by decide
  have hclose : run (.single s) ['\''] = (.word s true, []) := rfl
  have hsplit : quote s = ['\''] ++ (escapeQuotes s ++ ['\'']) := rfl
  rw [hsplit, run_append, hopen, run_append, run_escapeQuotes, List.nil_append, hclose]
  rfl

theorem tokenize_quote (s : Text) : tokenize (quote s) = some [.word s] := by
  rw [tokenize, tokensFrom, run_quote]
  rfl

/-- Between blanks, after any text whose quotes are closed, the quoted text is one word. -/
theorem tokenize_quote_between {before : Text} (hb : isBlank b = true) (hb' : isBlank b' = true)
    (h : tokenize before = some ts) (after : Text) :
    tokenize (before ++ b :: quote s ++ b' :: after) =
      (tokenize after).map (ts ++ .word s :: ·) := by
  have hquoted : tokenize (before ++ b :: quote s) = some (ts ++ [.word s]) := by
    rw [tokenize_blank hb h, tokenize_quote]
    rfl
  rw [tokenize_blank hb' hquoted]
  simp

/-- A path after the opening quote of the command. -/
theorem run_path (h : '\'' ∉ repoPath) (rest : Text) :
    run .between ("git -C '".toList ++ (repoPath ++ rest)) =
      ((run (.single repoPath) rest).1,
        .word "git".toList :: .word "-C".toList :: (run (.single repoPath) rest).2) := by
  have hstart : run .between "git -C '".toList =
      (.single [], [.word "git".toList, .word "-C".toList]) := by decide
  rw [run_append, hstart, run_append, run_single [] h]
  rfl

theorem run_status (value rest : Text) :
    run (.single value) ("' status --porcelain=v2 --branch 2>&1 ; ".toList ++ rest) =
      ((run .between rest).1, .word value :: .word "status".toList ::
        .word "--porcelain=v2".toList :: .word "--branch".toList :: .ioNumber "2".toList ::
        .operator ">&".toList :: .word "1".toList :: .operator ";".toList ::
        (run .between rest).2) := by
  have hopen : "' status --porcelain=v2 --branch 2>&1 ; ".toList =
      '\'' :: ' ' :: "status --porcelain=v2 --branch 2>&1 ; ".toList := by decide
  have hstatus : run .between "status --porcelain=v2 --branch 2>&1 ; ".toList =
      (.between, [.word "status".toList, .word "--porcelain=v2".toList, .word "--branch".toList,
        .ioNumber "2".toList, .operator ">&".toList, .word "1".toList,
        .operator ";".toList]) := by decide +kernel
  rw [hopen, List.cons_append, List.cons_append, run_close, run_append, hstatus]
  rfl

theorem run_echo (rest : Text) : run .between ("echo '--LOG--' ; ".toList ++ rest) =
    ((run .between rest).1, .word "echo".toList :: .word "--LOG--".toList ::
      .operator ";".toList :: (run .between rest).2) := by
  have hecho : run .between "echo '--LOG--' ; ".toList =
      (.between, [.word "echo".toList, .word "--LOG--".toList, .operator ";".toList]) := by
    decide +kernel
  rw [run_append, hecho]
  rfl

theorem run_log (value : Text) :
    run (.single value) "' log -1 --format='%H%x09%an%x09%ar%x09%s' 2>&1".toList =
      (.word "1".toList false, [.word value, .word "log".toList, .word "-1".toList,
        .word "--format=%H%x09%an%x09%ar%x09%s".toList, .ioNumber "2".toList,
        .operator ">&".toList]) := by
  have hopen : "' log -1 --format='%H%x09%an%x09%ar%x09%s' 2>&1".toList =
      '\'' :: ' ' :: "log -1 --format='%H%x09%an%x09%ar%x09%s' 2>&1".toList := by decide
  have hlog : run .between "log -1 --format='%H%x09%an%x09%ar%x09%s' 2>&1".toList =
      (.word "1".toList false, [.word "log".toList, .word "-1".toList,
        .word "--format=%H%x09%an%x09%ar%x09%s".toList, .ioNumber "2".toList,
        .operator ">&".toList]) := by decide +kernel
  rw [hopen, run_close, hlog]

theorem tokenize_gitCommand (h : '\'' ∉ repoPath) :
    tokenize (gitCommand repoPath) = some (gitTokens repoPath) := by
  unfold tokenize tokensFrom gitCommand
  simp only [List.append_assoc]
  rw [run_path h, run_status, run_echo, run_path h, run_log]
  rfl

/-- A shell reads `quote` of any text, between blanks and outside other quotes, as one word with
that text as its value. And it reads the command of `git_status`, for every path that is accepted,
as the commands that are meant, with the path as the word after each `-C`. -/
theorem words_keep_value :
    (∀ (s before after : Text) (ts : List Token) (b b' : Char), isBlank b = true →
      isBlank b' = true → tokenize before = some ts →
      tokenize (before ++ b :: quote s ++ b' :: after) =
        (tokenize after).map (ts ++ .word s :: ·)) ∧
    (∀ repoPath cmd : Text, gitStatusCommand repoPath = .ok cmd →
      tokenize cmd = some (gitTokens repoPath)) := by
  refine ⟨fun s before after ts b b' hb hb' h => tokenize_quote_between hb hb' h after, ?_⟩
  intro repoPath cmd hcmd
  unfold gitStatusCommand at hcmd
  split at hcmd
  · cases hcmd
  · obtain rfl := Except.ok.inj hcmd
    exact tokenize_gitCommand ‹_›

/-- A word with quotes, a backslash and operators in it, and a path with a blank. -/
theorem words_keep_value_attack :
    tokenize ("cat ".toList ++ ' ' :: quote "it's; \\'rm\n".toList ++ ' ' :: "| sort".toList) =
      some [.word "cat".toList, .word "it's; \\'rm\n".toList, .operator "|".toList,
        .word "sort".toList] ∧
    tokenize (gitCommand "my repo".toList) = some (gitTokens "my repo".toList) :=
  ⟨words_keep_value.1 _ _ _ [.word "cat".toList] ' ' ' ' rfl rfl (by decide),
    words_keep_value.2 _ _ rfl⟩

end SshCommander.ShellQuoting
