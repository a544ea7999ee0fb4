import SshCommander.TextSplitting

/-!
# The output of `git status`

`git_status` sends the status and the last commit over one channel, with `--LOG--` between them, and
reads both back. The text is read as it was written exactly when no line has the separator or the
text of an error in it and no value has blanks around it.
-/

namespace SshCommander.GitStatusParse
open RustText

inductive ToolsError where
  | remoteCommand (exit : Option Int) (message : Text)
  deriving DecidableEq, Repr

structure GitStatus where
  repoPath : Text
  branch : Option Text
  head : Option Text
  upstream : Option Text
  ahead : UInt32
  behind : UInt32
  dirtyFiles : UInt32
  untrackedFiles : UInt32
  lastCommitSha : Option Text
  lastCommitAuthor : Option Text
  lastCommitAge : Option Text
  lastCommitSubject : Option Text
  deriving DecidableEq, Repr

def separator : Text := "--LOG--".toList

def splitLog (output : Text) : Text × Text :=
  match output.dropInfix? separator with
  | some (a, b) => (a, trim b)
  | none => (output, [])

def parseCount (n : Text) : UInt32 := UInt32.ofNat ((parseUnsigned UInt32.size n).getD 0)

/-- A part of the line `+<ahead> -<behind>`. -/
def readPart (st : GitStatus) (part : Text) : GitStatus :=
  match part with
  | '+' :: n => { st with ahead := parseCount n }
  | '-' :: n => { st with behind := parseCount n }
  | _ => st

def headPrefix : Text := "# branch.head ".toList
def oidPrefix : Text := "# branch.oid ".toList
def upstreamPrefix : Text := "# branch.upstream ".toList
def abPrefix : Text := "# branch.ab ".toList

def readLine (st : GitStatus) (line : Text) : GitStatus :=
  match line.dropPrefix? headPrefix with
  | some rest => if trim rest ≠ "(detached)".toList then { st with branch := some (trim rest) } else st
  | none =>
  match line.dropPrefix? oidPrefix with
  | some rest => if trim rest ≠ "(initial)".toList then { st with head := some (trim rest) } else st
  | none =>
  match line.dropPrefix? upstreamPrefix with
  | some rest => { st with upstream := some (trim rest) }
  | none =>
  match line.dropPrefix? abPrefix with
  | some rest => (splitWhitespace rest).foldl readPart st
  | none =>
  if ['?', ' '].isPrefixOf line then { st with untrackedFiles := st.untrackedFiles + 1 }
  else if ['1', ' '].isPrefixOf line || ['2', ' '].isPrefixOf line || ['u', ' '].isPrefixOf line then
    { st with dirtyFiles := st.dirtyFiles + 1 }
  else st

def logField (parts : List Text) (i : ℕ) : Option Text := parts[i]?.filter (! ·.isEmpty)

def readLog (st : GitStatus) (logBlock : Text) : GitStatus :=
  if !logBlock.isEmpty && !"fatal:".toList.isPrefixOf logBlock then
    let parts := splitn (· == '\t') 4 (firstLine logBlock)
    { st with
      lastCommitSha := logField parts 0
      lastCommitAuthor := logField parts 1
      lastCommitAge := logField parts 2
      lastCommitSubject := logField parts 3 }
  else st

def empty (repoPath : Text) : GitStatus :=
  ⟨repoPath, none, none, none, 0, 0, 0, 0, none, none, none, none⟩

def parse (repoPath output : Text) : Except ToolsError GitStatus :=
  let blocks := splitLog output
  if containsText blocks.1 "fatal: not a git repository".toList ||
      containsText blocks.1 "fatal: ".toList then
    .error (.remoteCommand none (trim ((lines blocks.1).head?.getD "git error".toList)))
  else .ok (readLog ((lines blocks.1).foldl readLine (empty repoPath)) blocks.2)

def isControl (c : Char) : Bool := c.toNat < 32 || c.toNat == 127

def Value := { s : Text // ∀ c ∈ s, isControl c = false }

def Path := { s : Text // ∀ c ∈ s, isControl c = false ∧ c ≠ '"' ∧ c ≠ '\\' }

/-- The lines for files. The fields are those between the kind of the line and the path. -/
inductive Entry where
  | ordinary (fields : Value) (path : Path)
  | renamed (fields : Value) (path origPath : Path)
  | unmerged (fields : Value) (path : Path)
  | untracked (path : Path)

def Entry.line : Entry → Text
  | .ordinary fields path => '1' :: ' ' :: (fields.1 ++ ' ' :: path.1)
  | .renamed fields path origPath => '2' :: ' ' :: (fields.1 ++ ' ' :: path.1 ++ '\t' :: origPath.1)
  | .unmerged fields path => 'u' :: ' ' :: (fields.1 ++ ' ' :: path.1)
  | .untracked path => '?' :: ' ' :: path.1

def Entry.isUntracked : Entry → Bool
  | .untracked _ => true
  | _ => false

structure LogField (s : Text) : Prop where
  trimmed : Trimmed s
  oneLine : '\n' ∉ s

/-- The last commit. Tabs are only in the subject. -/
structure Commit where
  sha : Text
  author : Text
  age : Text
  subject : Text
  sha_field : LogField sha
  author_field : LogField author
  age_field : LogField age
  subject_field : LogField subject
  sha_tab : '\t' ∉ sha
  author_tab : '\t' ∉ author
  age_tab : '\t' ∉ age

def Commit.line (c : Commit) : Text :=
  c.sha ++ '\t' :: (c.author ++ '\t' :: (c.age ++ '\t' :: c.subject))

/-- A repository: no branch where the head is detached, no commit where there is none yet, and the
commits ahead and behind where there is an upstream to compare with. -/
structure RepoState where
  oid : Option Value
  branch : Option Value
  upstream : Option Value
  aheadBehind : Option (UInt32 × UInt32)
  entries : List Entry
  commit : Commit

namespace RepoState

def oidText (s : RepoState) : Text := (s.oid.map (·.1)).getD "(initial)".toList

def branchText (s : RepoState) : Text := (s.branch.map (·.1)).getD "(detached)".toList

def upstreamLines (s : RepoState) : List Text :=
  (s.upstream.map fun u => upstreamPrefix ++ u.1).toList

def abLines (s : RepoState) : List Text :=
  (s.aheadBehind.map fun ab =>
    abPrefix ++ ('+' :: decimal ab.1.toNat ++ ' ' :: '-' :: decimal ab.2.toNat)).toList

def statusLines (s : RepoState) : List Text :=
  (oidPrefix ++ s.oidText) :: (headPrefix ++ s.branchText) ::
    (s.upstreamLines ++ s.abLines ++ s.entries.map (·.line))

def render (s : RepoState) : Text :=
  s.statusLines.flatMap (· ++ ['\n']) ++ separator ++ '\n' :: (s.commit.line ++ ['\n'])

def ahead (s : RepoState) : ℕ := (s.aheadBehind.map (·.1.toNat)).getD 0

def behind (s : RepoState) : ℕ := (s.aheadBehind.map (·.2.toNat)).getD 0

def changed (s : RepoState) : ℕ := s.entries.countP (! ·.isUntracked)

def untracked (s : RepoState) : ℕ := s.entries.countP (·.isUntracked)

/-- The status that was read is the one of the repository. -/
structure ReadAs (s : RepoState) (repoPath : Text) (g : GitStatus) : Prop where
  repoPath : g.repoPath = repoPath
  branch : g.branch = s.branch.map (·.1)
  head : g.head = s.oid.map (·.1)
  upstream : g.upstream = s.upstream.map (·.1)
  ahead : g.ahead.toNat = s.ahead
  behind : g.behind.toNat = s.behind
  dirtyFiles : g.dirtyFiles.toNat = s.changed
  untrackedFiles : g.untrackedFiles.toNat = s.untracked
  sha : g.lastCommitSha = some s.commit.sha
  author : g.lastCommitAuthor = some s.commit.author
  age : g.lastCommitAge = some s.commit.age
  subject : g.lastCommitSubject = some s.commit.subject

/-- No line has the separator or an error in it, no value is changed by `trim` or taken for none,
the commit does not start as an error does, and the counters do not overflow. -/
structure Legible (s : RepoState) : Prop where
  separated : ∀ l ∈ s.statusLines, ¬separator <:+: l
  noError : ∀ l ∈ s.statusLines, ¬"fatal: ".toList <:+: l
  branch : ∀ b, s.branch = some b → trim b.1 = b.1 ∧ b.1 ≠ "(detached)".toList
  oid : ∀ o, s.oid = some o → trim o.1 = o.1 ∧ o.1 ≠ "(initial)".toList
  upstream : ∀ u, s.upstream = some u → trim u.1 = u.1
  commit : ¬"fatal:".toList <+: s.commit.sha
  changed : s.changed < UInt32.size
  untracked : s.untracked < UInt32.size

end RepoState

variable {s : RepoState} {st g : GitStatus} {repoPath l rest : Text} {x : Value}

/-- A line without control characters but one tab at most. -/
structure Plain (l : Text) : Prop where
  control : ∀ c ∈ l, isControl c = true → c = '\t'
  tabs : l.count '\t' ≤ 1

theorem Plain.newline (h : Plain l) : '\n' ∉ l := fun hm => absurd (h.control _ hm rfl) (by decide)

theorem Plain.line (h : Plain l) : Line l :=
  ⟨h.newline, fun hr => absurd (h.control _ (List.mem_of_getLast? hr) rfl) (by decide)⟩

def Uncontrolled (l : Text) : Prop := ∀ c ∈ l, isControl c = false

@[simp] theorem uncontrolled_append {a b : Text} :
    Uncontrolled (a ++ b) ↔ Uncontrolled a ∧ Uncontrolled b :=
  List.forall_mem_append

@[simp] theorem uncontrolled_cons {c : Char} :
    Uncontrolled (c :: l) ↔ isControl c = false ∧ Uncontrolled l :=
  List.forall_mem_cons

theorem uncontrolled_value (x : Value) : Uncontrolled x.1 := x.2

theorem uncontrolled_path (path : Path) : Uncontrolled path.1 := fun c hc => (path.2 c hc).1

theorem uncontrolled_decimal (n : ℕ) : Uncontrolled (decimal n) := by
  intro c hc
  have hdigit := isDigit_decimal hc
  simp only [Char.isDigit, Bool.and_eq_true, decide_eq_true_eq] at hdigit
  have hlow : 48 ≤ c.toNat := hdigit.1
  have hhigh : c.toNat ≤ 57 := hdigit.2
  simp only [isControl, Bool.or_eq_false_iff, decide_eq_false_iff_not, beq_eq_false_iff_ne]
  omega

theorem uncontrolled_option {o : Option Value} {default : Text} (h : Uncontrolled default) :
    Uncontrolled ((o.map (·.1)).getD default) := by
  cases o with
  | none => exact h
  | some v => exact v.2

theorem uncontrolled_of_all (h : l.all (! isControl ·) = true) : Uncontrolled l := by
  intro c hc
  simpa using List.all_eq_true.mp h c hc

theorem Uncontrolled.tabs (h : Uncontrolled l) : l.count '\t' = 0 :=
  List.count_eq_zero_of_not_mem fun hm => absurd (h _ hm) (by decide)

theorem Uncontrolled.plain (h : Uncontrolled l) : Plain l := by
  refine ⟨fun c hc hcontrol => ?_, ?_⟩
  · rw [h c hc] at hcontrol
    cases hcontrol
  · rw [h.tabs]
    exact Nat.zero_le 1

/-- A tab between two texts. -/
theorem plain_tab {a b : Text} (ha : Uncontrolled a) (hb : Uncontrolled b) :
    Plain (a ++ '\t' :: b) := by
  refine ⟨fun c hc hcontrol => ?_, ?_⟩
  · obtain hc | hc := List.mem_append.mp hc
    · cases (ha c hc).symm.trans hcontrol
    · obtain rfl | hc := List.mem_cons.mp hc
      · rfl
      · cases (hb c hc).symm.trans hcontrol
  · rw [List.count_append, List.count_cons_self, ha.tabs, hb.tabs]

theorem entry_plain (e : Entry) : Plain e.line := by
  have hcode : ∀ c ∈ ['1', '2', 'u', '?', ' '], isControl c = false := by simp [isControl]
  cases e with
  | ordinary fields path =>
    exact Uncontrolled.plain
      (by simp [Entry.line, hcode, uncontrolled_value, uncontrolled_path])
  | renamed fields path origPath =>
    have hline : Entry.line (.renamed fields path origPath) =
        ('2' :: ' ' :: (fields.1 ++ ' ' :: path.1)) ++ '\t' :: origPath.1 := by
      simp [Entry.line]
    rw [hline]
    exact plain_tab (by simp [hcode, uncontrolled_value, uncontrolled_path])
      (uncontrolled_path origPath)
  | unmerged fields path =>
    exact Uncontrolled.plain
      (by simp [Entry.line, hcode, uncontrolled_value, uncontrolled_path])
  | untracked path =>
    exact Uncontrolled.plain (by simp [Entry.line, hcode, uncontrolled_path])

theorem statusLines_plain (h : l ∈ s.statusLines) : Plain l := by
  rw [RepoState.statusLines, List.mem_cons, List.mem_cons, List.mem_append, List.mem_append] at h
  obtain rfl | rfl | (h | h) | h := h
  · exact Uncontrolled.plain (uncontrolled_append.mpr
      ⟨uncontrolled_of_all (by decide), uncontrolled_option (uncontrolled_of_all (by decide))⟩)
  · exact Uncontrolled.plain (uncontrolled_append.mpr
      ⟨uncontrolled_of_all (by decide), uncontrolled_option (uncontrolled_of_all (by decide))⟩)
  · obtain ⟨u, -, rfl⟩ := Option.map_eq_some_iff.mp (Option.mem_toList.mp h)
    exact Uncontrolled.plain (uncontrolled_append.mpr
      ⟨uncontrolled_of_all (by decide), uncontrolled_value u⟩)
  · obtain ⟨ab, -, rfl⟩ := Option.map_eq_some_iff.mp (Option.mem_toList.mp h)
    refine Uncontrolled.plain (uncontrolled_append.mpr ⟨uncontrolled_of_all (by decide), ?_⟩)
    simp [isControl, uncontrolled_decimal]
  · obtain ⟨e, -, rfl⟩ := List.mem_map.mp h
    exact entry_plain e

theorem newline_notMem_separator : '\n' ∉ separator := by decide

theorem trimmed_line (c : Commit) : Trimmed c.line ∧ '\n' ∉ c.line := by
  have hline : c.line = c.sha ++ ('\t' :: (c.author ++ '\t' :: (c.age ++ ['\t']))) ++ c.subject := by
    simp [Commit.line]
  refine ⟨hline ▸ trimmed_append _ c.sha_field.trimmed c.subject_field.trimmed, ?_⟩
  simp [Commit.line, c.sha_field.oneLine, c.author_field.oneLine, c.age_field.oneLine,
    c.subject_field.oneLine]

/-- Without the separator in a line, the halves are the status and the line of the commit. -/
theorem splitLog_render (h : ∀ l ∈ s.statusLines, ¬separator <:+: l) :
    splitLog s.render = (s.statusLines.flatMap (· ++ ['\n']), s.commit.line) := by
  have hblock : trim ('\n' :: (s.commit.line ++ ['\n'])) = s.commit.line := by
    have hstart := trim_blanks_append (a := ['\n']) (by simp [isWhitespace])
      (s.commit.line ++ ['\n'])
    exact hstart.trans (trim_append_blank (trimmed_line s.commit).1 (by simp [isWhitespace]))
  rw [splitLog, RepoState.render, dropInfix?_after_lines newline_notMem_separator h]
  exact congrArg (Prod.mk _) hblock

theorem Plain.part {t : Text} (h : Plain l) (ht : t <:+: l) : Plain t :=
  ⟨fun c hc => h.control c (ht.sublist.mem hc), (ht.sublist.count_le _).trans h.tabs⟩

/-- With the separator in a line, the second half starts with a part of a line. -/
theorem splitLog_cut (h : ∃ l ∈ s.statusLines, separator <:+: l) :
    Plain (firstLine (splitLog s.render).2) := by
  obtain ⟨l, hl, hsep⟩ := h
  obtain ⟨before, m, after, pre, post, hlines, hm, hcut⟩ :=
    dropInfix?_in_line newline_notMem_separator hl hsep
      (separator ++ '\n' :: (s.commit.line ++ ['\n']))
  have hplain : ∀ l ∈ post :: after, Plain l := by
    intro l hl
    obtain rfl | hl := List.mem_cons.mp hl
    · have hmplain : Plain m := statusLines_plain (s := s) (by simp [hlines])
      exact hmplain.part (hm ▸ (List.suffix_append _ _).isInfix)
    · exact statusLines_plain (s := s) (by simp [hlines, hl])
  have hmarker : separator = '-' :: "-LOG--".toList := by decide
  obtain ⟨part, hpart, hfirst⟩ := firstLine_trim_lines (fun l hl => (hplain l hl).newline)
    (show isWhitespace '-' = false from rfl) (hmarker ▸ newline_notMem_separator)
    (s.commit.line ++ ['\n'])
  have hpartplain : Plain part := by
    obtain hpart | hpart := List.mem_append.mp hpart
    · exact hplain part hpart
    · rw [List.mem_singleton.mp hpart]
      exact Uncontrolled.plain (uncontrolled_of_all (by decide))
  have hsecond : (splitLog s.render).2 = trim ((post :: after).flatMap (· ++ ['\n']) ++
      ('-' :: "-LOG--".toList ++ '\n' :: (s.commit.line ++ ['\n']))) := by
    rw [splitLog, RepoState.render, List.append_assoc, hcut, hmarker]
    simp
  rw [hsecond]
  exact hpartplain.part hfirst

/-- A line with one tab at most has no third field. -/
theorem logField_age (h : Plain l) : logField (splitn (· == '\t') 4 l) 2 = none := by
  have hcount : l.countP (· == '\t') ≤ 1 := h.tabs
  have hlength := length_splitn (· == '\t') 4 l
  rw [logField, List.getElem?_eq_none (by omega)]
  rfl

theorem readLog_age (h : Plain (firstLine rest)) (hst : st.lastCommitAge = none) :
    (readLog st rest).lastCommitAge = none := by
  unfold readLog
  split
  · exact logField_age h
  · exact hst

theorem splitn_line (c : Commit) :
    splitn (· == '\t') 4 c.line = [c.sha, c.author, c.age, c.subject] := by
  have hfield {a : Text} (h : '\t' ∉ a) : ∀ d ∈ a, (d == '\t') = false := fun d hd =>
    beq_eq_false_iff_ne.mpr fun he => h (he ▸ hd)
  rw [Commit.line, splitn_field (hfield c.sha_tab) rfl, splitn_field (hfield c.author_tab) rfl,
    splitn_field (hfield c.age_tab) rfl, splitn]

theorem fatal_prefix_iff (c : Commit) :
    "fatal:".toList <+: c.line ↔ "fatal:".toList <+: c.sha := by
  constructor
  · intro h
    obtain h | ⟨t, ht, hpre⟩ := prefix_append h
    · exact h
    · cases t with
      | nil => exact ⟨[], by rw [ht, List.append_nil, List.append_nil]⟩
      | cons d t =>
        obtain ⟨rfl, -⟩ := List.cons_prefix_cons.mp hpre
        have hmem : '\t' ∈ "fatal:".toList := by rw [ht]; simp
        exact absurd hmem (by decide)
  · exact fun h => h.trans (List.prefix_append _ _)

theorem readLog_line (c : Commit) (st : GitStatus) :
    readLog st c.line =
      if "fatal:".toList <+: c.sha then st
      else { st with
        lastCommitSha := some c.sha
        lastCommitAuthor := some c.author
        lastCommitAge := some c.age
        lastCommitSubject := some c.subject } := by
  obtain ⟨htrimmed, hone⟩ := trimmed_line c
  have hsome : c.line.isEmpty = false := by simpa using htrimmed.nonempty
  have hfields : ∀ f, LogField f → f.isEmpty = false := fun f hf => by simpa using hf.trimmed.nonempty
  rw [readLog, firstLine_one hone, splitn_line]
  by_cases hfatal : "fatal:".toList <+: c.sha
  · have hpre : "fatal:".toList.isPrefixOf c.line = true :=
      List.isPrefixOf_iff_prefix.mpr ((fatal_prefix_iff c).mpr hfatal)
    rw [hpre, if_pos hfatal, if_neg (by simp)]
  · have hpre : "fatal:".toList.isPrefixOf c.line = false :=
      Bool.eq_false_iff.mpr fun h =>
        hfatal ((fatal_prefix_iff c).mp (List.isPrefixOf_iff_prefix.mp h))
    rw [hpre, hsome, if_neg hfatal, if_pos (by simp)]
    simp [logField, hfields _ c.sha_field, hfields _ c.author_field, hfields _ c.age_field,
      hfields _ c.subject_field]

theorem readLine_head (st : GitStatus) (rest : Text) :
    readLine st (headPrefix ++ rest) =
      if trim rest ≠ "(detached)".toList then { st with branch := some (trim rest) } else st := by
  rw [readLine, dropPrefix?_self]

theorem readLine_oid (st : GitStatus) (rest : Text) :
    readLine st (oidPrefix ++ rest) =
      if trim rest ≠ "(initial)".toList then { st with head := some (trim rest) } else st := by
  have hhead : (oidPrefix ++ rest).dropPrefix? headPrefix = none := rfl
  rw [readLine, hhead, dropPrefix?_self]

theorem readLine_upstream (st : GitStatus) (rest : Text) :
    readLine st (upstreamPrefix ++ rest) = { st with upstream := some (trim rest) } := by
  have hhead : (upstreamPrefix ++ rest).dropPrefix? headPrefix = none := rfl
  have hoid : (upstreamPrefix ++ rest).dropPrefix? oidPrefix = none := rfl
  rw [readLine, hhead, hoid, dropPrefix?_self]

theorem parseCount_decimal (n : UInt32) : parseCount (decimal n.toNat) = n := by
  rw [parseCount, parseUnsigned_decimal n.toNat_lt]
  exact UInt32.ofNat_toNat

theorem word_sign {c : Char} (hc : isWhitespace c = false) (n : ℕ) : Word (c :: decimal n) := by
  refine ⟨by simp, fun d hd => ?_⟩
  obtain rfl | hd := List.mem_cons.mp hd
  · exact hc
  · exact (word_decimal n).solid d hd

theorem readLine_ab (st : GitStatus) (a b : UInt32) :
    readLine st (abPrefix ++ '+' :: (decimal a.toNat ++ ' ' :: '-' :: decimal b.toNat)) =
      { st with ahead := a, behind := b } := by
  have hhead (rest : Text) : (abPrefix ++ rest).dropPrefix? headPrefix = none := rfl
  have hoid (rest : Text) : (abPrefix ++ rest).dropPrefix? oidPrefix = none := rfl
  have hupstream (rest : Text) : (abPrefix ++ rest).dropPrefix? upstreamPrefix = none := rfl
  have hparts : splitWhitespace ('+' :: (decimal a.toNat ++ ' ' :: '-' :: decimal b.toNat)) =
      ['+' :: decimal a.toNat, '-' :: decimal b.toNat] := by
    rw [← List.cons_append, splitWhitespace_blank rfl, splitWhitespace_word (word_sign rfl _),
      splitWhitespace_word (word_sign rfl _)]
    rfl
  rw [readLine, hhead, hoid, hupstream, dropPrefix?_self]
  simp only [hparts, List.foldl_cons, List.foldl_nil, readPart, parseCount_decimal]

theorem readLine_entry (st : GitStatus) (e : Entry) :
    readLine st e.line =
      if e.isUntracked then { st with untrackedFiles := st.untrackedFiles + 1 }
      else { st with dirtyFiles := st.dirtyFiles + 1 } := by
  cases e <;> rfl

/-- The entries are counted. -/
theorem readLine_entries (st : GitStatus) (es : List Entry) :
    (es.map (·.line)).foldl readLine st =
      { st with
        dirtyFiles := st.dirtyFiles + UInt32.ofNat (es.countP (! ·.isUntracked))
        untrackedFiles := st.untrackedFiles + UInt32.ofNat (es.countP (·.isUntracked)) } := by
  induction es generalizing st with
  | nil => simp
  | cons e es ih =>
    rw [List.map_cons, List.foldl_cons, readLine_entry, ih]
    cases he : e.isUntracked <;> simp [he, UInt32.add_assoc, UInt32.add_comm]

/-- A value as the loop keeps it, where another text stands for none. -/
def keep (absent value : Text) : Option Text :=
  if trim value ≠ absent then some (trim value) else none

def RepoState.readStatus (s : RepoState) (repoPath : Text) : GitStatus :=
  { empty repoPath with
    branch := keep "(detached)".toList s.branchText
    head := keep "(initial)".toList s.oidText
    upstream := s.upstream.map fun u => trim u.1
    ahead := (s.aheadBehind.map (·.1)).getD 0
    behind := (s.aheadBehind.map (·.2)).getD 0
    dirtyFiles := UInt32.ofNat s.changed
    untrackedFiles := UInt32.ofNat s.untracked }

theorem foldl_statusLines (s : RepoState) (repoPath : Text) :
    s.statusLines.foldl readLine (empty repoPath) = s.readStatus repoPath := by
  have hhead : readLine (readLine (empty repoPath) (oidPrefix ++ s.oidText))
      (headPrefix ++ s.branchText) =
        { empty repoPath with
          branch := keep "(detached)".toList s.branchText
          head := keep "(initial)".toList s.oidText } := by
    rw [readLine_oid, readLine_head, keep, keep]
    split <;> split <;> rfl
  rw [RepoState.statusLines, List.foldl_cons, List.foldl_cons, hhead, List.foldl_append,
    List.foldl_append, readLine_entries, RepoState.readStatus, RepoState.upstreamLines,
    RepoState.abLines]
  cases s.upstream <;> cases s.aheadBehind <;>
    simp [readLine_upstream, readLine_ab, empty, RepoState.changed, RepoState.untracked]

/-- A value is kept as it is, or none is kept. -/
theorem keep_option_iff (absent : Text) (o : Option Value) (h : trim absent = absent) :
    keep absent ((o.map (·.1)).getD absent) = o.map (·.1) ↔
      ∀ v, o = some v → trim v.1 = v.1 ∧ v.1 ≠ absent := by
  cases o with
  | none => simp [keep, h]
  | some v =>
    simp only [Option.map_some, Option.getD_some, keep, Option.some.injEq, forall_eq']
    split
    · rename_i hne
      rw [Option.some.injEq]
      exact ⟨fun he => ⟨he, he ▸ hne⟩, And.left⟩
    · rename_i habsent
      rw [not_not] at habsent
      exact iff_of_false (by simp) fun hv => hv.2 (hv.1 ▸ habsent)

/-- What `parse` makes of the output, with an early separator aside. -/
theorem parse_render (h : ∀ l ∈ s.statusLines, ¬separator <:+: l)
    (hfatal : ∀ l ∈ s.statusLines, ¬"fatal: ".toList <:+: l) (repoPath : Text) :
    parse repoPath s.render = .ok (readLog (s.readStatus repoPath) s.commit.line) := by
  have hlines : lines (s.statusLines.flatMap (· ++ ['\n'])) = s.statusLines := by
    have hall := lines_flatMap id s.statusLines (fun l hl => (statusLines_plain hl).line) []
    simpa [lines] using hall
  have hinfix : ¬"fatal: ".toList <:+: s.statusLines.flatMap (· ++ ['\n']) := by
    rw [infix_lines_iff (by decide) (by decide)]
    rintro ⟨l, hl, hl'⟩
    exact hfatal l hl hl'
  have hno : containsText (s.statusLines.flatMap (· ++ ['\n'])) "fatal: ".toList = false := by
    rw [← Bool.not_eq_true, containsText_iff]
    exact hinfix
  have hnot : containsText (s.statusLines.flatMap (· ++ ['\n']))
      "fatal: not a git repository".toList = false := by
    rw [← Bool.not_eq_true, containsText_iff]
    exact fun hrepo =>
      hinfix (List.IsInfix.trans ⟨[], "not a git repository".toList, by decide⟩ hrepo)
  rw [parse, splitLog_render h]
  simp only [hno, hnot, Bool.or_self, Bool.false_eq_true, if_false, hlines, foldl_statusLines]

theorem parse_fatal (h : ∀ l ∈ s.statusLines, ¬separator <:+: l) (hl : l ∈ s.statusLines)
    (hfatal : "fatal: ".toList <:+: l) (repoPath : Text) :
    ∃ e, parse repoPath s.render = .error e := by
  have hin : containsText (s.statusLines.flatMap (· ++ ['\n'])) "fatal: ".toList = true :=
    containsText_iff.mpr ((infix_lines_iff (by decide) (by decide)).mpr ⟨l, hl, hfatal⟩)
  rw [parse, splitLog_render h]
  simp only [hin, Bool.or_true, if_true]
  exact ⟨_, rfl⟩

theorem readPart_age (st : GitStatus) (part : Text) :
    (readPart st part).lastCommitAge = st.lastCommitAge := by
  unfold readPart
  split <;> rfl

/-- The lines of the status say nothing about the commit. -/
theorem readLine_age (st : GitStatus) (line : Text) :
    (readLine st line).lastCommitAge = st.lastCommitAge := by
  have hparts : ∀ (parts : List Text) (st : GitStatus),
      (parts.foldl readPart st).lastCommitAge = st.lastCommitAge := by
    intro parts
    induction parts with
    | nil => exact fun _ => rfl
    | cons part parts ih => exact fun st => (ih _).trans (readPart_age st part)
  unfold readLine
  repeat' split
  all_goals first | rfl | exact hparts _ _

theorem foldl_readLine_age (ls : List Text) (st : GitStatus) :
    (ls.foldl readLine st).lastCommitAge = st.lastCommitAge := by
  induction ls generalizing st with
  | nil => rfl
  | cons l ls ih => exact (ih _).trans (readLine_age st l)

/-- After an early separator there is no third field for the age of the commit. -/
theorem parse_cut (h : ∃ l ∈ s.statusLines, separator <:+: l)
    (hg : parse repoPath s.render = .ok g) : g.lastCommitAge = none := by
  simp only [parse] at hg
  split at hg
  · cases hg
  · rw [← Except.ok.inj hg]
    exact readLog_age (splitLog_cut h) (foldl_readLine_age _ _)

theorem toNat_ofNat_eq_iff (n : ℕ) : (UInt32.ofNat n).toNat = n ↔ n < UInt32.size := by
  rw [UInt32.toNat_ofNat']
  exact Nat.mod_eq_iff_lt (by decide)

/-- The status without the commit is that of the repository, as far as its values are legible. -/
theorem readAs_iff (s : RepoState) (repoPath : Text) :
    s.ReadAs repoPath
        { s.readStatus repoPath with
          lastCommitSha := some s.commit.sha
          lastCommitAuthor := some s.commit.author
          lastCommitAge := some s.commit.age
          lastCommitSubject := some s.commit.subject } ↔
      (∀ b, s.branch = some b → trim b.1 = b.1 ∧ b.1 ≠ "(detached)".toList) ∧
        (∀ o, s.oid = some o → trim o.1 = o.1 ∧ o.1 ≠ "(initial)".toList) ∧
        (∀ u, s.upstream = some u → trim u.1 = u.1) ∧
        s.changed < UInt32.size ∧ s.untracked < UInt32.size := by
  have hbranch := keep_option_iff "(detached)".toList s.branch (by decide)
  have hoid := keep_option_iff "(initial)".toList s.oid (by decide)
  have hupstream : s.upstream.map (fun u => trim u.1) = s.upstream.map (·.1) ↔
      ∀ u, s.upstream = some u → trim u.1 = u.1 := by
    cases s.upstream <;> simp
  rw [← hbranch, ← hoid, ← hupstream, ← toNat_ofNat_eq_iff, ← toNat_ofNat_eq_iff]
  constructor
  · exact fun h => ⟨h.branch, h.head, h.upstream, h.dirtyFiles, h.untrackedFiles⟩
  · rintro ⟨hbranch, hoid, hupstream, hchanged, huntracked⟩
    have hahead : ((s.readStatus repoPath).ahead).toNat = s.ahead := by
      rw [RepoState.readStatus, RepoState.ahead]
      cases s.aheadBehind <;> rfl
    have hbehind : ((s.readStatus repoPath).behind).toNat = s.behind := by
      rw [RepoState.readStatus, RepoState.behind]
      cases s.aheadBehind <;> rfl
    exact ⟨rfl, hbranch, hoid, hupstream, hahead, hbehind, hchanged, huntracked, rfl, rfl, rfl, rfl⟩

/-- The output is read as the repository it was written for exactly when it is legible. -/
theorem parse_inverts_iff (s : RepoState) (repoPath : Text) :
    (∃ g, parse repoPath s.render = .ok g ∧ s.ReadAs repoPath g) ↔ s.Legible := by
  constructor
  · rintro ⟨g, hg, hread⟩
    have hseparated : ∀ l ∈ s.statusLines, ¬separator <:+: l := by
      intro l hl hsep
      cases (parse_cut ⟨l, hl, hsep⟩ hg).symm.trans hread.age
    have hnoError : ∀ l ∈ s.statusLines, ¬"fatal: ".toList <:+: l := by
      intro l hl hfatal
      obtain ⟨e, he⟩ := parse_fatal hseparated hl hfatal repoPath
      cases he.symm.trans hg
    rw [parse_render hseparated hnoError, readLog_line, Except.ok.injEq] at hg
    have hcommit : ¬"fatal:".toList <+: s.commit.sha := by
      intro hfatal
      rw [if_pos hfatal] at hg
      cases (congrArg GitStatus.lastCommitSha hg).trans hread.sha
    rw [if_neg hcommit] at hg
    obtain ⟨hbranch, hoid, hupstream, hchanged, huntracked⟩ :=
      (readAs_iff s repoPath).mp (hg ▸ hread)
    exact ⟨hseparated, hnoError, hbranch, hoid, hupstream, hcommit, hchanged, huntracked⟩
  · intro h
    refine ⟨_, ?_, (readAs_iff s repoPath).mpr
      ⟨h.branch, h.oid, h.upstream, h.changed, h.untracked⟩⟩
    rw [parse_render h.separated h.noError, readLog_line, if_neg h.commit]

def sampleCommit : Commit where
  sha := "abc".toList
  author := "Alice".toList
  age := "2 hours ago".toList
  subject := "Fix the thing".toList
  sha_field := ⟨⟨by decide, by decide, by decide⟩, by decide⟩
  author_field := ⟨⟨by decide, by decide, by decide⟩, by decide⟩
  age_field := ⟨⟨by decide, by decide, by decide⟩, by decide⟩
  subject_field := ⟨⟨by decide, by decide, by decide⟩, by decide⟩
  sha_tab := by decide
  author_tab := by decide
  age_tab := by decide

/-- A clean branch with one new file, which is called as the separator is. -/
def separatorFile : RepoState where
  oid := some ⟨"abc".toList, uncontrolled_of_all (by decide)⟩
  branch := some ⟨"main".toList, uncontrolled_of_all (by decide)⟩
  upstream := none
  aheadBehind := none
  entries := [.untracked ⟨"--LOG--".toList, by simp [isControl]⟩]
  commit := sampleCommit

theorem separatorFile_misread :
    ¬∃ g, parse ".".toList separatorFile.render = .ok g ∧ separatorFile.ReadAs ".".toList g := by
  rintro ⟨g, hg, hread⟩
  have hcut : ∃ l ∈ separatorFile.statusLines, separator <:+: l :=
    ⟨"? --LOG--".toList, by decide, "? ".toList, [], by decide⟩
  cases (parse_cut hcut hg).symm.trans hread.age

end SshCommander.GitStatusParse
