import SshCommander.PostgresLexer
import SshCommander.SplitterBlanks

/-!
# Where the splitter reads as the server does

The two lexers run in step up to the first construct that the splitter does not know. Without one,
`is_multi_statement` asks whether something follows a semicolon that the server reads too.
-/

namespace SshCommander.StatementBoundaries
open RustText SqlStatementSplit SplitterLexer SplitterBytes SplitterSuffixes SplitterBlanks

/-- What the splitter's lexer does not know of the server's: a quote after a backslash, a comment
inside a comment, a dollar quote's opening inside a name, a tag that is not ASCII, a line that ends
in a carriage return alone; and what it panics at, a character that is not ASCII in a dollar
quote. -/
def misread (state : PostgresLexer.State) (c : Char) (cs : Text) : Bool :=
  match state with
  | .escaped => c == '\''
  | .block _ => c == '/' && cs.head? == some '*'
  | .word => (delimiterOf (c :: cs)).isSome
  | .normal => PostgresLexer.dollarTag (c :: cs) != delimiterOf (c :: cs)
  | .line | .gapLine => c == '\r' && cs.head?.any (· != '\n')
  | .dollar _ => !decide (Ascii c)
  | _ => false

def Understood (sql : Sql) : Prop :=
  ∀ r ∈ PostgresLexer.readings .normal 0 sql, misread r.state r.char r.rest = false

instance (sql : Sql) : Decidable (Understood sql) := inferInstanceAs (Decidable (∀ _ ∈ _, _))

/-- The state of the splitter's lexer where the server's is in the given one. -/
def trackedBy : PostgresLexer.State → LexState
  | .normal | .word | .number | .marked | .gap _ => .normal
  | .single | .escape | .escaped => .singleQuote
  | .double => .doubleQuote
  | .line | .gapLine => .lineComment
  | .block _ => .blockComment
  | .dollar tag => .dollarQuote tag

/-- What holds of the server's state in front of a text: no comment is nested, and the quote that
was seen is there. -/
structure Steady (state : PostgresLexer.State) (s : Text) : Prop where
  flat : ∀ depth, state = .block depth → depth = 0
  quote : state = .marked → s.head? = some '\''

theorem steady_of {state : PostgresLexer.State} (s : Text) (hblock : ∀ depth, state ≠ .block depth)
    (hmarked : state ≠ .marked) : Steady state s :=
  ⟨fun depth h => absurd h (hblock depth), fun h => absurd h hmarked⟩

theorem trackedBy_settle (state : PostgresLexer.State) (c : Char) (cs : Text) :
    trackedBy (PostgresLexer.settle state c cs) = trackedBy state := by
  cases state with
  | word =>
    rw [PostgresLexer.settle]
    split_ifs <;> rfl
  | number =>
    rw [PostgresLexer.settle]
    split_ifs <;> rfl
  | gap newline =>
    rw [PostgresLexer.settle]
    split_ifs <;> rfl
  | _ => rfl

/-- A character of a name is no mark of the splitter's lexer. -/
structure NameChar (c : Char) : Prop where
  single : c ≠ '\''
  double : c ≠ '"'
  dash : c ≠ '-'
  slash : c ≠ '/'
  semicolon : c ≠ ';'

theorem nameChar {c : Char} (h : PostgresLexer.continuesName c = true) : NameChar c := by
  constructor
  all_goals
    rintro rfl
    cases h

theorem readStep_name {c : Char} {cs : Text} (h : NameChar c)
    (hdelimiter : delimiterOf (c :: cs) = none) : readStep .normal c cs = (.normal, 0) := by
  have hline : ¬(c = '-' ∧ cs.head? = some '-') := fun hc => h.dash hc.1
  have hblock : ¬(c = '/' ∧ cs.head? = some '*') := fun hc => h.slash hc.1
  rw [readStep, if_neg h.single, if_neg h.double, if_neg hline, if_neg hblock, hdelimiter]

theorem nameChar_letter {c : Char} (h : PostgresLexer.isLetter c = true) : NameChar c ∧ c ≠ '$' := by
  constructor
  · apply nameChar
    rw [PostgresLexer.continuesName, h]
    rfl
  · rintro rfl
    cases h

theorem nameChar_digit {c : Char} (h : PostgresLexer.isDigit c = true) : NameChar c ∧ c ≠ '$' := by
  constructor
  · apply nameChar
    rw [PostgresLexer.continuesName, h, Bool.or_true]
    rfl
  · rintro rfl
    cases h

theorem readStep_space {c : Char} (h : PostgresLexer.isSpace c = true) (cs : Text) :
    readStep .normal c cs = (.normal, 0) := by
  apply readStep_normal_blank
  simp only [PostgresLexer.isSpace, Bool.or_eq_true, beq_iff_eq] at h
  rcases h with ((((rfl | rfl) | rfl) | rfl) | rfl) | rfl
  all_goals rfl

/-- Where a carriage return alone ends no line, a line ends at its newline. -/
theorem endsLine_iff {c : Char} {cs : Text} (h : (c == '\r' && cs.head?.any (· != '\n')) = false)
    (hne : cs ≠ []) : PostgresLexer.endsLine c cs = true ↔ c = '\n' := by
  rw [PostgresLexer.endsLine, Bool.or_eq_true, beq_iff_eq]
  constructor
  · rintro (hc | hreturn)
    · exact hc
    · rw [Bool.and_eq_true, beq_iff_eq] at hreturn
      obtain ⟨rfl, hnext⟩ := hreturn
      cases cs with
      | nil => exact absurd rfl hne
      | cons d ds =>
        have hd : d = '\n' := by simpa using h
        simp [hd] at hnext
  · exact Or.inl

/-- From a state the server's lexer stays in, both take the same step. -/
theorem readStep_tracked {state : PostgresLexer.State} {c : Char} {cs : Text}
    (hsteady : Steady state (c :: cs)) (hsettled : PostgresLexer.settle state c cs = state)
    (h : misread state c cs = false) (hne : cs ≠ []) :
    readStep (trackedBy state) c cs = (trackedBy (PostgresLexer.readStep state c cs).1,
      (PostgresLexer.readStep state c cs).2) := by
  cases state with
  | normal =>
    have htag : PostgresLexer.dollarTag (c :: cs) = delimiterOf (c :: cs) := by simpa [misread] using h
    rw [trackedBy, PostgresLexer.readStep]
    by_cases hletter : PostgresLexer.isLetter c = true
    · obtain ⟨hname, hdollar⟩ := nameChar_letter hletter
      have hline : ¬(c = '-' ∧ cs.head? = some '-') := fun hc => hname.dash hc.1
      have hblock : ¬(c = '/' ∧ cs.head? = some '*') := fun hc => hname.slash hc.1
      rw [readStep_name hname (delimiterOf_of_ne hdollar cs), if_neg hname.single,
        if_neg hname.double, if_neg hline, if_neg hblock, if_pos hletter]
      split_ifs <;> rfl
    · have hprefix : ¬((c = 'E' ∨ c = 'e') ∧ cs.head? = some '\'') := by
        rintro ⟨rfl | rfl, -⟩
        · exact hletter (by decide)
        · exact hletter (by decide)
      rw [if_neg hprefix, if_neg hletter]
      by_cases hdigit : PostgresLexer.isDigit c = true
      · obtain ⟨hname, hdollar⟩ := nameChar_digit hdigit
        have hline : ¬(c = '-' ∧ cs.head? = some '-') := fun hc => hname.dash hc.1
        have hblock : ¬(c = '/' ∧ cs.head? = some '*') := fun hc => hname.slash hc.1
        rw [readStep_name hname (delimiterOf_of_ne hdollar cs), if_neg hname.single,
          if_neg hname.double, if_neg hline, if_neg hblock, if_pos hdigit]
        rfl
      · rw [if_neg hdigit, htag, readStep]
        split_ifs
        · rfl
        · rfl
        · rfl
        · rfl
        · cases delimiterOf (c :: cs) <;> rfl
  | word =>
    have hname : PostgresLexer.continuesName c = true := by
      by_contra hnot
      rw [PostgresLexer.settle, if_neg hnot] at hsettled
      cases hsettled
    exact readStep_name (nameChar hname) (by simpa [misread] using h)
  | number =>
    have hname : (PostgresLexer.isLetter c || PostgresLexer.isDigit c) = true := by
      by_contra hnot
      rw [PostgresLexer.settle, if_neg hnot] at hsettled
      cases hsettled
    rcases Bool.or_eq_true_iff.mp hname with hletter | hdigit
    · obtain ⟨hname, hdollar⟩ := nameChar_letter hletter
      exact readStep_name hname (delimiterOf_of_ne hdollar cs)
    · obtain ⟨hname, hdollar⟩ := nameChar_digit hdigit
      exact readStep_name hname (delimiterOf_of_ne hdollar cs)
  | marked =>
    obtain rfl : c = '\'' := by simpa using hsteady.quote rfl
    rfl
  | single =>
    simp only [trackedBy, readStep, PostgresLexer.readStep]
    split_ifs <;> rfl
  | escape =>
    simp only [trackedBy, readStep, PostgresLexer.readStep]
    split_ifs <;> rfl
  | escaped =>
    have hc : c ≠ '\'' := by simpa [misread] using h
    simp only [trackedBy, readStep, PostgresLexer.readStep, if_neg hc]
  | gap newline =>
    have hgap : (PostgresLexer.isSpace c || (c == '-' && cs.head? == some '-') ||
        (c == '\'' && newline)) = true := by
      by_contra hnot
      rw [PostgresLexer.settle, if_neg hnot] at hsettled
      cases hsettled
    rw [trackedBy, PostgresLexer.readStep]
    rcases Bool.or_eq_true_iff.mp hgap with hgap | hquote
    · rcases Bool.or_eq_true_iff.mp hgap with hspace | hline
      · have hquote : c ≠ '\'' := by
          rintro rfl
          cases hspace
        have hdash : c ≠ '-' := by
          rintro rfl
          cases hspace
        rw [readStep_space hspace, if_neg hquote, if_neg hdash]
        rfl
      · rw [Bool.and_eq_true, beq_iff_eq, beq_iff_eq] at hline
        obtain ⟨rfl, hnext⟩ := hline
        simp [readStep, hnext, trackedBy]
    · rw [Bool.and_eq_true, beq_iff_eq] at hquote
      obtain ⟨rfl, -⟩ := hquote
      rfl
  | gapLine =>
    simp only [trackedBy, readStep, PostgresLexer.readStep, endsLine_iff h hne]
    split_ifs <;> rfl
  | double =>
    simp only [trackedBy, readStep, PostgresLexer.readStep]
    split_ifs <;> rfl
  | line =>
    simp only [trackedBy, readStep, PostgresLexer.readStep, endsLine_iff h hne]
    split_ifs <;> rfl
  | block depth =>
    obtain rfl := hsteady.flat depth rfl
    have hopen : ¬(c = '/' ∧ cs.head? = some '*') := by simpa [misread] using h
    simp only [trackedBy, readStep, PostgresLexer.readStep, if_neg hopen]
    split_ifs <;> rfl
  | dollar tag =>
    simp only [trackedBy, readStep, PostgresLexer.readStep]
    split_ifs <;> rfl

/-- A semicolon that the server's lexer reads in front of nothing else is a token. -/
theorem semicolon_tracked {state : PostgresLexer.State} {c : Char} {cs : Text}
    (hsteady : Steady state (c :: cs)) (hsettled : PostgresLexer.settle state c cs = state) :
    trackedBy state = .normal ∧ c = ';' ↔ state = .normal ∧ c = ';' := by
  constructor
  · rintro ⟨htop, rfl⟩
    refine ⟨?_, rfl⟩
    cases state with
    | normal => rfl
    | word => exact hsettled.symm
    | number => exact hsettled.symm
    | marked =>
      have hquote := hsteady.quote rfl
      cases hquote
    | gap newline => exact hsettled.symm
    | _ => cases htop
  · rintro ⟨rfl, rfl⟩
    exact ⟨rfl, rfl⟩

theorem settle_settle (state : PostgresLexer.State) (c : Char) (cs : Text) :
    PostgresLexer.settle (PostgresLexer.settle state c cs) c cs = PostgresLexer.settle state c cs := by
  cases state with
  | word =>
    by_cases h : PostgresLexer.continuesName c = true
    · simp [PostgresLexer.settle, h]
    · simp [PostgresLexer.settle, h]
  | number =>
    by_cases h : (PostgresLexer.isLetter c || PostgresLexer.isDigit c) = true
    · simp only [PostgresLexer.settle, if_pos h]
    · simp only [PostgresLexer.settle, if_neg h]
  | gap newline =>
    by_cases h : (PostgresLexer.isSpace c || (c == '-' && cs.head? == some '-') ||
        (c == '\'' && newline)) = true
    · simp only [PostgresLexer.settle, if_pos h]
    · simp only [PostgresLexer.settle, if_neg h]
  | _ => rfl

theorem Steady.settle {state : PostgresLexer.State} {c : Char} {cs : Text}
    (h : Steady state (c :: cs)) : Steady (PostgresLexer.settle state c cs) (c :: cs) := by
  cases state with
  | word =>
    rw [PostgresLexer.settle]
    split_ifs
    · exact h
    · exact steady_of _ (by simp) (by simp)
  | number =>
    rw [PostgresLexer.settle]
    split_ifs
    · exact h
    · exact steady_of _ (by simp) (by simp)
  | gap newline =>
    rw [PostgresLexer.settle]
    split_ifs
    · exact h
    · exact steady_of _ (by simp) (by simp)
  | _ => exact h

theorem Steady.readStep {state : PostgresLexer.State} {c : Char} {cs : Text}
    (hsteady : Steady state (c :: cs)) (h : misread state c cs = false) :
    Steady (PostgresLexer.readStep state c cs).1 (cs.drop (PostgresLexer.readStep state c cs).2) := by
  cases state with
  | normal =>
    rw [PostgresLexer.readStep]
    split_ifs with hsingle hdouble hline hblock hprefix hletter hdigit
    · exact steady_of _ (by simp) (by simp)
    · exact steady_of _ (by simp) (by simp)
    · exact steady_of _ (by simp) (by simp)
    · exact ⟨fun depth hd => (PostgresLexer.State.block.inj hd).symm, by simp⟩
    · exact ⟨by simp, fun _ => hprefix.2⟩
    · exact steady_of _ (by simp) (by simp)
    · exact steady_of _ (by simp) (by simp)
    · cases PostgresLexer.dollarTag (c :: cs) with
      | none => exact steady_of _ (by simp) (by simp)
      | some tag => exact steady_of _ (by simp) (by simp)
  | block depth =>
    obtain rfl := hsteady.flat depth rfl
    have hopen : ¬(c = '/' ∧ cs.head? = some '*') := by simpa [misread] using h
    rw [PostgresLexer.readStep, if_neg hopen]
    split_ifs
    · exact steady_of _ (by simp) (by simp)
    · exact ⟨fun depth hd => (PostgresLexer.State.block.inj hd).symm, by simp⟩
  | _ =>
    simp only [PostgresLexer.readStep]
    repeat' split
    all_goals exact steady_of _ (by simp) (by simp)

def tracked (r : PostgresLexer.Reading) : Reading := ⟨trackedBy r.state, r.char, r.rest⟩

/-- Both lexers read the same characters by themselves, in states that go together. -/
theorem readings_tracked (n : ℕ) (s : Text) (hn : s.length ≤ n) {state : PostgresLexer.State}
    (hsteady : Steady state s)
    (h : ∀ r ∈ PostgresLexer.readings state 0 s, misread r.state r.char r.rest = false) :
    readings (trackedBy state) 0 s = (PostgresLexer.readings state 0 s).map tracked ∧
      ∀ r ∈ PostgresLexer.readings state 0 s,
        trackedBy r.state = .normal ∧ r.char = ';' ↔ r.state = .normal ∧ r.char = ';' := by
  induction n generalizing s state with
  | zero =>
    obtain rfl : s = [] := List.length_eq_zero_iff.mp (by omega)
    exact ⟨rfl, fun r hr => by cases hr⟩
  | succ n ih =>
    cases s with
    | nil => exact ⟨rfl, fun r hr => by cases hr⟩
    | cons c cs =>
      rw [PostgresLexer.readings_cons, List.forall_mem_cons] at h
      obtain ⟨hfirst, hrest⟩ := h
      have hsettled := settle_settle state c cs
      have hsteady' := hsteady.settle
      have hnext := hsteady'.readStep hfirst
      have hlen : (cs.drop (PostgresLexer.readStep (PostgresLexer.settle state c cs) c cs).2).length ≤
          n := by
        rw [List.length_cons] at hn
        rw [List.length_drop]
        omega
      obtain ⟨hreadings, hsemicolons⟩ := ih _ hlen hnext hrest
      have hsplitter : readings (trackedBy state) 0 (c :: cs) =
          ⟨trackedBy (PostgresLexer.settle state c cs), c, cs⟩ ::
            (PostgresLexer.readings (PostgresLexer.readStep (PostgresLexer.settle state c cs) c cs).1 0
              (cs.drop (PostgresLexer.readStep (PostgresLexer.settle state c cs) c cs).2)).map
                tracked := by
        rw [readings_cons, trackedBy_settle]
        by_cases hempty : cs = []
        · subst hempty
          rw [List.drop_nil, List.drop_nil]
          rfl
        · have hstep := readStep_tracked hsteady' hsettled hfirst hempty
          rw [trackedBy_settle] at hstep
          rw [hstep, hreadings]
      rw [PostgresLexer.readings_cons, List.map_cons, List.forall_mem_cons, hsplitter]
      exact ⟨rfl, semicolon_tracked hsteady' hsettled, hsemicolons⟩

theorem understood_asciiQuoted {sql : Sql} (h : Understood sql) : AsciiQuoted .normal sql := by
  have htracked := (readings_tracked sql.length sql le_rfl
    (steady_of sql (by simp) (by simp)) h).1
  intro r hr d hd
  rw [show readings .normal 0 sql = _ from htracked] at hr
  obtain ⟨r', hr', rfl⟩ := List.mem_map.mp hr
  have hread := h r' hr'
  obtain ⟨state, c, cs⟩ := r'
  cases state with
  | dollar tag =>
    have hc : Ascii c := by simpa [misread] using hread
    exact hc
  | _ => cases hd

theorem afterSemicolons_understood {sql : Sql} (h : Understood sql) :
    afterSemicolons .normal sql = PostgresLexer.afterSemicolons sql := by
  obtain ⟨htracked, hsemicolons⟩ := readings_tracked sql.length sql le_rfl
    (steady_of sql (by simp) (by simp)) h
  rw [afterSemicolons, show readings .normal 0 sql = _ from htracked, List.filterMap_map,
    PostgresLexer.afterSemicolons]
  apply List.filterMap_congr
  intro r hr
  simp only [Function.comp_apply, tracked, hsemicolons r hr]

/-- Where nothing is misread, a text is taken for one statement exactly if whatever follows a
semicolon of the server's is blank to the splitter. -/
theorem single_statement_iff {sql : Sql} (h : Understood sql) :
    isMultiStatement sql = some false ↔
      ∀ rest ∈ PostgresLexer.afterSemicolons sql, isEffectivelyEmpty rest = true := by
  rw [isMultiStatement_eq (understood_asciiQuoted h), afterSemicolons_understood h,
    Option.some.injEq, List.any_eq_false]
  simp

theorem single_statement_comment :
    isMultiStatement "SELECT 'a;b', $q$;$q$ -- c; d\n ; /* e; f */ ".toList = some false := by
  have hunderstood : Understood "SELECT 'a;b', $q$;$q$ -- c; d\n ; /* e; f */ ".toList := by decide
  apply (single_statement_iff hunderstood).mpr
  decide

/-- A semicolon after an escaped quote: no token of the server's, but the text is cut there. -/
theorem escape_string_cut :
    PostgresLexer.afterSemicolons "SELECT E'a\\'; b'".toList = [] ∧
      isMultiStatement "SELECT E'a\\'; b'".toList = some true ∧
      splitAtLastStatement "SELECT E'a\\'; b'".toList =
        some (some ("SELECT E'a\\';".toList, "b'".toList)) := by
  decide +kernel

end SshCommander.StatementBoundaries
