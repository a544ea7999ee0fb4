import SshCommander.QueryExecution
import SshCommander.SplitterSafety

/-!
# The two halves of a split

The main statement is lexed again from the start, without what was in front of it and without the
blanks at its ends. It has no semicolon of its own, so the second look of the splitter at it finds
nothing, and `open_query` calls itself once at most.
-/

namespace SshCommander.SplitHalves
open RustText SqlStatementSplit SplitterLexer SplitterBytes SplitterSuffixes SplitterSafety
  QueryExecution

variable {sql pre main rest : Sql} {state : LexState} {positions : List ℕ}

/-- Nothing is found after the last semicolon. -/
theorem afterSemicolons_last (n : ℕ) (s : Text) (hn : s.length ≤ n) (state : LexState)
    (h : (afterSemicolons state s).getLast? = some rest) : afterSemicolons .normal rest = [] := by
  induction n generalizing s state with
  | zero =>
    obtain rfl : s = [] := List.length_eq_zero_iff.mp (by omega)
    cases h
  | succ n ih =>
    cases s with
    | nil => cases h
    | cons c cs =>
      rw [afterSemicolons_cons] at h
      cases hlater : afterSemicolons (readStep state c cs).1 (cs.drop (readStep state c cs).2) with
      | nil =>
        rw [hlater, List.append_nil] at h
        split at h
        · rename_i hsemi
          obtain ⟨rfl, rfl⟩ := hsemi
          obtain rfl := Option.some.inj h
          exact hlater
        · cases h
      | cons r rs =>
        have hlast : (r :: rs).getLast? = some rest := by
          rwa [hlater, List.getLast?_append_of_ne_nil _ (List.cons_ne_nil _ _)] at h
        apply ih _ _ _ (hlater ▸ hlast)
        rw [List.length_cons] at hn
        rw [List.length_drop]
        omega

/-- Blanks in front are read over. -/
theorem afterSemicolons_dropWhile (s : Text) :
    afterSemicolons .normal (s.dropWhile isWhitespace) = afterSemicolons .normal s := by
  induction s with
  | nil => rfl
  | cons c cs ih =>
    cases hc : isWhitespace c with
    | false => rw [List.dropWhile_cons_of_neg (by simp [hc])]
    | true =>
      have hsemi : ¬(LexState.normal = .normal ∧ c = ';') := by
        rintro ⟨-, rfl⟩
        cases hc
      rw [List.dropWhile_cons_of_pos hc, ih, afterSemicolons_cons, readStep_normal_blank hc,
        if_neg hsemi]
      rfl

def trailing (s : Text) : Text := (s.dropWhile isWhitespace).rtakeWhile isWhitespace

theorem trim_append_trailing (s : Text) : trim s ++ trailing s = s.dropWhile isWhitespace := by
  rw [trim, trailing, List.rdropWhile_append_rtakeWhile]

theorem neutral_trailing (s : Text) : ∀ x, (trailing s).head? = some x → Neutral x :=
  fun _ hx => neutral_blank (List.mem_rtakeWhile_imp (List.mem_of_mem_head? hx))

/-- A text is what `trim` keeps of it between blanks. -/
theorem eq_blanks_trim (s : Text) : ∃ w₁ w₂, s = w₁ ++ trim s ++ w₂ ∧
    (∀ c ∈ w₁, isWhitespace c = true) ∧ ∀ c ∈ w₂, isWhitespace c = true := by
  refine ⟨s.takeWhile isWhitespace, trailing s, ?_, fun _ => List.mem_takeWhile_imp,
    fun _ => List.mem_rtakeWhile_imp⟩
  rw [List.append_assoc, trim_append_trailing, List.takeWhile_append_dropWhile]

/-- A text without a top-level semicolon has none when it is trimmed. -/
theorem afterSemicolons_trim (h : afterSemicolons .normal rest = []) :
    afterSemicolons .normal (trim rest) = [] := by
  have happend := afterSemicolons_append (neutral_trailing rest) (trim rest) sound_normal
  rw [trim_append_trailing, afterSemicolons_dropWhile, h] at happend
  have hnil := (List.append_eq_nil_iff.mp happend.symm).1
  exact List.map_eq_nil_iff.mp hnil

theorem asciiQuoted_of_completes (h : topLevelSemicolons sql = some positions) :
    AsciiQuoted .normal sql := by
  by_contra hnot
  rw [(topLevelSemicolons_scan sql).panics hnot] at h
  cases h

theorem topLevelSemicolons_eq (h : AsciiQuoted .normal sql) :
    topLevelSemicolons sql = some (offsets sql (afterSemicolons .normal sql)) :=
  (topLevelSemicolons_scan sql).completes h

/-- The tail after the last semicolon, as the lexer and as the slice give it. -/
theorem tail_of_last {split : ℕ} (h : topLevelSemicolons sql = some positions)
    (hlast : positions.getLast? = some split) (hrest : sliceFrom sql (split + 1) = some rest) :
    (afterSemicolons .normal sql).getLast? = some rest ∧
      split = (utf8 sql).length - (utf8 rest).length - 1 := by
  have hquoted := asciiQuoted_of_completes h
  rw [topLevelSemicolons_eq hquoted] at h
  obtain rfl := Option.some.inj h
  rw [offsets, List.getLast?_map] at hlast
  obtain ⟨tail, htail, rfl⟩ := Option.map_eq_some_iff.mp hlast
  have hslice := (slices_offset
    (ends_afterSemicolons sql tail (List.mem_of_getLast? htail))).1
  rw [hslice] at hrest
  obtain rfl := Option.some.inj hrest
  exact ⟨htail, rfl⟩

/-- What is left of the tail has no top-level semicolon. -/
theorem topLevelSemicolons_main {split : ℕ} (h : topLevelSemicolons sql = some positions)
    (hlast : positions.getLast? = some split) (hrest : sliceFrom sql (split + 1) = some rest) :
    topLevelSemicolons (trim rest) = some [] := by
  obtain ⟨htail, -⟩ := tail_of_last h hlast hrest
  have hnone := afterSemicolons_trim (afterSemicolons_last sql.length sql le_rfl _ htail)
  have hquoted := asciiQuoted_trim
    (asciiQuoted_after (asciiQuoted_of_completes h) (List.mem_of_getLast? htail))
  rw [topLevelSemicolons_eq hquoted, hnone]
  rfl

theorem isMultiStatement_of_none (h : topLevelSemicolons main = some []) :
    isMultiStatement main = some false := by
  rw [isMultiStatement, h]
  rfl

/-- A tail that is not empty is split off. -/
theorem splitAtLastStatement_tail {split : ℕ} (h : topLevelSemicolons sql = some positions)
    (hlast : positions.getLast? = some split) (hrest : sliceFrom sql (split + 1) = some rest)
    (hempty : isEffectivelyEmpty rest = false) :
    ∃ pre, splitAtLastStatement sql = some (some (pre, trim rest)) := by
  obtain ⟨htail, hsplit⟩ := tail_of_last h hlast hrest
  have hpre := (slices_offset
    (ends_afterSemicolons sql rest (List.mem_of_getLast? htail))).2
  rw [← hsplit] at hpre
  obtain ⟨pre, hpre⟩ := Option.isSome_iff_exists.mp hpre
  refine ⟨pre, ?_⟩
  simp only [splitAtLastStatement, h, hlast, hrest, hpre, hempty, Bool.false_eq_true, if_false,
    isMultiStatement_of_none (topLevelSemicolons_main h hlast hrest)]

/-- What a split makes of a script: nothing is lost but blanks around the main statement, which
stands behind the last top-level semicolon and has none. -/
structure Halves (sql pre main : Sql) : Prop where
  whole : ∃ w₁ w₂, sql = pre ++ w₁ ++ main ++ w₂ ∧ (∀ c ∈ w₁, isWhitespace c = true) ∧
    ∀ c ∈ w₂, isWhitespace c = true
  last : ∃ before, pre = before ++ [';'] ∧
    (topLevelSemicolons sql).bind List.getLast? = some (utf8 before).length
  single : topLevelSemicolons main = some []

theorem splitAtLastStatement_halves (h : splitAtLastStatement sql = some (some (pre, main))) :
    Halves sql pre main := by
  obtain ⟨positions, split, rest, hpos, hlast, hpre, hrest, -, rfl, -⟩ :=
    splitAtLastStatement_cases h
  obtain ⟨htail, hsplit⟩ := tail_of_last hpos hlast hrest
  have hsql := sliceTo_append_sliceFrom hpre hrest
  obtain ⟨before, hbefore⟩ := ends_afterSemicolons sql rest (List.mem_of_getLast? htail)
  have hpreamble : pre = before ++ [';'] := by
    have hcut : pre ++ rest = before ++ [';'] ++ rest := by
      rw [← hsql, hbefore, List.append_assoc]
      rfl
    exact List.append_cancel_right hcut
  refine ⟨?_, ⟨before, hpreamble, ?_⟩, topLevelSemicolons_main hpos hlast hrest⟩
  · obtain ⟨w₁, w₂, hwhole, hw₁, hw₂⟩ := eq_blanks_trim rest
    refine ⟨w₁, w₂, ?_, hw₁, hw₂⟩
    rw [List.append_assoc, List.append_assoc, ← List.append_assoc w₁, ← hwhole]
    exact hsql
  · have hlen : (utf8 sql).length = (utf8 before).length + (1 + (utf8 rest).length) := by
      rw [hbefore, length_utf8_append, length_utf8_cons]
      rfl
    rw [hpos, Option.bind_some, hlast, hsplit, hlen]
    congr 1
    omega

/-- A script that is split runs its main statement as a single one, with any fuel. -/
theorem openScript_two (pageSize : ℕ) (uuid : Text) (sql : Sql) :
    openScript pageSize uuid (sql.length + 1) sql = openScript pageSize uuid 2 sql := by
  cases hsql : sql with
  | nil => rfl
  | cons c cs =>
    rw [List.length_cons, openScript, openScript]
    cases hmulti : isMultiStatement (c :: cs) with
    | none => rfl
    | some multi =>
      cases multi with
      | false => rfl
      | true =>
        cases hsplit : splitAtLastStatement (c :: cs) with
        | none => rfl
        | some halves =>
          cases halves with
          | none => rfl
          | some halves =>
            obtain ⟨pre, main⟩ := halves
            have hsingle := isMultiStatement_of_none (splitAtLastStatement_halves hsplit).single
            simp only [openScript, hsingle]

/-- Where the lexer completes, a split loses nothing, the second look at the main statement never
finds several, and `open_query` recurses once at most. -/
theorem split_once (h : topLevelSemicolons sql = some positions) :
    (∀ pre main, splitAtLastStatement sql = some (some (pre, main)) → Halves sql pre main) ∧
      (∀ split tail, positions.getLast? = some split → sliceFrom sql (split + 1) = some tail →
        isMultiStatement (trim tail) = some false) ∧
      ∀ pageSize previous uuid, openQuery sql pageSize previous uuid =
        (do closePrevious previous; openScript pageSize uuid 2 sql) := by
  refine ⟨fun pre main => splitAtLastStatement_halves, fun split tail hlast htail => ?_,
    fun pageSize previous uuid => ?_⟩
  · exact isMultiStatement_of_none (topLevelSemicolons_main h hlast htail)
  · rw [openQuery, openScript_two]

theorem split_once_select :
    (∀ pre main, splitAtLastStatement "SET x = 1; SELECT ';' ".toList = some (some (pre, main)) →
        Halves "SET x = 1; SELECT ';' ".toList pre main) ∧
      (∀ split tail, [9].getLast? = some split →
        sliceFrom "SET x = 1; SELECT ';' ".toList (split + 1) = some tail →
          isMultiStatement (trim tail) = some false) ∧
      ∀ pageSize previous uuid, openQuery "SET x = 1; SELECT ';' ".toList pageSize previous uuid =
        (do closePrevious previous; openScript pageSize uuid 2 "SET x = 1; SELECT ';' ".toList) :=
  split_once (by decide +kernel)

end SshCommander.SplitHalves
