import SshCommander.SplitterSuffixes

/-!
# Where the splitter stays at character boundaries

It slices the text only at what its lexer read, so it panics in dollar quotes alone.
-/

namespace SshCommander.SplitterSafety
open RustText SqlStatementSplit SplitterLexer SplitterBytes SplitterSuffixes

theorem asciiQuoted_after {sql rest : Sql} (h : AsciiQuoted .normal sql)
    (hrest : rest ∈ afterSemicolons .normal sql) : AsciiQuoted .normal rest := by
  intro r hr
  apply h
  exact readings_after (mem_afterSemicolons hrest) hr

theorem splitAtLastStatement_isSome {sql : Sql} (h : AsciiQuoted .normal sql) :
    (splitAtLastStatement sql).isSome = true := by
  have htop := (topLevelSemicolons_scan sql).completes h
  rw [List.nil_append, List.nil_append] at htop
  simp only [splitAtLastStatement, htop, offsets, List.getLast?_map]
  cases hlast : (afterSemicolons .normal sql).getLast? with
  | none => rfl
  | some rest =>
    have hrest := List.mem_of_getLast? hlast
    obtain ⟨hfrom, hto⟩ := slices_offset (ends_afterSemicolons sql rest hrest)
    obtain ⟨preamble, hpre⟩ := Option.isSome_iff_exists.mp hto
    simp only [Option.map_some, hfrom, hpre]
    split_ifs
    · rfl
    · rw [isMultiStatement_eq (asciiQuoted_trim (asciiQuoted_after h hrest))]
      cases (afterSemicolons .normal (trim rest)).any fun rest => !isEffectivelyEmpty rest <;> rfl

/-- The splitter completes exactly where the bodies of the dollar quotes it reads are ASCII. -/
theorem splitter_completes_iff (sql : Sql) :
    ((isMultiStatement sql).isSome = true ∧ (splitAtLastStatement sql).isSome = true ∧
        (topLevelSemicolons sql).isSome = true) ↔
      ∀ c ∈ dollarQuoted sql, Ascii c := by
  rw [← asciiQuoted_iff]
  constructor
  · rintro ⟨-, -, htop⟩
    by_contra hnot
    rw [(topLevelSemicolons_scan sql).panics hnot] at htop
    cases htop
  · intro h
    refine ⟨?_, splitAtLastStatement_isSome h, ?_⟩
    · rw [isMultiStatement_eq h]
      rfl
    · rw [(topLevelSemicolons_scan sql).completes h]
      rfl

/-- A character of two bytes in a dollar quote. -/
theorem splitter_panics :
    isMultiStatement "SELECT $$é$$".toList = none ∧
      splitAtLastStatement "SELECT $$é$$".toList = none ∧
      topLevelSemicolons "SELECT $$é$$".toList = none := by decide +kernel

end SshCommander.SplitterSafety
