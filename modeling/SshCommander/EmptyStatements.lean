import SshCommander.SplitHalves
import SshCommander.SplitterBlanks

/-!
# Main statements with nothing in them

The splitter takes four characters for blank and `trim` all of Unicode's white space, so a tail of
other white space counts as a statement until it is trimmed.
-/

namespace SshCommander.EmptyStatements
open RustText SqlStatementSplit SplitterLexer SplitterBytes SplitterSuffixes SplitterBlanks
  SplitterSafety SplitHalves

/-- Blanks and comments, the last of which may be open. -/
inductive Noise : Text → Prop
  | nil : Noise []
  | blank {c : Char} {s : Text} (hc : isBlankChar c = true) (hs : Noise s) : Noise (c :: s)
  | line {body s : Text} (hbody : '\n' ∉ body) (hs : Noise s) :
      Noise ('-' :: '-' :: (body ++ '\n' :: s))
  | openLine {body : Text} (hbody : '\n' ∉ body) : Noise ('-' :: '-' :: body)
  | block {body s : Text} (hbody : ¬['*', '/'] <:+: body) (hs : Noise s) :
      Noise ('/' :: '*' :: (body ++ '*' :: '/' :: s))
  | openBlock {body : Text} (hbody : ¬['*', '/'] <:+: body) : Noise ('/' :: '*' :: body)

def OnlyNoise (tail : Text) : Prop :=
  ∃ w₁ noise w₂, tail = w₁ ++ noise ++ w₂ ∧ (∀ c ∈ w₁, isWhitespace c = true) ∧ Noise noise ∧
    ∀ c ∈ w₂, isWhitespace c = true

variable {body s : Text} {sql pre main : Sql}

theorem onlyBlank_line (h : '\n' ∉ body) :
    onlyBlank .lineComment 0 (body ++ '\n' :: s) = onlyBlank .normal 0 s := by
  induction body with
  | nil =>
    have hread : blankRead .lineComment '\n' s = some (.normal, 0) := rfl
    exact onlyBlank_cons hread
  | cons c cs ih =>
    have hc : c ≠ '\n' := fun e => h (e ▸ List.mem_cons_self)
    have hread : blankRead .lineComment c (cs ++ '\n' :: s) = some (.lineComment, 0) := by
      rw [blankRead, if_neg hc]
    rw [List.cons_append, onlyBlank_cons hread]
    exact ih fun hm => h (List.mem_cons_of_mem _ hm)

theorem onlyBlank_openLine (body : Text) (h : '\n' ∉ body) :
    onlyBlank .lineComment 0 body = true := by
  induction body with
  | nil => rfl
  | cons c cs ih =>
    have hc : c ≠ '\n' := fun e => h (e ▸ List.mem_cons_self)
    have hread : blankRead .lineComment c cs = some (.lineComment, 0) := by
      rw [blankRead, if_neg hc]
    rw [onlyBlank_cons hread]
    exact ih fun hm => h (List.mem_cons_of_mem _ hm)

theorem onlyBlank_block (h : ¬['*', '/'] <:+: body) :
    onlyBlank .blockComment 0 (body ++ '*' :: '/' :: s) = onlyBlank .normal 0 s := by
  induction body with
  | nil =>
    have hread : blankRead .blockComment '*' ('/' :: s) = some (.normal, 1) := rfl
    exact onlyBlank_cons hread
  | cons c cs ih =>
    have hread : blankRead .blockComment c (cs ++ '*' :: '/' :: s) = some (.blockComment, 0) := by
      rw [blankRead, if_neg (not_closes_append h _)]
    rw [List.cons_append, onlyBlank_cons hread]
    exact ih fun hinfix => h (List.infix_cons hinfix)

theorem onlyBlank_openBlock (body : Text) (h : ¬['*', '/'] <:+: body) :
    onlyBlank .blockComment 0 body = true := by
  induction body with
  | nil => rfl
  | cons c cs ih =>
    have hread : blankRead .blockComment c cs = some (.blockComment, 0) := by
      rw [blankRead, if_neg (not_closes h)]
    rw [onlyBlank_cons hread]
    exact ih fun hinfix => h (List.infix_cons hinfix)

/-- The end of a line comment, or that it is open. -/
theorem line_cases (t : Text) :
    '\n' ∉ t ∨ ∃ body s, t = body ++ '\n' :: s ∧ '\n' ∉ body := by
  by_cases h : '\n' ∈ t
  · obtain ⟨body, s, rfl, hbody⟩ := List.eq_append_cons_of_mem h
    exact Or.inr ⟨body, s, rfl, hbody⟩
  · exact Or.inl h

theorem closes_cons {c : Char} {cs : Text} (h : ['*', '/'] <:+: c :: cs) :
    (c = '*' ∧ cs.head? = some '/') ∨ ['*', '/'] <:+: cs := by
  rcases List.infix_cons_iff.mp h with ⟨t, ht⟩ | h
  · obtain ⟨rfl, rfl⟩ := List.cons.inj ht
    exact Or.inl ⟨rfl, rfl⟩
  · exact Or.inr h

theorem block_cases (t : Text) :
    ¬['*', '/'] <:+: t ∨ ∃ body s, t = body ++ '*' :: '/' :: s ∧ ¬['*', '/'] <:+: body := by
  induction t with
  | nil => exact Or.inl (by simp)
  | cons c cs ih =>
    by_cases hc : c = '*' ∧ cs.head? = some '/'
    · obtain ⟨rfl, hhead⟩ := hc
      obtain ⟨s, rfl⟩ := List.head?_eq_some_iff.mp hhead
      exact Or.inr ⟨[], s, rfl, by simp⟩
    · rcases ih with hnone | ⟨body, s, rfl, hbody⟩
      · exact Or.inl fun h => (closes_cons h).elim hc hnone
      · refine Or.inr ⟨c :: body, s, rfl, fun h => ?_⟩
        rcases closes_cons h with ⟨rfl, hhead⟩ | h
        · obtain ⟨t, rfl⟩ := List.head?_eq_some_iff.mp hhead
          exact hc ⟨rfl, rfl⟩
        · exact hbody h

theorem onlyBlank_dashes (s : Text) :
    onlyBlank .normal 0 ('-' :: '-' :: s) = onlyBlank .lineComment 0 s :=
  onlyBlank_cons (show blankRead .normal '-' ('-' :: s) = some (.lineComment, 1) from rfl)

theorem onlyBlank_slash (s : Text) :
    onlyBlank .normal 0 ('/' :: '*' :: s) = onlyBlank .blockComment 0 s :=
  onlyBlank_cons (show blankRead .normal '/' ('*' :: s) = some (.blockComment, 1) from rfl)

theorem onlyBlank_blank {c : Char} (hc : isBlankChar c = true) (s : Text) :
    onlyBlank .normal 0 (c :: s) = onlyBlank .normal 0 s := by
  have hread : blankRead .normal c s = some (.normal, 0) := by
    simp only [blankRead, hc, if_true]
  exact onlyBlank_cons hread

theorem onlyBlank_of_noise (h : Noise s) : onlyBlank .normal 0 s = true := by
  induction h with
  | nil => rfl
  | blank hc _ ih => exact (onlyBlank_blank hc _).trans ih
  | line hbody _ ih => exact (onlyBlank_dashes _).trans ((onlyBlank_line hbody).trans ih)
  | openLine hbody => exact (onlyBlank_dashes _).trans (onlyBlank_openLine _ hbody)
  | block hbody _ ih => exact (onlyBlank_slash _).trans ((onlyBlank_block hbody).trans ih)
  | openBlock hbody => exact (onlyBlank_slash _).trans (onlyBlank_openBlock _ hbody)

theorem noise_of_onlyBlank (n : ℕ) (s : Text) (hn : s.length ≤ n)
    (h : onlyBlank .normal 0 s = true) : Noise s := by
  induction n generalizing s with
  | zero =>
    obtain rfl : s = [] := List.length_eq_zero_iff.mp (by omega)
    exact .nil
  | succ n ih =>
    cases s with
    | nil => exact .nil
    | cons c cs =>
      rw [List.length_cons] at hn
      by_cases hc : isBlankChar c = true
      · rw [onlyBlank_blank hc] at h
        exact .blank hc (ih cs (by omega) h)
      by_cases hline : c = '-' ∧ cs.head? = some '-'
      · obtain ⟨rfl, hhead⟩ := hline
        obtain ⟨t, rfl⟩ := List.head?_eq_some_iff.mp hhead
        rcases line_cases t with hopen | ⟨body, s, rfl, hbody⟩
        · exact .openLine hopen
        · rw [onlyBlank_dashes] at h
          refine .line hbody (ih s ?_ ((onlyBlank_line hbody).symm.trans h))
          simp only [List.length_cons, List.length_append] at hn
          omega
      by_cases hblock : c = '/' ∧ cs.head? = some '*'
      · obtain ⟨rfl, hhead⟩ := hblock
        obtain ⟨t, rfl⟩ := List.head?_eq_some_iff.mp hhead
        rcases block_cases t with hopen | ⟨body, s, rfl, hbody⟩
        · exact .openBlock hopen
        · rw [onlyBlank_slash] at h
          refine .block hbody (ih s ?_ ((onlyBlank_block hbody).symm.trans h))
          simp only [List.length_cons, List.length_append] at hn
          omega
      · have hread : blankRead .normal c cs = none := by
          simp only [blankRead, hc, if_neg hline, if_neg hblock, Bool.false_eq_true, if_false]
        rw [onlyBlank_token hread] at h
        cases h

theorem isEffectivelyEmpty_iff (s : Sql) : isEffectivelyEmpty s = true ↔ Noise s := by
  rw [isEffectivelyEmpty_eq]
  exact ⟨noise_of_onlyBlank s.length s le_rfl, onlyBlank_of_noise⟩

theorem isWhitespace_of_blank {c : Char} (h : isBlankChar c = true) : isWhitespace c = true := by
  simp only [isBlankChar, Bool.or_eq_true, beq_iff_eq] at h
  rcases h with ((rfl | rfl) | rfl) | rfl <;> decide

/-- Noise stays noise without the white space at its ends. -/
theorem noise_dropWhile (h : Noise s) : Noise (s.dropWhile isWhitespace) := by
  induction h with
  | nil => exact .nil
  | blank hc _ ih =>
    rw [List.dropWhile_cons_of_pos (isWhitespace_of_blank hc)]
    exact ih
  | line hbody hs ih => exact .line hbody hs
  | openLine hbody => exact .openLine hbody
  | block hbody hs ih => exact .block hbody hs
  | openBlock hbody => exact .openBlock hbody

theorem noise_trim (h : Noise s) : Noise (trim s) := by
  rw [← isEffectivelyEmpty_iff, isEffectivelyEmpty_eq]
  by_contra hnot
  rw [Bool.not_eq_true] at hnot
  have happend := onlyBlank_append (neutral_trailing s) _ (trim s) le_rfl _ hnot
  rw [trim_append_trailing, onlyBlank_of_noise (noise_dropWhile h)] at happend
  cases happend

theorem rdropWhile_append_blank {a w : Text} (hw : ∀ c ∈ w, isWhitespace c = true) :
    (a ++ w).rdropWhile isWhitespace = a.rdropWhile isWhitespace := by
  induction w using List.reverseRecOn with
  | nil => rw [List.append_nil]
  | append_singleton w c ih =>
    rw [← List.append_assoc, List.rdropWhile_concat_pos _ _ _ (hw c (by simp)),
      ih fun c hc => hw c (by simp [hc])]

/-- White space at the ends does not change what `trim` keeps. -/
theorem trim_between {w₁ w₂ : Text} (hw₁ : ∀ c ∈ w₁, isWhitespace c = true)
    (hw₂ : ∀ c ∈ w₂, isWhitespace c = true) (s : Text) : trim (w₁ ++ s ++ w₂) = trim s := by
  rw [List.append_assoc, trim, trim, List.dropWhile_append_of_pos hw₁, List.dropWhile_append]
  split
  · rename_i hempty
    rw [List.isEmpty_iff.mp hempty, List.dropWhile_eq_nil_iff.mpr hw₂]
  · exact rdropWhile_append_blank hw₂

/-- A tail is empty once it is trimmed exactly when it is only noise between white space. -/
theorem noise_trim_iff (tail : Text) : Noise (trim tail) ↔ OnlyNoise tail := by
  constructor
  · intro h
    obtain ⟨w₁, w₂, htail, hw₁, hw₂⟩ := eq_blanks_trim tail
    exact ⟨w₁, trim tail, w₂, htail, hw₁, h, hw₂⟩
  · rintro ⟨w₁, noise, w₂, rfl, hw₁, hnoise, hw₂⟩
    rw [trim_between hw₁ hw₂]
    exact noise_trim hnoise

/-- The text up to its last top-level semicolon, and what follows. -/
def lastCut (sql : Sql) : Option (Text × Text) :=
  ((topLevelSemicolons sql).bind List.getLast?).bind fun split =>
    (sliceTo sql (split + 1)).bind fun head => (sliceFrom sql (split + 1)).map (head, ·)

theorem lastCut_slices {head tail : Text} (h : lastCut sql = some (head, tail)) :
    ∃ positions split, topLevelSemicolons sql = some positions ∧
      positions.getLast? = some split ∧ sliceTo sql (split + 1) = some head ∧
      sliceFrom sql (split + 1) = some tail := by
  obtain ⟨split, hsplit, hslices⟩ := Option.bind_eq_some_iff.mp h
  obtain ⟨positions, hpos, hlast⟩ := Option.bind_eq_some_iff.mp hsplit
  obtain ⟨head', hhead, hpair⟩ := Option.bind_eq_some_iff.mp hslices
  obtain ⟨tail', htail, heq⟩ := Option.map_eq_some_iff.mp hpair
  obtain ⟨rfl, rfl⟩ := Prod.mk.inj heq
  exact ⟨positions, split, hpos, hlast, hhead, htail⟩

/-- A split is the last cut where something stands behind it, with the main statement trimmed. -/
theorem split_iff_lastCut : splitAtLastStatement sql = some (some (pre, main)) ↔
    ∃ tail, lastCut sql = some (pre, tail) ∧ ¬Noise tail ∧ main = trim tail := by
  constructor
  · intro h
    obtain ⟨positions, split, tail, hpos, hlast, hhead, htail, hempty, hmain, -⟩ :=
      splitAtLastStatement_cases h
    refine ⟨tail, ?_, ?_, hmain⟩
    · simp only [lastCut, hpos, Option.bind_some, hlast, hhead, htail, Option.map_some]
    · rw [← isEffectivelyEmpty_iff, hempty]
      exact Bool.false_ne_true
  · rintro ⟨tail, hcut, hnoise, rfl⟩
    obtain ⟨positions, split, hpos, hlast, hhead, htail⟩ := lastCut_slices hcut
    rw [← isEffectivelyEmpty_iff, Bool.not_eq_true] at hnoise
    obtain ⟨pre', h⟩ := splitAtLastStatement_tail hpos hlast htail hnoise
    obtain ⟨_, _, _, hpos', hlast', hhead', -⟩ := splitAtLastStatement_cases h
    obtain rfl := Option.some.inj (hpos.symm.trans hpos')
    obtain rfl := Option.some.inj (hlast.symm.trans hlast')
    obtain rfl := Option.some.inj (hhead.symm.trans hhead')
    exact h

/-- The main statement of a split has something in it exactly where the splitter takes the tail of
the script for empty whenever it is only noise between white space. -/
theorem main_nonempty_iff (sql : Sql) :
    (∀ pre main, splitAtLastStatement sql = some (some (pre, main)) →
      isEffectivelyEmpty main = false) ↔
      ∀ head tail, lastCut sql = some (head, tail) → OnlyNoise tail → Noise tail := by
  constructor
  · intro h head tail hcut hnoise
    by_contra hnot
    have hmain := h head (trim tail) (split_iff_lastCut.mpr ⟨tail, hcut, hnot, rfl⟩)
    rw [(isEffectivelyEmpty_iff _).mpr ((noise_trim_iff tail).mpr hnoise)] at hmain
    cases hmain
  · intro h pre main hsplit
    obtain ⟨tail, hcut, hnot, rfl⟩ := split_iff_lastCut.mp hsplit
    rw [← Bool.not_eq_true, isEffectivelyEmpty_iff, noise_trim_iff]
    exact fun hnoise => hnot (h pre tail hcut hnoise)

end SshCommander.EmptyStatements
