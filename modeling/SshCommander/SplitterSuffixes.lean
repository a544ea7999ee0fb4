import SshCommander.SplitterBytes

/-!
# Texts that are continued

A character that is in no quote mark, comment mark or delimiter does not change how the lexer reads
the text in front of it.
-/

namespace SshCommander.SplitterSuffixes
open RustText SqlStatementSplit SplitterLexer SplitterBytes

/-- In none of the lexer's quote marks, comment marks and delimiters. -/
structure Neutral (c : Char) : Prop where
  unmarked : c ∉ "'\"-*/$".toList
  untagged : isTagChar c = false

theorem solid_of_tagChar {c : Char} (h : isTagChar c = true) : isWhitespace c = false := by
  simp only [isTagChar, isTagStart, Bool.or_eq_true, Bool.and_eq_true, decide_eq_true_eq,
    beq_iff_eq] at h
  simp only [isWhitespace, Bool.or_eq_false_iff, Bool.and_eq_false_iff, decide_eq_false_iff_not,
    beq_eq_false_iff_ne]
  omega

theorem neutral_blank {c : Char} (hc : isWhitespace c = true) : Neutral c := by
  constructor
  · intro hm
    have hmarks : ("'\"-*/$".toList).all (! isWhitespace ·) = true := by decide
    have := List.all_eq_true.mp hmarks c hm
    rw [hc] at this
    cases this
  · cases htag : isTagChar c with
    | false => rfl
    | true =>
      rw [solid_of_tagChar htag] at hc
      cases hc

theorem neutral_semicolon : Neutral ';' := ⟨by decide, by decide⟩

def endState (state : LexState) : ℕ → Text → LexState
  | _, [] => state
  | skip + 1, _ :: cs => endState state skip cs
  | 0, c :: cs => endState (readStep state c cs).1 (readStep state c cs).2 cs

theorem endState_skip (state : LexState) (skip : ℕ) (s : Text) :
    endState state skip s = endState state 0 (s.drop skip) := by
  induction s generalizing skip with
  | nil => cases skip <;> rfl
  | cons c cs ih =>
    cases skip with
    | zero => rfl
    | succ skip => exact ih skip

theorem endState_cons (state : LexState) (c : Char) (cs : Text) :
    endState state 0 (c :: cs) =
      endState (readStep state c cs).1 0 (cs.drop (readStep state c cs).2) := by
  rw [endState, endState_skip]

section Suffix
variable {b : Text} (hb : ∀ x, b.head? = some x → Neutral x)
include hb

theorem head_append {cs : Text} {x : Char} (hx : x ∈ "'\"-*/$".toList) :
    (cs ++ b).head? = some x ↔ cs.head? = some x := by
  cases cs with
  | nil =>
    constructor
    · intro h
      exact absurd hx (hb x h).unmarked
    · intro h
      cases h
  | cons c cs => simp

theorem delimiter_prefix_append {d a : Text} (hd : Delimiter d) : d <+: a ++ b ↔ d <+: a := by
  constructor
  · intro h
    rcases prefix_append h with h | ⟨t, rfl, ht⟩
    · exact h
    · cases t with
      | nil => simp
      | cons x xs =>
        obtain ⟨rest, hrest⟩ := ht
        have hx := hb x (by rw [← hrest]; rfl)
        rcases hd.chars x (by simp) with rfl | htag
        · exact absurd (by decide) hx.unmarked
        · rw [hx.untagged] at htag
          cases htag
  · intro h
    exact h.trans (List.prefix_append a b)

theorem delimiterOf_append (c : Char) (cs : Text) :
    delimiterOf (c :: (cs ++ b)) = delimiterOf (c :: cs) := by
  have htag : b.dropWhile isTagChar = b := by
    apply dropWhile_of_head
    intro x hx
    exact (hb x hx).untagged
  have hany : (cs ++ b).head?.any isTagStart = cs.head?.any isTagStart := by
    cases cs with
    | nil =>
      cases hhead : b.head? with
      | none => simp [hhead]
      | some x =>
        have huntagged := (hb x hhead).untagged
        rw [isTagChar, Bool.or_eq_false_iff] at huntagged
        simp [hhead, huntagged.1]
    | cons x xs => rfl
  have hdollar : '$' ∈ "'\"-*/$".toList := by decide
  simp only [delimiterOf, head_append hb hdollar, hany]
  cases hrest : cs.dropWhile isTagChar with
  | nil =>
    have hend : ((cs ++ b).dropWhile isTagChar).head? ≠ some '$' := by
      rw [List.dropWhile_append_of_pos (List.dropWhile_eq_nil_iff.mp hrest), htag]
      intro h
      exact absurd hdollar (hb '$' h).unmarked
    simp [hend]
  | cons x xs =>
    have hne : (cs.dropWhile isTagChar).isEmpty = false := by rw [hrest]; rfl
    have hdrop : (cs ++ b).dropWhile isTagChar = x :: xs ++ b := by
      rw [List.dropWhile_append, hne, hrest]
      rfl
    have htake : (cs ++ b).takeWhile isTagChar = cs.takeWhile isTagChar := by
      rw [List.takeWhile_append, if_neg]
      intro hlen
      have hcut := congrArg List.length (List.takeWhile_append_dropWhile (p := isTagChar) (l := cs))
      rw [List.length_append, hrest, List.length_cons] at hcut
      omega
    rw [hdrop, htake]
    rfl

theorem readStep_append {state : LexState} (h : Sound state) (c : Char) (cs : Text) :
    readStep state c (cs ++ b) = readStep state c cs := by
  cases state with
  | normal =>
    simp only [readStep, head_append hb (x := '-') (by decide), head_append hb (x := '*') (by decide),
      delimiterOf_append hb c cs]
  | singleQuote => simp only [readStep, head_append hb (x := '\'') (by decide)]
  | doubleQuote => simp only [readStep, head_append hb (x := '"') (by decide)]
  | lineComment => rfl
  | blockComment => simp only [readStep, head_append hb (x := '/') (by decide)]
  | dollarQuote d =>
    have hpre : d.isPrefixOf (c :: (cs ++ b)) = d.isPrefixOf (c :: cs) := by
      rw [Bool.eq_iff_iff, List.isPrefixOf_iff_prefix, List.isPrefixOf_iff_prefix,
        ← List.cons_append]
      exact delimiter_prefix_append hb (h d rfl)
    simp only [readStep, hpre]

/-- The text is read as before, and what continues it from the state at its end. -/
theorem readings_append (n : ℕ) (s : Text) (hn : s.length ≤ n) {state : LexState}
    (h : Sound state) : readings state 0 (s ++ b) =
      (readings state 0 s).map (fun r => { r with rest := r.rest ++ b }) ++
        readings (endState state 0 s) 0 b := by
  induction n generalizing s state with
  | zero =>
    obtain rfl : s = [] := List.length_eq_zero_iff.mp (by omega)
    rfl
  | succ n ih =>
    cases s with
    | nil => rfl
    | cons c cs =>
      have hskip : (readStep state c cs).2 ≤ cs.length := by
        obtain ⟨taken, rest, hcs, htaken, -⟩ := readStep_skip h c cs
        rw [← htaken, hcs, List.length_append]
        omega
      have hlen : (cs.drop (readStep state c cs).2).length ≤ n := by
        rw [List.length_cons] at hn
        rw [List.length_drop]
        omega
      have hrest := ih (cs.drop (readStep state c cs).2) hlen (sound_readStep h c cs)
      rw [List.cons_append, readings_cons, readings_cons, endState_cons, readStep_append hb h,
        List.drop_append_of_le_length hskip, hrest, List.map_cons, List.cons_append]

theorem asciiQuoted_append (s : Text) {state : LexState} (h : Sound state) :
    AsciiQuoted state (s ++ b) ↔ AsciiQuoted state s ∧ AsciiQuoted (endState state 0 s) b := by
  simp only [AsciiQuoted, readings_append hb s.length s le_rfl h, List.mem_append, List.mem_map]
  constructor
  · intro hall
    constructor
    · intro r hr
      exact hall { r with rest := r.rest ++ b } (Or.inl ⟨r, hr, rfl⟩)
    · intro r hr
      exact hall r (Or.inr hr)
  · rintro ⟨hs, hafter⟩ r (⟨r', hr', rfl⟩ | hr)
    · exact hs r' hr'
    · exact hafter r hr

theorem afterSemicolons_append (s : Text) {state : LexState} (h : Sound state) :
    afterSemicolons state (s ++ b) = (afterSemicolons state s).map (· ++ b) ++
      afterSemicolons (endState state 0 s) b := by
  rw [afterSemicolons, readings_append hb s.length s le_rfl h, List.filterMap_append,
    List.filterMap_map, afterSemicolons, List.map_filterMap, afterSemicolons]
  congr 1
  apply List.filterMap_congr
  intro r _
  by_cases hsemi : r.state = .normal ∧ r.char = ';'
  · simp [hsemi]
  · simp [hsemi]

end Suffix

theorem readStep_normal_blank {c : Char} (hc : isWhitespace c = true) (cs : Text) :
    readStep .normal c cs = (.normal, 0) := by
  have hne (d : Char) (hd : isWhitespace d = false) : c ≠ d := by
    rintro rfl
    rw [hc] at hd
    cases hd
  simp [readStep, hne '\'' (by decide), hne '"' (by decide), hne '-' (by decide),
    hne '/' (by decide), delimiterOf_of_ne (hne '$' (by decide))]

theorem asciiQuoted_dropWhile {s : Text} (h : AsciiQuoted .normal s) :
    AsciiQuoted .normal (s.dropWhile isWhitespace) := by
  induction s with
  | nil => exact h
  | cons c cs ih =>
    cases hc : isWhitespace c with
    | false => rwa [List.dropWhile_cons_of_neg (by simp [hc])]
    | true =>
      rw [List.dropWhile_cons_of_pos hc]
      rw [asciiQuoted_cons, readStep_normal_blank hc] at h
      exact ih h.2

theorem asciiQuoted_trim {s : Text} (h : AsciiQuoted .normal s) : AsciiQuoted .normal (trim s) := by
  have hblank : ∀ x, ((s.dropWhile isWhitespace).rtakeWhile isWhitespace).head? = some x →
      Neutral x := fun x hx => neutral_blank (List.mem_rtakeWhile_imp (List.mem_of_mem_head? hx))
  apply ((asciiQuoted_append hblank (trim s) sound_normal).mp _).1
  rw [trim, List.rdropWhile_append_rtakeWhile]
  exact asciiQuoted_dropWhile h

end SshCommander.SplitterSuffixes
