import SshCommander.SplitterSuffixes

/-!
# What the splitter takes for blank

`is_effectively_empty`, character by character: blanks and comments, up to the first character of
anything else.
-/

namespace SshCommander.SplitterBlanks
open RustText SqlStatementSplit SplitterLexer SplitterBytes SplitterSuffixes

def isBlankChar (c : Char) : Bool := c == ' ' || c == '\t' || c == '\n' || c == '\r'

/-- One character: the next state, and how many of the characters that follow belong to it; `none`
where a token starts. -/
def blankRead (state : LexState) (c : Char) (cs : Text) : Option (LexState × ℕ) :=
  match state with
  | .lineComment => some (if c = '\n' then .normal else .lineComment, 0)
  | .blockComment =>
    if c = '*' ∧ cs.head? = some '/' then some (.normal, 1) else some (.blockComment, 0)
  | _ =>
    if isBlankChar c then some (.normal, 0)
    else if c = '-' ∧ cs.head? = some '-' then some (.lineComment, 1)
    else if c = '/' ∧ cs.head? = some '*' then some (.blockComment, 1)
    else none

def onlyBlank (state : LexState) : ℕ → Text → Bool
  | _, [] => true
  | skip + 1, _ :: cs => onlyBlank state skip cs
  | 0, c :: cs =>
    match blankRead state c cs with
    | none => false
    | some (state', skip) => onlyBlank state' skip cs

theorem onlyBlank_skip (state : LexState) (skip : ℕ) (s : Text) :
    onlyBlank state skip s = onlyBlank state 0 (s.drop skip) := by
  induction s generalizing skip with
  | nil => cases skip <;> rfl
  | cons c cs ih =>
    cases skip with
    | zero => rfl
    | succ skip => exact ih skip

theorem onlyBlank_cons {state state' : LexState} {c : Char} {cs : Text} {skip : ℕ}
    (h : blankRead state c cs = some (state', skip)) :
    onlyBlank state 0 (c :: cs) = onlyBlank state' 0 (cs.drop skip) := by
  rw [onlyBlank, h]
  exact onlyBlank_skip state' skip cs

theorem onlyBlank_token {state : LexState} {c : Char} {cs : Text} (h : blankRead state c cs = none) :
    onlyBlank state 0 (c :: cs) = false := by
  rw [onlyBlank, h]

theorem blankStep_eq (pre : Text) (state : LexState) {c : Char} (hc : Ascii c) (cs : Text) :
    blankStep (utf8 (pre ++ c :: cs)) (utf8 pre).length (firstByte c) state =
      (blankRead state c cs).map fun next => (next.1, 1 + next.2) := by
  have hnext := getElem?_after_ascii pre hc cs
  have h32 : (firstByte c == 32) = (c == ' ') := beq_byte c ' ' (by decide)
  have h9 : (firstByte c == 9) = (c == '\t') := beq_byte c '\t' (by decide)
  have h10 : (firstByte c == 10) = (c == '\n') := beq_byte c '\n' (by decide)
  have h13 : (firstByte c == 13) = (c == '\r') := beq_byte c '\r' (by decide)
  have h45 : (firstByte c == 45) = decide (c = '-') := beq_byte c '-' (by decide)
  have h47 : (firstByte c == 47) = decide (c = '/') := beq_byte c '/' (by decide)
  have h42 : (firstByte c == 42) = decide (c = '*') := beq_byte c '*' (by decide)
  have n45 : (cs.head?.map firstByte == some 45) = decide (cs.head? = some '-') :=
    beq_next _ '-' (by decide)
  have n42 : (cs.head?.map firstByte == some 42) = decide (cs.head? = some '*') :=
    beq_next _ '*' (by decide)
  have n47 : (cs.head?.map firstByte == some 47) = decide (cs.head? = some '/') :=
    beq_next _ '/' (by decide)
  cases state with
  | lineComment =>
    simp only [blankStep, blankRead, h10, beq_iff_eq]
    split_ifs <;> rfl
  | blockComment =>
    simp only [blankStep, blankRead, hnext, h42, n47, Bool.and_eq_true, decide_eq_true_eq]
    split_ifs <;> rfl
  | _ =>
    have hchar : (firstByte c == 32 || firstByte c == 9 || firstByte c == 10 || firstByte c == 13) =
        isBlankChar c := by
      rw [isBlankChar, h32, h9, h10, h13]
    simp only [blankStep, blankRead, hchar, hnext, h45, h47, n45, n42, Bool.and_eq_true,
      decide_eq_true_eq]
    by_cases hblank : isBlankChar c = true
    · rw [if_pos hblank, if_pos hblank]
      rfl
    · rw [if_neg hblank, if_neg hblank]
      split_ifs <;> rfl

/-- A character of more than one byte is blank in comments only. -/
theorem blankStep_wide (bytes : List UInt8) (i : ℕ) {b : UInt8} (hb : 128 ≤ b.toNat)
    (state : LexState) : blankStep bytes i b state =
      if state = .lineComment ∨ state = .blockComment then some (state, 1) else none := by
  have hne (n : ℕ) (hn : n < 128) : (b == UInt8.ofNat n) = false := by
    rw [beq_eq_false_iff_ne]
    rintro rfl
    rw [UInt8.toNat_ofNat'] at hb
    omega
  have h32 : (b == 32) = false := hne 32 (by omega)
  have h9 : (b == 9) = false := hne 9 (by omega)
  have h10 : (b == 10) = false := hne 10 (by omega)
  have h13 : (b == 13) = false := hne 13 (by omega)
  have h45 : (b == 45) = false := hne 45 (by omega)
  have h47 : (b == 47) = false := hne 47 (by omega)
  have h42 : (b == 42) = false := hne 42 (by omega)
  cases state with
  | lineComment => simp [blankStep, h10]
  | blockComment => simp [blankStep, h42]
  | _ => simp [blankStep, h32, h9, h10, h13, h45, h47]

theorem blankRead_wide {c : Char} (hc : ¬Ascii c) (cs : Text) (state : LexState) :
    blankRead state c cs =
      if state = .lineComment ∨ state = .blockComment then some (state, 0) else none := by
  have hne (d : Char) (hd : Ascii d) : c ≠ d := ne_of_wide hc hd
  cases state with
  | lineComment => simp [blankRead, hne '\n' (by decide)]
  | blockComment => simp [blankRead, hne '*' (by decide)]
  | _ =>
    simp [blankRead, isBlankChar, hne ' ' (by decide), hne '\t' (by decide), hne '\n' (by decide),
      hne '\r' (by decide), hne '-' (by decide), hne '/' (by decide)]

theorem scanBlank_wide (bytes : List UInt8) {state : LexState}
    (hstate : state = .lineComment ∨ state = .blockComment) (m i fuel : ℕ)
    (h : ∀ j < m, ∃ b, bytes[i + j]? = some b ∧ 128 ≤ b.toNat) :
    scanBlank bytes (m + fuel) i state = scanBlank bytes fuel (i + m) state := by
  induction m generalizing i with
  | zero => rw [Nat.zero_add, Nat.add_zero]
  | succ m ih =>
    obtain ⟨b, hb, hwide⟩ := h 0 (by omega)
    rw [Nat.add_zero] at hb
    have hstep := blankStep_wide bytes i hwide state
    rw [if_pos hstate] at hstep
    have hturn : scanBlank bytes (m + 1 + fuel) i state = scanBlank bytes (m + fuel) (i + 1) state := by
      rw [show m + 1 + fuel = (m + fuel) + 1 by omega, scanBlank]
      simp only [hb, hstep]
    rw [hturn, ih (i + 1)]
    · rw [show i + 1 + m = i + (m + 1) by omega]
    · intro j hj
      have := h (j + 1) (by omega)
      rwa [show i + (j + 1) = i + 1 + j by omega] at this

/-- What is read along with a character is one ASCII character at most. -/
theorem blankRead_skip {state state' : LexState} {c : Char} {cs : Text} {skip : ℕ}
    (h : blankRead state c cs = some (state', skip)) :
    ∃ taken rest, cs = taken ++ rest ∧ taken.length = skip ∧ ∀ x ∈ taken, Ascii x := by
  have hone {x : Char} (hx : cs.head? = some x) (hascii : Ascii x) :
      ∃ taken rest, cs = taken ++ rest ∧ taken.length = 1 ∧ ∀ x ∈ taken, Ascii x := by
    cases cs with
    | nil => cases hx
    | cons y ys =>
      obtain rfl : y = x := by simpa using hx
      exact ⟨[y], ys, rfl, rfl, by simpa using hascii⟩
  have hzero : ∃ taken rest, cs = taken ++ rest ∧ taken.length = 0 ∧ ∀ x ∈ taken, Ascii x :=
    ⟨[], cs, rfl, rfl, by simp⟩
  cases state with
  | lineComment =>
    obtain ⟨-, rfl⟩ := Prod.mk.inj (Option.some.inj h)
    exact hzero
  | blockComment =>
    rw [blankRead] at h
    split_ifs at h with hclose
    · obtain ⟨-, rfl⟩ := Prod.mk.inj (Option.some.inj h)
      exact hone hclose.2 (by decide)
    · obtain ⟨-, rfl⟩ := Prod.mk.inj (Option.some.inj h)
      exact hzero
  | _ =>
    simp only [blankRead] at h
    split_ifs at h with hblank hline hblock
    · obtain ⟨-, rfl⟩ := Prod.mk.inj (Option.some.inj h)
      exact hzero
    · obtain ⟨-, rfl⟩ := Prod.mk.inj (Option.some.inj h)
      exact hone hline.2 (by decide)
    · obtain ⟨-, rfl⟩ := Prod.mk.inj (Option.some.inj h)
      exact hone hblock.2 (by decide)

theorem scanBlank_nil (pre : Text) (fuel : ℕ) (state : LexState) :
    scanBlank (utf8 (pre ++ [])) fuel (utf8 pre).length state = true := by
  cases fuel with
  | zero => rfl
  | succ fuel => simp [scanBlank]

/-- The byte loop is the character loop. -/
theorem scanBlank_eq (n : ℕ) (pre s : Text) (hn : s.length ≤ n) (state : LexState) (fuel : ℕ)
    (hfuel : (utf8 s).length ≤ fuel) :
    scanBlank (utf8 (pre ++ s)) fuel (utf8 pre).length state = onlyBlank state 0 s := by
  induction n generalizing pre s state fuel with
  | zero =>
    obtain rfl : s = [] := List.length_eq_zero_iff.mp (by omega)
    exact scanBlank_nil pre fuel state
  | succ n ih =>
    cases s with
    | nil => exact scanBlank_nil pre fuel state
    | cons c cs =>
      rw [List.length_cons] at hn
      rw [length_utf8_cons] at hfuel
      have hbyte : (utf8 (pre ++ c :: cs))[(utf8 pre).length]? = some (firstByte c) :=
        getElem?_boundary pre (c :: cs)
      by_cases hc : Ascii c
      · rw [utf8Size_ascii hc] at hfuel
        obtain ⟨fuel, rfl⟩ : ∃ k, fuel = k + 1 := ⟨fuel - 1, by omega⟩
        have hstep := blankStep_eq pre state hc cs
        cases hread : blankRead state c cs with
        | none =>
          rw [hread, Option.map_none] at hstep
          rw [onlyBlank_token hread, scanBlank]
          simp only [hbyte, hstep]
        | some next =>
          obtain ⟨state', skip⟩ := next
          obtain ⟨taken, rest, hcs, htaken, hascii⟩ := blankRead_skip hread
          have hdrop : cs.drop skip = rest := by
            rw [hcs, ← htaken, List.drop_left]
          have hoffset : (utf8 (pre ++ c :: taken)).length = (utf8 pre).length + (1 + skip) := by
            rw [length_utf8_append, length_utf8_cons, utf8Size_ascii hc, length_utf8_ascii hascii,
              htaken]
          have hwhole : (pre ++ c :: taken) ++ rest = pre ++ c :: cs := by simp [hcs]
          have hbytes : (utf8 cs).length = (utf8 taken).length + (utf8 rest).length := by
            rw [hcs, length_utf8_append]
          have hlen : cs.length = taken.length + rest.length := by
            rw [hcs, List.length_append]
          have hnext := ih (pre ++ c :: taken) rest (by omega) state' fuel (by omega)
          rw [hwhole, hoffset] at hnext
          rw [hread, Option.map_some] at hstep
          rw [onlyBlank_cons hread, hdrop, scanBlank]
          simp only [hbyte, hstep]
          exact hnext
      · have hread := blankRead_wide hc cs state
        have hbytes (j : ℕ) (hj : j < c.utf8Size) := bytes_wide pre hc cs hj
        by_cases hstate : state = .lineComment ∨ state = .blockComment
        · rw [if_pos hstate] at hread
          obtain ⟨fuel, rfl⟩ : ∃ k, fuel = c.utf8Size + k := ⟨fuel - c.utf8Size, by omega⟩
          have hwhole : (pre ++ [c]) ++ cs = pre ++ c :: cs := by simp
          have hoffset : (utf8 (pre ++ [c])).length = (utf8 pre).length + c.utf8Size := by
            rw [length_utf8_append, length_utf8_cons]
            rfl
          have hnext := ih (pre ++ [c]) cs (by omega) state fuel (by omega)
          rw [hwhole, hoffset] at hnext
          rw [onlyBlank_cons hread, List.drop_zero, scanBlank_wide _ hstate _ _ _ hbytes]
          exact hnext
        · rw [if_neg hstate] at hread
          have hstep := blankStep_wide (utf8 (pre ++ c :: cs)) (utf8 pre).length (firstByte_wide hc)
            state
          rw [if_neg hstate] at hstep
          have hpos := c.utf8Size_pos
          obtain ⟨fuel, rfl⟩ : ∃ k, fuel = k + 1 := ⟨fuel - 1, by omega⟩
          rw [onlyBlank_token hread, scanBlank]
          simp only [hbyte, hstep]

theorem isEffectivelyEmpty_eq (sql : Sql) : isEffectivelyEmpty sql = onlyBlank .normal 0 sql :=
  scanBlank_eq sql.length [] sql le_rfl .normal (utf8 sql).length le_rfl

/-- A token stays one whatever neutral text follows. -/
theorem onlyBlank_append {b : Text} (hb : ∀ x, b.head? = some x → Neutral x) (n : ℕ) (s : Text)
    (hn : s.length ≤ n) (state : LexState) (h : onlyBlank state 0 s = false) :
    onlyBlank state 0 (s ++ b) = false := by
  induction n generalizing s state with
  | zero =>
    obtain rfl : s = [] := List.length_eq_zero_iff.mp (by omega)
    cases h
  | succ n ih =>
    cases s with
    | nil => cases h
    | cons c cs =>
      have hread : blankRead state c (cs ++ b) = blankRead state c cs := by
        cases state with
        | lineComment => rfl
        | blockComment => simp only [blankRead, head_append hb (x := '/') (by decide)]
        | _ =>
          simp only [blankRead, head_append hb (x := '-') (by decide),
            head_append hb (x := '*') (by decide)]
      cases hcase : blankRead state c cs with
      | none => exact onlyBlank_token (hread.trans hcase)
      | some next =>
        obtain ⟨state', skip⟩ := next
        obtain ⟨taken, rest, hcs, htaken, -⟩ := blankRead_skip hcase
        have hskip : skip ≤ cs.length := by
          rw [hcs, List.length_append]
          omega
        rw [onlyBlank_cons hcase] at h
        rw [List.cons_append, onlyBlank_cons (hread.trans hcase),
          List.drop_append_of_le_length hskip]
        apply ih _ _ state' h
        rw [List.length_cons] at hn
        rw [List.length_drop]
        omega

end SshCommander.SplitterBlanks
