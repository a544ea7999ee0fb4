import SshCommander.RustTextLaws
import SshCommander.SplitterLexer

/-!
# The splitter's bytes, read as characters

The byte loop follows the character lexer up to the first character of a dollar-quoted body that
is not ASCII: there the next turn slices the text inside that character.
-/

namespace SshCommander.SplitterBytes
open RustText SqlStatementSplit SplitterLexer

/-- `$tag$`: dollars and tag characters, a dollar at each end. -/
structure Delimiter (d : Text) : Prop where
  start : d.head? = some '$'
  stop : d.getLast? = some '$'
  two : 2 ≤ d.length
  ascii : ∀ c ∈ d, Ascii c
  chars : ∀ c ∈ d, c = '$' ∨ isTagChar c = true

theorem ascii_of_tagChar {c : Char} (h : isTagChar c = true) : Ascii c := by
  simp only [isTagChar, isTagStart, Bool.or_eq_true, Bool.and_eq_true, decide_eq_true_eq,
    beq_iff_eq] at h
  show c.toNat < 128
  omega

/-- A delimiter is the beginning of the text it was found at. -/
theorem delimiterOf_some {s d : Text} (h : delimiterOf s = some d) : Delimiter d ∧ d <+: s := by
  cases s with
  | nil => cases h
  | cons c rest =>
    by_cases hdollar : c = '$'
    swap
    · rw [delimiterOf, if_neg hdollar] at h
      cases h
    subst hdollar
    rw [delimiterOf, if_pos rfl] at h
    by_cases hempty : rest.head? = some '$'
    · rw [if_pos hempty] at h
      obtain rfl : ['$', '$'] = d := Option.some.inj h
      refine ⟨⟨rfl, rfl, le_rfl, by simp; decide, by simp⟩, ?_⟩
      cases rest with
      | nil => cases hempty
      | cons c cs =>
        obtain rfl : c = '$' := by simpa using hempty
        exact ⟨cs, rfl⟩
    · rw [if_neg hempty] at h
      by_cases htag : (rest.head?.any isTagStart &&
          (rest.dropWhile isTagChar).head? == some '$') = true
      · rw [if_pos htag] at h
        rw [Bool.and_eq_true, beq_iff_eq] at htag
        obtain rfl := Option.some.inj h
        have hchars : ∀ c ∈ '$' :: rest.takeWhile isTagChar ++ ['$'],
            c = '$' ∨ isTagChar c = true := by
          intro c hc
          simp only [List.cons_append, List.mem_cons, List.mem_append, List.not_mem_nil,
            or_false] at hc
          rcases hc with rfl | hc | rfl
          · exact Or.inl rfl
          · exact Or.inr (List.mem_takeWhile_imp hc)
          · exact Or.inl rfl
        refine ⟨⟨rfl, List.getLast?_append_cons _ _ _, by simp, ?_, hchars⟩, ?_⟩
        · intro c hc
          rcases hchars c hc with rfl | hc
          · decide
          · exact ascii_of_tagChar hc
        · cases hrest : rest.dropWhile isTagChar with
          | nil => simp [hrest] at htag
          | cons c cs =>
            obtain rfl : c = '$' := by simpa [hrest] using htag.2
            refine ⟨cs, ?_⟩
            have hcut := List.takeWhile_append_dropWhile (p := isTagChar) (l := rest)
            rw [hrest] at hcut
            simpa using hcut
      · rw [if_neg htag] at h
        cases h

theorem delimiterOf_of_ne {c : Char} (h : c ≠ '$') (cs : Text) : delimiterOf (c :: cs) = none := by
  rw [delimiterOf, if_neg h]

/-- A byte of the ASCII range stands for its own character, any other for none. -/
theorem toNat_firstByte (c : Char) :
    (firstByte c).toNat = c.toNat ∨ 128 ≤ (firstByte c).toNat ∧ 128 ≤ c.toNat := by
  by_cases hc : Ascii c
  · exact Or.inl (firstByte_ascii hc)
  · exact Or.inr ⟨firstByte_wide hc, Nat.le_of_not_lt hc⟩

theorem tagStart_firstByte (c : Char) :
    (isAsciiAlphabetic (firstByte c) || firstByte c == 95) = isTagStart c := by
  rw [Bool.eq_iff_iff]
  simp only [isAsciiAlphabetic, isTagStart, Bool.or_eq_true, Bool.and_eq_true, decide_eq_true_eq,
    beq_iff_eq, UInt8.le_iff_toNat_le, ← UInt8.toNat_inj, UInt8.reduceToNat]
  have := toNat_firstByte c
  omega

theorem tagChar_firstByte (c : Char) :
    (isAsciiAlphanumeric (firstByte c) || firstByte c == 95) = isTagChar c := by
  rw [Bool.eq_iff_iff]
  simp only [isAsciiAlphanumeric, isAsciiAlphabetic, isTagChar, isTagStart, Bool.or_eq_true,
    Bool.and_eq_true, decide_eq_true_eq, beq_iff_eq, UInt8.le_iff_toNat_le, ← UInt8.toNat_inj,
    UInt8.reduceToNat]
  have := toNat_firstByte c
  omega

/-- The byte at an offset is that of an ASCII character exactly where the character is. -/
theorem byte_eq_iff {o : Option Char} {d : Char} (hd : Ascii d) :
    o.map firstByte = some (UInt8.ofNat d.toNat) ↔ o = some d := by
  cases o with
  | none => simp
  | some c => simp [firstByte_eq_iff hd]

/-- The loop over a tag stops at the first character that is none of it. -/
theorem tagEnd_eq (pre s : Text) (fuel : ℕ) (hfuel : s.length ≤ fuel) :
    tagEnd (utf8 (pre ++ s)) fuel (utf8 pre).length =
      (utf8 (pre ++ s.takeWhile isTagChar)).length := by
  induction s generalizing pre fuel with
  | nil =>
    rw [List.append_nil, List.takeWhile_nil, List.append_nil]
    cases fuel with
    | zero => rfl
    | succ fuel => simp [tagEnd]
  | cons c cs ih =>
    obtain ⟨fuel, rfl⟩ : ∃ k, fuel = k + 1 := ⟨fuel - 1, by simp at hfuel; omega⟩
    have hbyte : (utf8 (pre ++ c :: cs))[(utf8 pre).length]? = some (firstByte c) := by
      rw [getElem?_boundary]
      rfl
    simp only [tagEnd, hbyte, tagChar_firstByte]
    cases hc : isTagChar c with
    | false => simp [hc]
    | true =>
      have hnext := ih (pre ++ [c]) fuel (by simpa using hfuel)
      have hlen : (utf8 (pre ++ [c])).length = (utf8 pre).length + 1 := by
        rw [utf8_append, List.length_append, length_utf8_cons, utf8Size_ascii (ascii_of_tagChar hc)]
        rfl
      simpa [hc, hlen] using hnext

theorem length_utf8_append (a b : Text) :
    (utf8 (a ++ b)).length = (utf8 a).length + (utf8 b).length := by
  rw [utf8_append, List.length_append]

/-- `&sql[start..=stop]` between two boundaries, the last character one byte long. -/
theorem sliceInclusive_eq (pre m : Text) {c : Char} (hc : Ascii c) (rest : Text) :
    sliceInclusive (pre ++ (m ++ [c]) ++ rest) (utf8 pre).length (utf8 (pre ++ m)).length =
      some (m ++ [c]) := by
  have hstop : (utf8 (pre ++ m)).length + 1 = (utf8 (pre ++ (m ++ [c]))).length := by
    rw [← List.append_assoc, length_utf8_append (pre ++ m), length_utf8_cons, utf8Size_ascii hc]
    rfl
  rw [sliceInclusive, hstop, sliceTo_boundary, Option.bind_some, sliceFrom_boundary]

theorem tagEnd_tag (pre : Text) {c : Char} (cs : Text) (hc : isTagChar c = true) :
    tagEnd (utf8 (pre ++ '$' :: c :: cs)) (utf8 (pre ++ '$' :: c :: cs)).length
      ((utf8 pre).length + 2) = (utf8 (pre ++ '$' :: c :: cs.takeWhile isTagChar)).length := by
  have hpre : (utf8 (pre ++ ['$', c])).length = (utf8 pre).length + 2 := by
    rw [length_utf8_append, length_utf8_cons, length_utf8_cons, utf8Size_ascii (by decide),
      utf8Size_ascii (ascii_of_tagChar hc)]
    rfl
  have hlen : cs.length ≤ (utf8 (pre ++ '$' :: c :: cs)).length := by
    rw [length_utf8_append, length_utf8_cons, length_utf8_cons]
    have := length_le_utf8 cs
    omega
  have hstop := tagEnd_eq (pre ++ ['$', c]) cs (utf8 (pre ++ '$' :: c :: cs)).length hlen
  rw [hpre] at hstop
  simpa using hstop

/-- The bytes show the delimiter that the characters show. -/
theorem dollarQuoteDelimiterAt_eq (pre cs : Text) :
    dollarQuoteDelimiterAt (pre ++ '$' :: cs) (utf8 pre).length =
      some (delimiterOf ('$' :: cs)) := by
  have hdollar : Ascii '$' := by decide
  have hstart : (utf8 (pre ++ '$' :: cs))[(utf8 pre).length]? = some 36 := by
    rw [getElem?_boundary]
    rfl
  have hsecond := getElem?_after_ascii pre hdollar cs
  rw [dollarQuoteDelimiterAt, delimiterOf, if_pos rfl]
  simp only [hstart, bne_self_eq_false, Bool.false_eq_true, if_false, hsecond]
  cases cs with
  | nil => rfl
  | cons c cs =>
    simp only [List.head?_cons, Option.map_some, Option.any_some]
    by_cases hc : c = '$'
    · subst hc
      have hbyte : firstByte '$' = 36 := rfl
      have hslice := sliceInclusive_eq pre ['$'] hdollar cs
      have hone : (utf8 (pre ++ ['$'])).length = (utf8 pre).length + 1 := by
        rw [length_utf8_append]
        rfl
      rw [hone] at hslice
      simp only [hbyte, beq_self_eq_true, if_true]
      rw [show pre ++ '$' :: '$' :: cs = pre ++ (['$'] ++ ['$']) ++ cs by simp, hslice]
      rfl
    · have hbyte : (firstByte c == 36) = false := by
        rw [beq_eq_false_iff_ne]
        exact fun h => hc ((firstByte_eq_iff hdollar).mp h)
      simp only [hbyte, Bool.false_eq_true, if_false, Option.some.injEq, hc, tagStart_firstByte]
      by_cases htag : isTagStart c = true
      · have hchar : isTagChar c = true := by simp [isTagChar, htag]
        have hstop := tagEnd_tag pre cs hchar
        have hsplit : pre ++ '$' :: c :: cs =
            pre ++ '$' :: c :: cs.takeWhile isTagChar ++ cs.dropWhile isTagChar := by
          simp [List.takeWhile_append_dropWhile]
        have hend : (utf8 (pre ++ '$' :: c :: cs))[(utf8 (pre ++ '$' :: c ::
            cs.takeWhile isTagChar)).length]? = (cs.dropWhile isTagChar).head?.map firstByte := by
          rw [hsplit, getElem?_boundary]
        rw [if_pos htag, hstop, hend]
        cases hrest : cs.dropWhile isTagChar with
        | nil => simp [hchar, hrest]
        | cons d ds =>
          by_cases hd : d = '$'
          · subst hd
            have hslice := sliceInclusive_eq pre ('$' :: c :: cs.takeWhile isTagChar) hdollar ds
            rw [hrest] at hsplit
            have hwhole : pre ++ '$' :: c :: cs =
                pre ++ ('$' :: c :: cs.takeWhile isTagChar ++ ['$']) ++ ds := by
              rw [hsplit]
              simp
            rw [← hwhole] at hslice
            have hb : firstByte '$' = 36 := rfl
            simp [hchar, hrest, htag, hb, hslice]
          · have hb : firstByte d ≠ 36 := fun h => hd ((firstByte_eq_iff hdollar).mp h)
            simp [hchar, hrest, hb, hd]
      · rw [if_neg htag]
        simp [htag]

theorem beq_byte (c d : Char) (hd : Ascii d) :
    (firstByte c == UInt8.ofNat d.toNat) = decide (c = d) := by
  rw [Bool.eq_iff_iff, beq_iff_eq, decide_eq_true_eq]
  exact firstByte_eq_iff hd

theorem beq_next (o : Option Char) (d : Char) (hd : Ascii d) :
    (o.map firstByte == some (UInt8.ofNat d.toNat)) = decide (o = some d) := by
  rw [Bool.eq_iff_iff, beq_iff_eq, decide_eq_true_eq]
  exact byte_eq_iff hd

/-- The delimiter of a dollar quote is one that the lexer found. -/
def Sound (state : LexState) : Prop := ∀ d, state = .dollarQuote d → Delimiter d

/-- What a turn can do: read one character, a pair, a delimiter that opens or one that closes. -/
inductive Turn (state : LexState) (c : Char) (cs : Text) : LexState × ℕ → Prop where
  | one {state' : LexState} (same : ∀ d, state' = .dollarQuote d → state = .dollarQuote d) :
      Turn state c cs (state', 0)
  | pair {state' : LexState} {x : Char} (next : cs.head? = some x) (ascii : Ascii x)
      (plain : ∀ d, state' ≠ .dollarQuote d) : Turn state c cs (state', 1)
  | opens {d : Text} (top : state = .normal) (found : delimiterOf (c :: cs) = some d) :
      Turn state c cs (.dollarQuote d, d.length - 1)
  | closes {d : Text} (inside : state = .dollarQuote d) (found : d <+: c :: cs) :
      Turn state c cs (.normal, d.length - 1)

theorem turn_readStep (state : LexState) (c : Char) (cs : Text) :
    Turn state c cs (readStep state c cs) := by
  cases state with
  | normal =>
    rw [readStep]
    split_ifs with h1 h2 h3 h4
    · exact .one (by simp)
    · exact .one (by simp)
    · exact .pair h3.2 (by decide) (by simp)
    · exact .pair h4.2 (by decide) (by simp)
    · cases hdel : delimiterOf (c :: cs) with
      | none => exact .one (by simp)
      | some d => exact .opens rfl hdel
  | singleQuote =>
    rw [readStep]
    split_ifs with h1 h2
    · exact .pair h2 (by decide) (by simp)
    · exact .one (by simp)
    · exact .one (by simp)
  | doubleQuote =>
    rw [readStep]
    split_ifs with h1 h2
    · exact .pair h2 (by decide) (by simp)
    · exact .one (by simp)
    · exact .one (by simp)
  | lineComment =>
    rw [readStep]
    exact .one (by split_ifs <;> simp)
  | blockComment =>
    rw [readStep]
    split_ifs with h1
    · exact .pair h1.2 (by decide) (by simp)
    · exact .one (by simp)
  | dollarQuote d =>
    rw [readStep]
    split_ifs with h1
    · exact .closes rfl (List.isPrefixOf_iff_prefix.mp h1)
    · exact .one (by simp)

theorem sound_readStep {state : LexState} (h : Sound state) (c : Char) (cs : Text) :
    Sound (readStep state c cs).1 := by
  intro d hd
  have hturn := turn_readStep state c cs
  generalize readStep state c cs = next at hturn hd
  cases hturn with
  | one same => exact h d (same d hd)
  | pair next ascii plain => exact absurd hd (plain d)
  | opens top found =>
    cases hd
    exact (delimiterOf_some found).1
  | closes inside found => cases hd

theorem delimiter_cons {d : Text} (hd : Delimiter d) {c : Char} {cs : Text} (h : d <+: c :: cs) :
    ∃ taken rest, cs = taken ++ rest ∧ taken.length = d.length - 1 ∧ d = c :: taken := by
  obtain ⟨rest, hrest⟩ := h
  cases d with
  | nil => exact absurd hd.two (by simp)
  | cons c' taken =>
    obtain ⟨rfl, rfl⟩ := List.cons_eq_cons.mp hrest
    exact ⟨taken, rest, rfl, rfl, rfl⟩

/-- What a turn takes along after its character is ASCII. -/
theorem readStep_skip {state : LexState} (h : Sound state) (c : Char) (cs : Text) :
    ∃ taken rest, cs = taken ++ rest ∧ taken.length = (readStep state c cs).2 ∧
      ∀ x ∈ taken, Ascii x := by
  have hturn := turn_readStep state c cs
  generalize readStep state c cs = next at hturn
  cases hturn with
  | one same => exact ⟨[], cs, rfl, rfl, by simp⟩
  | @pair state' x next ascii plain =>
    cases cs with
    | nil => cases next
    | cons y ys =>
      obtain rfl : y = x := by simpa using next
      exact ⟨[y], ys, rfl, rfl, by simpa using ascii⟩
  | @opens d top found =>
    obtain ⟨hd, hpre⟩ := delimiterOf_some found
    obtain ⟨taken, rest, rfl, hlen, rfl⟩ := delimiter_cons hd hpre
    exact ⟨taken, rest, rfl, hlen, fun x hx => hd.ascii x (by simp [hx])⟩
  | @closes d inside found =>
    have hd := h d inside
    obtain ⟨taken, rest, rfl, hlen, rfl⟩ := delimiter_cons hd found
    exact ⟨taken, rest, rfl, hlen, fun x hx => hd.ascii x (by simp [hx])⟩

theorem lexStep_eq (pre : Text) {state : LexState} (h : Sound state) {c : Char} (hc : Ascii c)
    (cs : Text) :
    lexStep (pre ++ c :: cs) (utf8 (pre ++ c :: cs)) (utf8 pre).length (firstByte c) state =
      some ((readStep state c cs).1, 1 + (readStep state c cs).2,
        decide (state = .normal ∧ c = ';')) := by
  have hnext := getElem?_after_ascii pre hc cs
  have h39 : (firstByte c == 39) = decide (c = '\'') := beq_byte c '\'' (by decide)
  have h34 : (firstByte c == 34) = decide (c = '"') := beq_byte c '"' (by decide)
  have h45 : (firstByte c == 45) = decide (c = '-') := beq_byte c '-' (by decide)
  have h47 : (firstByte c == 47) = decide (c = '/') := beq_byte c '/' (by decide)
  have h42 : (firstByte c == 42) = decide (c = '*') := beq_byte c '*' (by decide)
  have h36 : (firstByte c == 36) = decide (c = '$') := beq_byte c '$' (by decide)
  have h59 : (firstByte c == 59) = decide (c = ';') := beq_byte c ';' (by decide)
  have h10 : (firstByte c == 10) = decide (c = '\n') := beq_byte c '\n' (by decide)
  have n39 : (cs.head?.map firstByte == some 39) = decide (cs.head? = some '\'') :=
    beq_next _ '\'' (by decide)
  have n34 : (cs.head?.map firstByte == some 34) = decide (cs.head? = some '"') :=
    beq_next _ '"' (by decide)
  have n45 : (cs.head?.map firstByte == some 45) = decide (cs.head? = some '-') :=
    beq_next _ '-' (by decide)
  have n42 : (cs.head?.map firstByte == some 42) = decide (cs.head? = some '*') :=
    beq_next _ '*' (by decide)
  have n47 : (cs.head?.map firstByte == some 47) = decide (cs.head? = some '/') :=
    beq_next _ '/' (by decide)
  cases state with
  | normal =>
    simp only [lexStep, readStep, hnext, h39, h34, h45, h47, h36, h59, n45, n42, true_and,
      decide_eq_true_eq, Bool.and_eq_true]
    by_cases hq : c = '\''
    · simp [hq]
    · by_cases hdq : c = '"'
      · simp [hdq]
      · by_cases hline : c = '-' ∧ cs.head? = some '-'
        · simp [hline]
        · by_cases hblock : c = '/' ∧ cs.head? = some '*'
          · simp [hblock]
          · rw [if_neg hq, if_neg hdq, if_neg hline, if_neg hblock, if_neg hq, if_neg hdq,
              if_neg hline, if_neg hblock]
            by_cases hdollar : c = '$'
            · subst hdollar
              rw [if_pos rfl, dollarQuoteDelimiterAt_eq]
              cases hdel : delimiterOf ('$' :: cs) with
              | none => rfl
              | some d =>
                have hd := (delimiterOf_some hdel).1
                have htwo := hd.two
                have hlen := length_utf8_ascii hd.ascii
                simp only [hlen, Option.some.injEq, Prod.mk.injEq, true_and]
                exact ⟨by omega, rfl⟩
            · rw [if_neg hdollar, delimiterOf_of_ne hdollar]
              by_cases hsemi : c = ';'
              · simp [hsemi]
              · simp [hsemi]
  | singleQuote =>
    simp only [lexStep, readStep, hnext, h39, n39, decide_eq_true_eq]
    split_ifs <;> rfl
  | doubleQuote =>
    simp only [lexStep, readStep, hnext, h34, n34, decide_eq_true_eq]
    split_ifs <;> rfl
  | lineComment =>
    simp only [lexStep, readStep, h10, decide_eq_true_eq]
    split_ifs <;> rfl
  | blockComment =>
    simp only [lexStep, readStep, hnext, h42, n47, decide_eq_true_eq, Bool.and_eq_true]
    split_ifs <;> rfl
  | dollarQuote d =>
    have hd := h d rfl
    have htwo := hd.two
    simp only [lexStep, readStep, sliceFrom_boundary, length_utf8_ascii hd.ascii]
    split_ifs with hpre
    · simp only [Option.some.injEq, Prod.mk.injEq, true_and]
      exact ⟨by omega, by simp⟩
    · simp

theorem ne_of_wide {c d : Char} (hc : ¬Ascii c) (hd : Ascii d) : c ≠ d := by
  rintro rfl
  exact hc hd

/-- Outside dollar quotes the bytes of such a character mean nothing. -/
theorem lexStep_wide (sql : Sql) (bytes : List UInt8) (i : ℕ) {b : UInt8} (hb : 128 ≤ b.toNat)
    {state : LexState} (hstate : ∀ d, state ≠ .dollarQuote d) :
    lexStep sql bytes i b state = some (state, 1, false) := by
  have hne (n : ℕ) (hn : n < 128) : (b == UInt8.ofNat n) = false := by
    rw [beq_eq_false_iff_ne]
    rintro rfl
    rw [UInt8.toNat_ofNat'] at hb
    omega
  have h39 : (b == 39) = false := hne 39 (by omega)
  have h34 : (b == 34) = false := hne 34 (by omega)
  have h45 : (b == 45) = false := hne 45 (by omega)
  have h47 : (b == 47) = false := hne 47 (by omega)
  have h42 : (b == 42) = false := hne 42 (by omega)
  have h36 : (b == 36) = false := hne 36 (by omega)
  have h59 : (b == 59) = false := hne 59 (by omega)
  have h10 : (b == 10) = false := hne 10 (by omega)
  cases state with
  | normal => simp [lexStep, h39, h34, h45, h47, h36, h59]
  | singleQuote => simp [lexStep, h39]
  | doubleQuote => simp [lexStep, h34]
  | lineComment => simp [lexStep, h10]
  | blockComment => simp [lexStep, h42]
  | dollarQuote d => exact absurd rfl (hstate d)

theorem scan_wide (sql : Sql) (bytes : List UInt8) {state : LexState}
    (hstate : ∀ d, state ≠ .dollarQuote d) (m i fuel : ℕ) (positions : List ℕ)
    (h : ∀ j < m, ∃ b, bytes[i + j]? = some b ∧ 128 ≤ b.toNat) :
    scanSemicolons sql bytes (m + fuel) i state positions =
      scanSemicolons sql bytes fuel (i + m) state positions := by
  induction m generalizing i with
  | zero => rw [Nat.zero_add, Nat.add_zero]
  | succ m ih =>
    obtain ⟨b, hb, hwide⟩ := h 0 (by omega)
    rw [Nat.add_zero] at hb
    have hturn : scanSemicolons sql bytes (m + 1 + fuel) i state positions =
        scanSemicolons sql bytes (m + fuel) (i + 1) state positions := by
      rw [show m + 1 + fuel = (m + fuel) + 1 by omega, scanSemicolons]
      simp only [hb, lexStep_wide sql bytes i hwide hstate]
      rfl
    rw [hturn, ih (i + 1)]
    · rw [show i + 1 + m = i + (m + 1) by omega]
    · intro j hj
      have := h (j + 1) (by omega)
      rwa [show i + (j + 1) = i + 1 + j by omega] at this

theorem bytes_wide (pre : Text) {c : Char} (hc : ¬Ascii c) (cs : Text) {j : ℕ}
    (hj : j < c.utf8Size) :
    ∃ b, (utf8 (pre ++ c :: cs))[(utf8 pre).length + j]? = some b ∧ 128 ≤ b.toNat := by
  have hj' : j < (String.utf8EncodeChar c).length := by rwa [String.length_utf8EncodeChar]
  refine ⟨(String.utf8EncodeChar c)[j], ?_, encode_wide hc (List.getElem_mem hj')⟩
  rw [getElem?_utf8_append, utf8_cons, List.getElem?_append_left hj', List.getElem?_eq_getElem hj']

theorem readStep_wide {c : Char} (hc : ¬Ascii c) (cs : Text) {state : LexState}
    (hstate : ∀ d, state ≠ .dollarQuote d) : readStep state c cs = (state, 0) := by
  have hne (d : Char) (hd : Ascii d) : c ≠ d := ne_of_wide hc hd
  cases state with
  | normal =>
    simp [readStep, hne '\'' (by decide), hne '"' (by decide), hne '-' (by decide),
      hne '/' (by decide), delimiterOf_of_ne (hne '$' (by decide))]
  | singleQuote => simp [readStep, hne '\'' (by decide)]
  | doubleQuote => simp [readStep, hne '"' (by decide)]
  | lineComment => simp [readStep, hne '\n' (by decide)]
  | blockComment => simp [readStep, hne '*' (by decide)]
  | dollarQuote d => exact absurd rfl (hstate d)

/-- Every character read in a dollar quote is ASCII. -/
def AsciiQuoted (state : LexState) (s : Text) : Prop :=
  ∀ r ∈ readings state 0 s, ∀ d, r.state = .dollarQuote d → Ascii r.char

/-- The byte offsets of the semicolons in front of the given ends of a text. -/
def offsets (sql : Sql) (rests : List Text) : List ℕ :=
  rests.map fun rest => (utf8 sql).length - (utf8 rest).length - 1

structure Scan (pre s : Text) (state : LexState) (positions : List ℕ) (result : Option (List ℕ)) :
    Prop where
  completes : AsciiQuoted state s →
    result = some (positions ++ offsets (pre ++ s) (afterSemicolons state s))
  panics : ¬AsciiQuoted state s → result = none

theorem asciiQuoted_cons (state : LexState) (c : Char) (cs : Text) :
    AsciiQuoted state (c :: cs) ↔ (∀ d, state = .dollarQuote d → Ascii c) ∧
      AsciiQuoted (readStep state c cs).1 (cs.drop (readStep state c cs).2) := by
  rw [AsciiQuoted, readings_cons, List.forall_mem_cons]
  rfl

theorem afterSemicolons_cons (state : LexState) (c : Char) (cs : Text) :
    afterSemicolons state (c :: cs) = (if state = .normal ∧ c = ';' then [cs] else []) ++
      afterSemicolons (readStep state c cs).1 (cs.drop (readStep state c cs).2) := by
  rw [afterSemicolons, readings_cons, List.filterMap_cons, afterSemicolons]
  by_cases h : state = .normal ∧ c = ';'
  · simp [h]
  · simp [h]

theorem scan_nil (pre : Text) (state : LexState) (fuel : ℕ) (positions : List ℕ) :
    Scan pre [] state positions
      (scanSemicolons (pre ++ []) (utf8 (pre ++ [])) fuel (utf8 pre).length state positions) := by
  refine ⟨fun _ => ?_, fun h => absurd (by simp [AsciiQuoted, readings]) h⟩
  cases fuel with
  | zero => simp [scanSemicolons, offsets, afterSemicolons, readings]
  | succ fuel =>
    rw [scanSemicolons]
    simp [offsets, afterSemicolons, readings]

theorem scan_ascii (pre : Text) {c : Char} (hc : Ascii c) (cs : Text) {state : LexState}
    (h : Sound state) {taken rest : Text} (hcs : cs = taken ++ rest)
    (htaken : taken.length = (readStep state c cs).2) (hascii : ∀ x ∈ taken, Ascii x) (fuel : ℕ)
    (positions : List ℕ) :
    scanSemicolons (pre ++ c :: cs) (utf8 (pre ++ c :: cs)) (fuel + 1) (utf8 pre).length state
        positions =
      scanSemicolons ((pre ++ c :: taken) ++ rest) (utf8 ((pre ++ c :: taken) ++ rest)) fuel
        (utf8 (pre ++ c :: taken)).length (readStep state c cs).1
        (positions ++ offsets (pre ++ c :: cs) (if state = .normal ∧ c = ';' then [cs] else [])) := by
  have hbyte : (utf8 (pre ++ c :: cs))[(utf8 pre).length]? = some (firstByte c) := by
    rw [getElem?_boundary]
    rfl
  have hwhole : (pre ++ c :: taken) ++ rest = pre ++ c :: cs := by simp [hcs]
  have hlen : (utf8 (pre ++ c :: taken)).length =
      (utf8 pre).length + (1 + (readStep state c cs).2) := by
    rw [length_utf8_append, length_utf8_cons, utf8Size_ascii hc, length_utf8_ascii hascii, htaken]
  have hpositions : (if state = .normal ∧ c = ';' then positions ++ [(utf8 pre).length]
      else positions) = positions ++ offsets (pre ++ c :: cs)
        (if state = .normal ∧ c = ';' then [cs] else []) := by
    split_ifs
    · have hoffset : (utf8 (pre ++ c :: cs)).length - (utf8 cs).length - 1 = (utf8 pre).length := by
        rw [length_utf8_append, length_utf8_cons, utf8Size_ascii hc]
        omega
      simp [offsets, hoffset]
    · simp [offsets]
  rw [hwhole, hlen, ← hpositions, scanSemicolons]
  simp only [hbyte, lexStep_eq pre h hc cs, decide_eq_true_eq]

theorem Scan.cons_ascii {pre : Text} {c : Char} (hc : Ascii c) {cs : Text} {state : LexState}
    {taken rest : Text} (hcs : cs = taken ++ rest) (htaken : taken.length = (readStep state c cs).2)
    {positions : List ℕ} {result : Option (List ℕ)}
    (h : Scan (pre ++ c :: taken) rest (readStep state c cs).1
      (positions ++ offsets (pre ++ c :: cs) (if state = .normal ∧ c = ';' then [cs] else []))
      result) : Scan pre (c :: cs) state positions result := by
  have hdrop : cs.drop (readStep state c cs).2 = rest := by
    rw [← htaken, hcs, List.drop_left]
  have hwhole : (pre ++ c :: taken) ++ rest = pre ++ c :: cs := by simp [hcs]
  have hquoted : AsciiQuoted state (c :: cs) ↔ AsciiQuoted (readStep state c cs).1 rest := by
    rw [asciiQuoted_cons, hdrop]
    exact and_iff_right fun _ _ => hc
  constructor
  · intro hall
    rw [h.completes (hquoted.mp hall), hwhole, afterSemicolons_cons, hdrop, offsets, offsets,
      offsets, List.map_append, List.append_assoc]
  · intro hnot
    exact h.panics fun hall => hnot (hquoted.mpr hall)

theorem scan_quoted_wide (pre : Text) {c : Char} (hc : ¬Ascii c) (cs : Text) {d : Text}
    (hd : Delimiter d) (fuel : ℕ) (hfuel : (utf8 (c :: cs)).length ≤ fuel) (positions : List ℕ) :
    scanSemicolons (pre ++ c :: cs) (utf8 (pre ++ c :: cs)) fuel (utf8 pre).length
      (.dollarQuote d) positions = none := by
  have hsize := utf8Size_wide hc
  rw [length_utf8_cons] at hfuel
  obtain ⟨fuel, rfl⟩ : ∃ k, fuel = k + 2 := ⟨fuel - 2, by omega⟩
  have hprefix : d.isPrefixOf (c :: cs) = false := by
    rw [Bool.eq_false_iff, Ne, List.isPrefixOf_iff_prefix]
    intro hpre
    obtain ⟨taken, rest, -, -, rfl⟩ := delimiter_cons hd hpre
    exact hc (hd.ascii c (by simp))
  have hfirst : (utf8 (pre ++ c :: cs))[(utf8 pre).length]? = some (firstByte c) := by
    rw [getElem?_boundary]
    rfl
  obtain ⟨b, hb, -⟩ := bytes_wide pre hc cs hsize
  have hturn : lexStep (pre ++ c :: cs) (utf8 (pre ++ c :: cs)) (utf8 pre).length (firstByte c)
      (.dollarQuote d) = some (.dollarQuote d, 1, false) := by
    simp only [lexStep, sliceFrom_boundary, hprefix, Bool.false_eq_true, if_false]
  have hpanic : lexStep (pre ++ c :: cs) (utf8 (pre ++ c :: cs)) ((utf8 pre).length + 1) b
      (.dollarQuote d) = none := by
    simp only [lexStep, sliceFrom_inside pre cs Nat.one_pos hsize]
  simp only [scanSemicolons, hfirst, hturn, hb, hpanic]

/-- The byte loop finds the semicolons of the character lexer, or panics. -/
theorem scan_eq (n : ℕ) (pre s : Text) (hn : s.length ≤ n) {state : LexState} (h : Sound state)
    (fuel : ℕ) (hfuel : (utf8 s).length ≤ fuel) (positions : List ℕ) :
    Scan pre s state positions
      (scanSemicolons (pre ++ s) (utf8 (pre ++ s)) fuel (utf8 pre).length state positions) := by
  induction n generalizing pre s state fuel positions with
  | zero =>
    obtain rfl : s = [] := List.length_eq_zero_iff.mp (by omega)
    exact scan_nil pre state fuel positions
  | succ n ih =>
    cases s with
    | nil => exact scan_nil pre state fuel positions
    | cons c cs =>
      rw [List.length_cons] at hn
      rw [length_utf8_cons] at hfuel
      by_cases hc : Ascii c
      · rw [utf8Size_ascii hc] at hfuel
        obtain ⟨fuel, rfl⟩ : ∃ k, fuel = k + 1 := ⟨fuel - 1, by omega⟩
        obtain ⟨taken, rest, hcs, htaken, hascii⟩ := readStep_skip h c cs
        rw [scan_ascii pre hc cs h hcs htaken hascii]
        apply Scan.cons_ascii hc hcs htaken
        have hbytes : (utf8 rest).length ≤ (utf8 cs).length := by
          rw [hcs, length_utf8_append]
          omega
        have hlen : rest.length ≤ cs.length := by
          rw [hcs, List.length_append]
          omega
        exact ih (pre ++ c :: taken) rest (by omega) (sound_readStep h c cs) fuel (by omega) _
      · by_cases hstate : ∃ d, state = .dollarQuote d
        · obtain ⟨d, rfl⟩ := hstate
          rw [scan_quoted_wide pre hc cs (h d rfl) fuel (by rwa [length_utf8_cons])]
          refine ⟨fun hall => ?_, fun _ => rfl⟩
          exact absurd (((asciiQuoted_cons _ c cs).mp hall).1 d rfl) hc
        · rw [not_exists] at hstate
          obtain ⟨fuel, rfl⟩ : ∃ k, fuel = c.utf8Size + k := ⟨fuel - c.utf8Size, by omega⟩
          have hwhole : (pre ++ [c]) ++ cs = pre ++ c :: cs := by simp
          have hlen : (utf8 (pre ++ [c])).length = (utf8 pre).length + c.utf8Size := by
            rw [length_utf8_append, length_utf8_cons]
            rfl
          have hnext := ih (pre ++ [c]) cs (by omega) h fuel (by omega) positions
          rw [hwhole, hlen] at hnext
          rw [scan_wide _ _ hstate _ _ _ _ fun j hj => bytes_wide pre hc cs hj]
          have hne : ¬(state = .normal ∧ c = ';') := fun e => hc (e.2 ▸ (by decide))
          constructor
          · intro hall
            rw [asciiQuoted_cons, readStep_wide hc cs hstate] at hall
            rw [hnext.completes hall.2, hwhole, afterSemicolons_cons, readStep_wide hc cs hstate,
              if_neg hne]
            rfl
          · intro hnot
            apply hnext.panics
            intro hall
            apply hnot
            rw [asciiQuoted_cons, readStep_wide hc cs hstate]
            exact ⟨fun d hd => absurd hd (hstate d), hall⟩

theorem sound_normal : Sound .normal := by
  intro d h
  cases h

theorem topLevelSemicolons_scan (sql : Sql) : Scan [] sql .normal [] (topLevelSemicolons sql) :=
  scan_eq sql.length [] sql le_rfl sound_normal (utf8 sql).length le_rfl []

theorem asciiQuoted_iff (sql : Sql) :
    AsciiQuoted .normal sql ↔ ∀ c ∈ dollarQuoted sql, Ascii c := by
  constructor
  · intro h c hc
    obtain ⟨r, hr, hread⟩ := List.mem_filterMap.mp hc
    split at hread
    · rename_i d hstate
      exact Option.some.inj hread ▸ h r hr d hstate
    · cases hread
  · intro h r hr d hstate
    apply h
    apply List.mem_filterMap.mpr
    exact ⟨r, hr, by rw [hstate]⟩

theorem readings_split {state : LexState} {skip : ℕ} {s : Text} {r : Reading}
    (h : r ∈ readings state skip s) : ∃ before, s = before ++ r.char :: r.rest := by
  induction s generalizing state skip with
  | nil => cases skip <;> cases h
  | cons c cs ih =>
    cases skip with
    | zero =>
      rcases List.mem_cons.mp h with rfl | h
      · exact ⟨[], rfl⟩
      · obtain ⟨before, hcs⟩ := ih h
        exact ⟨c :: before, by rw [hcs, List.cons_append]⟩
    | succ skip =>
      obtain ⟨before, hcs⟩ := ih h
      exact ⟨c :: before, by rw [hcs, List.cons_append]⟩

/-- What is read after a character is read from the state it leads to. -/
theorem readings_after {state : LexState} {skip : ℕ} {s : Text} {r r' : Reading}
    (h : r ∈ readings state skip s)
    (h' : r' ∈ readings (readStep r.state r.char r.rest).1 (readStep r.state r.char r.rest).2
      r.rest) : r' ∈ readings state skip s := by
  induction s generalizing state skip with
  | nil => cases skip <;> cases h
  | cons c cs ih =>
    cases skip with
    | zero =>
      rcases List.mem_cons.mp h with rfl | h
      · exact List.mem_cons_of_mem _ h'
      · exact List.mem_cons_of_mem _ (ih h)
    | succ skip => exact ih h

theorem mem_afterSemicolons {state : LexState} {s rest : Text}
    (h : rest ∈ afterSemicolons state s) : ⟨.normal, ';', rest⟩ ∈ readings state 0 s := by
  obtain ⟨⟨state', char, rest'⟩, hr, hread⟩ := List.mem_filterMap.mp h
  by_cases hsemi : state' = .normal ∧ char = ';'
  · obtain ⟨rfl, rfl⟩ := hsemi
    simp only [true_and, if_true, Option.some.injEq] at hread
    exact hread ▸ hr
  · simp [hsemi] at hread

/-- A slice after a semicolon is what the lexer found there. -/
theorem slices_offset {sql rest : Text} (h : ∃ before, sql = before ++ ';' :: rest) :
    sliceFrom sql ((utf8 sql).length - (utf8 rest).length - 1 + 1) = some rest ∧
      (sliceTo sql ((utf8 sql).length - (utf8 rest).length - 1 + 1)).isSome = true := by
  obtain ⟨before, rfl⟩ := h
  have hwhole : before ++ ';' :: rest = (before ++ [';']) ++ rest := by simp
  have hlen : (utf8 (before ++ ';' :: rest)).length - (utf8 rest).length - 1 + 1 =
      (utf8 (before ++ [';'])).length := by
    rw [length_utf8_append, length_utf8_cons, length_utf8_append, length_utf8_cons,
      utf8Size_ascii (by decide), utf8_nil, List.length_nil]
    omega
  rw [hlen, hwhole, sliceFrom_boundary, sliceTo_boundary]
  exact ⟨rfl, rfl⟩

theorem anyFollowed_eq {sql : Sql} {rests : List Text}
    (h : ∀ rest ∈ rests, ∃ before, sql = before ++ ';' :: rest) :
    anyFollowed sql (offsets sql rests) = some (rests.any fun rest => !isEffectivelyEmpty rest) := by
  induction rests with
  | nil => rfl
  | cons rest rests ih =>
    have hslice := (slices_offset (h rest (by simp))).1
    rw [offsets, List.map_cons, ← offsets, anyFollowed]
    simp only [hslice, ih fun r hr => h r (by simp [hr])]
    cases hempty : isEffectivelyEmpty rest with
    | true => simp [hempty]
    | false => simp [hempty]

theorem ends_afterSemicolons (sql : Sql) :
    ∀ rest ∈ afterSemicolons .normal sql, ∃ before, sql = before ++ ';' :: rest := by
  intro rest hrest
  exact readings_split (mem_afterSemicolons hrest)

/-- `is_multi_statement` asks whether a token follows a top-level semicolon. -/
theorem isMultiStatement_eq {sql : Sql} (h : AsciiQuoted .normal sql) :
    isMultiStatement sql =
      some ((afterSemicolons .normal sql).any fun rest => !isEffectivelyEmpty rest) := by
  have htop := (topLevelSemicolons_scan sql).completes h
  rw [List.nil_append, List.nil_append] at htop
  rw [isMultiStatement, htop, Option.bind_some, anyFollowed_eq (ends_afterSemicolons sql)]

/-- The text is split in front of its last statement. -/
theorem splitAtLastStatement_eq {sql pre main : Sql}
    (h : splitAtLastStatement sql = some (some (pre, main))) :
    AsciiQuoted .normal sql ∧ ∃ rest ∈ afterSemicolons .normal sql,
      isEffectivelyEmpty rest = false := by
  obtain ⟨positions, split, rest, htop, hlast, -, hrest, hempty, -⟩ := splitAtLastStatement_cases h
  have hquoted : AsciiQuoted .normal sql := by
    by_contra hnot
    rw [(topLevelSemicolons_scan sql).panics hnot] at htop
    cases htop
  rw [(topLevelSemicolons_scan sql).completes hquoted, List.nil_append, List.nil_append] at htop
  obtain rfl := Option.some.inj htop
  obtain ⟨rest', hmem, hsplit⟩ := List.mem_map.mp (List.mem_of_getLast? hlast)
  have hslice := (slices_offset (ends_afterSemicolons sql rest' hmem)).1
  rw [hsplit, hrest] at hslice
  exact ⟨hquoted, rest', hmem, by rw [← Option.some.inj hslice]; exact hempty⟩

theorem isMultiStatement_split {sql pre main : Sql}
    (h : splitAtLastStatement sql = some (some (pre, main))) : isMultiStatement sql = some true := by
  obtain ⟨hquoted, rest, hrest, hempty⟩ := splitAtLastStatement_eq h
  rw [isMultiStatement_eq hquoted]
  congr 1
  exact List.any_eq_true.mpr ⟨rest, hrest, by rw [hempty]; rfl⟩

end SshCommander.SplitterBytes
