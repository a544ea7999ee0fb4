import Mathlib.Data.Nat.Find
import SshCommander.RustTextLaws

/-!
# Splitting text

The string operations that parsers of line formats are made of, and what they read of a text put
together from words and lines: `split_whitespace`, `splitn`, `split_once` and `str::parse`.
-/

namespace SshCommander.RustText

def splitWhitespace (s : Text) : List Text := (s.splitOnP isWhitespace).filter (! ·.isEmpty)

/-- `splitn`, at the characters that `p` names. -/
def splitn (p : Char → Bool) : ℕ → Text → List Text
  | 0, _ => []
  | 1, s => [s]
  | n + 2, s =>
    match s.dropWhile (! p ·) with
    | [] => [s]
    | _ :: rest => s.takeWhile (! p ·) :: splitn p (n + 1) rest

def splitOnce (d : Char) (s : Text) : Option (Text × Text) :=
  match s.dropWhile (· != d) with
  | [] => none
  | _ :: rest => some (s.takeWhile (· != d), rest)

def rsplitOnce (d : Char) (s : Text) : Option (Text × Text) :=
  (splitOnce d s.reverse).map fun r => (r.2.reverse, r.1.reverse)

def containsText (s pat : Text) : Bool := (s.dropInfix? pat).isSome

/-- `split(sep).next()`. -/
def splitFirst (sep s : Text) : Text :=
  match s.dropInfix? sep with
  | some (a, _) => a
  | none => s

def trimMatches (p : Char → Bool) (s : Text) : Text := (s.dropWhile p).rdropWhile p

/-- `str::parse` of an unsigned integer below `bound`. -/
def parseUnsigned (bound : ℕ) (s : Text) : Option ℕ :=
  let digits := if s.head? = some '+' then s.tail else s
  if digits ≠ [] ∧ digits.all (·.isDigit) then
    if Nat.ofDigitChars 10 digits 0 < bound then some (Nat.ofDigitChars 10 digits 0) else none
  else none

/-- The text without `pat` at its start, as often as it is there and `n` times at most. -/
def dropPrefixes (pat : Text) : ℕ → Text → Text
  | 0, s => s
  | n + 1, s =>
    match s.dropPrefix? pat with
    | some rest => dropPrefixes pat n rest
    | none => s

def trimStartMatches (pat s : Text) : Text := dropPrefixes pat s.length s

def trimEndMatches (pat s : Text) : Text := (trimStartMatches pat.reverse s.reverse).reverse

/-- `str::to_lowercase`, of which only what it does to ASCII matters here. -/
structure Lowercase where
  toLowercase : Text → Text
  ascii : ∀ s : Text, (∀ c ∈ s, c.toNat < 128) → toLowercase s = s.map Char.toLower

def asciiLowercase : Lowercase := ⟨List.map Char.toLower, fun _ _ => rfl⟩

def decimal (n : ℕ) : Text := Nat.toDigits 10 n

variable {s w a b sep : Text} {c : Char} {p : Char → Bool} {ls : List Text} {n bound : ℕ}

theorem isDigit_decimal (h : c ∈ decimal n) : c.isDigit = true :=
  Nat.isDigit_of_mem_toDigits (b := 10) (by decide) (by decide) h

theorem notMem_decimal (h : c.isDigit = false) (n : ℕ) : c ∉ decimal n := fun hc =>
  Bool.false_ne_true (h.symm.trans (isDigit_decimal hc))

theorem decimal_ne_nil (n : ℕ) : decimal n ≠ [] := Nat.toDigits_ne_nil

theorem word_decimal (n : ℕ) : Word (decimal n) :=
  ⟨decimal_ne_nil n, fun _ hc => isWhitespace_digit (isDigit_decimal hc)⟩

/-- A number is digits, with or without a plus in front. -/
theorem parseUnsigned_eq_some_iff : parseUnsigned bound s = some n ↔
    ∃ digits, (s = digits ∨ s = '+' :: digits) ∧ digits ≠ [] ∧ (∀ c ∈ digits, c.isDigit = true) ∧
      Nat.ofDigitChars 10 digits 0 = n ∧ n < bound := by
  constructor
  · intro h
    have hsign : ∃ digits, (s = digits ∨ s = '+' :: digits) ∧
        (if s.head? = some '+' then s.tail else s) = digits := by
      cases s with
      | nil => exact ⟨[], .inl rfl, rfl⟩
      | cons c cs =>
        by_cases hc : c = '+'
        · exact ⟨cs, .inr (by rw [hc]), by rw [hc]; rfl⟩
        · exact ⟨c :: cs, .inl rfl, by simp [hc]⟩
    obtain ⟨digits, hs, hdigits⟩ := hsign
    rw [parseUnsigned, hdigits] at h
    by_cases hall : digits ≠ [] ∧ digits.all (·.isDigit) = true
    · by_cases hlt : Nat.ofDigitChars 10 digits 0 < bound
      · obtain rfl : Nat.ofDigitChars 10 digits 0 = n := by simpa [hall, hlt] using h
        exact ⟨digits, hs, hall.1, List.all_eq_true.mp hall.2, rfl, hlt⟩
      · simp [hlt] at h
    · simp only [if_neg hall] at h
      cases h
  · rintro ⟨digits, hs, hne, hall, rfl, hlt⟩
    have hsign : (if s.head? = some '+' then s.tail else s) = digits := by
      obtain rfl | rfl := hs
      · rw [if_neg]
        intro hplus
        have hdigit := hall _ (List.mem_of_head? hplus)
        revert hdigit
        decide
      · rfl
    rw [parseUnsigned, hsign]
    simp [hne, List.all_eq_true.mpr hall, hlt]

theorem parseUnsigned_decimal (h : n < bound) : parseUnsigned bound (decimal n) = some n :=
  parseUnsigned_eq_some_iff.mpr ⟨decimal n, .inl rfl, decimal_ne_nil n, fun _ => isDigit_decimal,
    Nat.ofDigitChars_ten_toDigits, h⟩

@[simp] theorem splitWhitespace_nil : splitWhitespace [] = [] := rfl

theorem splitWhitespace_word (h : Word w) : splitWhitespace w = [w] := by
  rw [splitWhitespace, List.splitOnP_eq_singleton h.solid]
  simp [h.nonempty]

/-- A blank keeps what is before it from what is behind it. -/
theorem splitWhitespace_blank (hc : isWhitespace c = true) (a b : Text) :
    splitWhitespace (a ++ c :: b) = splitWhitespace a ++ splitWhitespace b := by
  rw [splitWhitespace, List.splitOnP_append_cons _ _ hc, List.filter_append]
  rfl

theorem splitWhitespace_blanks (h : ∀ c ∈ s, isWhitespace c = true) (b : Text) :
    splitWhitespace (s ++ b) = splitWhitespace b := by
  induction s with
  | nil => rfl
  | cons c s ih =>
    have hrest := ih fun d hd => h d (List.mem_cons_of_mem _ hd)
    have hcut := splitWhitespace_blank (h c List.mem_cons_self) [] (s ++ b)
    rw [List.cons_append]
    simpa [hrest] using hcut

/-- A word in front of blanks, or in front of nothing. -/
theorem splitWhitespace_word_append (hw : Word w) (hs : ∀ c ∈ s.head?, isWhitespace c = true) :
    splitWhitespace (w ++ s) = w :: splitWhitespace s := by
  cases s with
  | nil => rw [List.append_nil, splitWhitespace_word hw, splitWhitespace_nil]
  | cons c s =>
    have hc := hs c rfl
    have hcut := splitWhitespace_blank hc [] s
    rw [List.nil_append, splitWhitespace_nil, List.nil_append] at hcut
    rw [splitWhitespace_blank hc, splitWhitespace_word hw, hcut]
    rfl

theorem splitWhitespace_append_blanks (h : ∀ c ∈ s, isWhitespace c = true) (a : Text) :
    splitWhitespace (a ++ s) = splitWhitespace a := by
  cases s with
  | nil => rw [List.append_nil]
  | cons c s =>
    have hrest : splitWhitespace (s ++ []) = splitWhitespace [] :=
      splitWhitespace_blanks (fun d hd => h d (List.mem_cons_of_mem _ hd)) []
    rw [List.append_nil] at hrest
    rw [splitWhitespace_blank (h c List.mem_cons_self), hrest, splitWhitespace_nil,
      List.append_nil]

theorem splitWhitespace_trim (s : Text) : splitWhitespace (trim s) = splitWhitespace s := by
  have hstart : splitWhitespace (s.dropWhile isWhitespace) = splitWhitespace s := by
    have hblanks := splitWhitespace_blanks (s := s.takeWhile isWhitespace)
      (fun _ hc => List.mem_takeWhile_imp hc) (s.dropWhile isWhitespace)
    rw [List.takeWhile_append_dropWhile] at hblanks
    exact hblanks.symm
  have hstop := splitWhitespace_append_blanks (s := (s.dropWhile isWhitespace).rtakeWhile isWhitespace)
    (fun _ hc => List.mem_rtakeWhile_imp hc) ((s.dropWhile isWhitespace).rdropWhile isWhitespace)
  rw [List.rdropWhile_append_rtakeWhile] at hstop
  rw [trim, ← hstop, hstart]

/-- The pieces of a text have nothing of the separators. -/
theorem mem_splitOnP {l : Text} (h : l ∈ s.splitOnP p) (hc : c ∈ l) : p c = false ∧ c ∈ s := by
  induction s generalizing l with
  | nil =>
    rw [List.splitOnP_nil, List.mem_singleton] at h
    rw [h] at hc
    cases hc
  | cons d s ih =>
    rw [List.splitOnP_cons_eq_if_modifyHead] at h
    split at h
    · obtain rfl | h := List.mem_cons.mp h
      · cases hc
      · exact ⟨(ih h hc).1, List.mem_cons_of_mem _ (ih h hc).2⟩
    · rename_i hd
      cases hs : s.splitOnP p with
      | nil => exact absurd hs (List.splitOnP_ne_nil p s)
      | cons first rest =>
        rw [hs, List.modifyHead_cons] at h
        obtain rfl | h := List.mem_cons.mp h
        · obtain rfl | hc := List.mem_cons.mp hc
          · exact ⟨by simpa using hd, List.mem_cons_self⟩
          · have hfirst := ih (hs ▸ List.mem_cons_self) hc
            exact ⟨hfirst.1, List.mem_cons_of_mem _ hfirst.2⟩
        · have hrest := ih (hs ▸ List.mem_cons_of_mem _ h) hc
          exact ⟨hrest.1, List.mem_cons_of_mem _ hrest.2⟩

theorem word_of_mem_splitWhitespace (h : w ∈ splitWhitespace s) : Word w := by
  obtain ⟨hmem, hne⟩ := List.mem_filter.mp h
  exact ⟨by simpa using hne, fun c hc => (mem_splitOnP hmem hc).1⟩

theorem word_takeWhile (hc : isWhitespace c = false) (s : Text) :
    Word ((c :: s).takeWhile (! isWhitespace ·)) := by
  refine ⟨by simp [hc], fun d hd => ?_⟩
  simpa using List.mem_takeWhile_imp hd

/-- A text that starts solid starts with its first word. -/
theorem splitWhitespace_cons (hc : isWhitespace c = false) (s : Text) :
    ∃ rest, splitWhitespace (c :: s) = (c :: s).takeWhile (! isWhitespace ·) :: rest := by
  have hword := word_takeWhile hc s
  have hblank : ∀ d ∈ ((c :: s).dropWhile (! isWhitespace ·)).head?, isWhitespace d = true := by
    intro d hd
    simpa using head_of_dropWhile (dropWhile_dropWhile (! isWhitespace ·) (c :: s)) d hd
  refine ⟨splitWhitespace ((c :: s).dropWhile (! isWhitespace ·)), ?_⟩
  rw [← splitWhitespace_word_append hword hblank, List.takeWhile_append_dropWhile]

/-- Columns with one blank or more between them; `gap` counts the further blanks in front of a
column by the number of columns behind it. -/
def joinColumns (gap : ℕ → ℕ) : List Text → Text
  | [] => []
  | [a] => a
  | a :: b :: ls => a ++ ' ' :: (List.replicate (gap ls.length) ' ' ++ joinColumns gap (b :: ls))

theorem splitWhitespace_joinColumns (gap : ℕ → ℕ) (ls : List Text) :
    splitWhitespace (joinColumns gap ls) = ls.flatMap splitWhitespace := by
  fun_induction joinColumns gap ls with
  | case1 => rfl
  | case2 a => simp
  | case3 a b ls ih =>
    have hblanks : ∀ c ∈ List.replicate (gap ls.length) ' ', isWhitespace c = true := by
      intro c hc
      rw [List.eq_of_mem_replicate hc]
      rfl
    rw [splitWhitespace_blank rfl, splitWhitespace_blanks hblanks, ih]
    rfl

theorem mem_joinColumns {gap : ℕ → ℕ} (h : c ∈ joinColumns gap ls) :
    c = ' ' ∨ ∃ l ∈ ls, c ∈ l := by
  fun_induction joinColumns gap ls with
  | case1 => cases h
  | case2 a => exact .inr ⟨a, List.mem_singleton_self a, h⟩
  | case3 a b ls ih =>
    obtain h | h := List.mem_append.mp h
    · exact .inr ⟨a, List.mem_cons_self, h⟩
    obtain rfl | h := List.mem_cons.mp h
    · exact .inl rfl
    obtain h | h := List.mem_append.mp h
    · exact .inl (List.eq_of_mem_replicate h)
    obtain h | ⟨l, hl, hc⟩ := ih h
    · exact .inl h
    · exact .inr ⟨l, List.mem_cons_of_mem a hl, hc⟩

theorem prefix_joinColumns (gap : ℕ → ℕ) (a : Text) (ls : List Text) :
    a <+: joinColumns gap (a :: ls) := by
  cases ls with
  | nil => exact List.prefix_rfl
  | cons b ls => exact List.prefix_append _ _

/-- `join(" ")`. -/
def joinBlank (ls : List Text) : Text := joinColumns (fun _ => 0) ls

theorem joinBlank_cons (a b : Text) (ls : List Text) :
    joinBlank (a :: b :: ls) = a ++ ' ' :: joinBlank (b :: ls) := rfl

theorem joinBlank_append {ks : List Text} (hk : ks ≠ []) (hl : ls ≠ []) :
    joinBlank (ks ++ ls) = joinBlank ks ++ ' ' :: joinBlank ls := by
  obtain ⟨l, ls, rfl⟩ := List.exists_cons_of_ne_nil hl
  induction ks with
  | nil => exact absurd rfl hk
  | cons a ks ih =>
    cases ks with
    | nil => rfl
    | cons b ks =>
      rw [List.cons_append, List.cons_append, joinBlank_cons, joinBlank_cons, ← List.cons_append,
        ih (List.cons_ne_nil b ks), List.append_assoc, List.cons_append]

/-- Words that are joined are split again. -/
theorem splitWhitespace_joinBlank (s : Text) :
    splitWhitespace (joinBlank (splitWhitespace s)) = splitWhitespace s := by
  have hword : ∀ w ∈ splitWhitespace s, splitWhitespace w = [w] := fun w hw =>
    splitWhitespace_word (word_of_mem_splitWhitespace hw)
  rw [joinBlank, splitWhitespace_joinColumns, List.flatMap_congr hword, List.flatMap_singleton']

theorem length_joinBlank_cons_le (a : Text) (ls : List Text) :
    (joinBlank (a :: ls)).length ≤ a.length + ((joinBlank ls).length + 1) := by
  cases ls with
  | nil => exact Nat.le_add_right a.length _
  | cons b ls => rw [joinBlank_cons, List.length_append, List.length_cons]

/-- The words of a text are no longer than the text with one blank between them. -/
theorem length_joinBlank_splitWhitespace_le (s : Text) :
    (joinBlank (splitWhitespace s)).length ≤ s.length := by
  induction hn : s.length using Nat.strong_induction_on generalizing s with
  | _ n ih =>
    subst hn
    cases s with
    | nil => exact le_rfl
    | cons c s =>
      cases hc : isWhitespace c with
      | true =>
        have hskip := splitWhitespace_blank hc [] s
        rw [List.nil_append, splitWhitespace_nil, List.nil_append] at hskip
        rw [hskip]
        exact (ih s.length (by simp) s rfl).trans (by simp)
      | false =>
        have hword := word_takeWhile hc s
        have hsplit := List.takeWhile_append_dropWhile (p := (! isWhitespace ·)) (l := c :: s)
        cases hd : (c :: s).dropWhile (! isWhitespace ·) with
        | nil =>
          rw [hd, List.append_nil] at hsplit
          rw [← hsplit, splitWhitespace_word hword]
          exact le_rfl
        | cons d rest =>
          have hblank : isWhitespace d = true := by
            simpa using head_dropWhile hd
          rw [hd] at hsplit
          rw [← hsplit, splitWhitespace_blank hblank, splitWhitespace_word hword,
            List.singleton_append]
          have hlength := congrArg List.length hsplit
          rw [List.length_append, List.length_cons] at hlength ⊢
          have hrest := ih rest.length (by omega) rest rfl
          have hjoin := length_joinBlank_cons_le ((c :: s).takeWhile (! isWhitespace ·))
            (splitWhitespace rest)
          omega

theorem splitOnce_cons {d : Char} (h : d ∉ a) (b : Text) :
    splitOnce d (a ++ d :: b) = some (a, b) := by
  have hall : ∀ c ∈ a, (c != d) = true := fun c hc => bne_iff_ne.mpr fun he => h (he ▸ hc)
  rw [splitOnce, List.dropWhile_append_of_pos hall, List.dropWhile_cons_of_neg (by simp),
    List.takeWhile_append_of_pos hall, List.takeWhile_cons_of_neg (by simp), List.append_nil]

theorem mem_of_splitOnce {d : Char} (h : splitOnce d s = some (a, b)) (hc : c ∈ b) : c ∈ s := by
  rw [splitOnce] at h
  split at h
  · cases h
  · rename_i e rest hd
    obtain ⟨-, rfl⟩ := Prod.mk.inj (Option.some.inj h)
    exact (List.dropWhile_suffix _).subset (hd ▸ List.mem_cons_of_mem e hc)

theorem rsplitOnce_cons {d : Char} (h : d ∉ b) (a : Text) :
    rsplitOnce d (a ++ d :: b) = some (a, b) := by
  have hreverse : (a ++ d :: b).reverse = b.reverse ++ d :: a.reverse := by simp
  rw [rsplitOnce, hreverse, splitOnce_cons (by simpa using h)]
  simp

theorem trimMatches_self (h : ∀ c ∈ s, p c = false) : trimMatches p s = s := by
  have hstart : s.dropWhile p = s := dropWhile_of_head fun c hc => h c (List.mem_of_mem_head? hc)
  rw [trimMatches, hstart]
  refine List.rdropWhile_eq_self_iff.mpr fun hne => ?_
  simp [h _ (List.getLast_mem hne)]

/-- A field in front of the first separator. -/
theorem splitn_field (ha : ∀ d ∈ a, p d = false) (hc : p c = true) (n : ℕ) (rest : Text) :
    splitn p (n + 2) (a ++ c :: rest) = a :: splitn p (n + 1) rest := by
  have hall : ∀ d ∈ a, (! p d) = true := fun d hd => by rw [ha d hd]; rfl
  rw [splitn, List.dropWhile_append_of_pos hall, List.dropWhile_cons_of_neg (by simp [hc]),
    List.takeWhile_append_of_pos hall, List.takeWhile_cons_of_neg (by simp [hc]), List.append_nil]

/-- There is one field more than there are separators, up to the most there may be. -/
theorem length_splitn (p : Char → Bool) (n : ℕ) (s : Text) :
    (splitn p n s).length = min n (s.countP p + 1) := by
  fun_induction splitn p n s with
  | case1 => simp
  | case2 => simp
  | case3 n s hd =>
    have hcount : s.countP p = 0 := by
      rw [List.countP_eq_zero]
      intro c hc
      simpa using List.dropWhile_eq_nil_iff.mp hd c hc
    rw [List.length_singleton, hcount]
    omega
  | case4 n s c rest hd ih =>
    have hsplit : s = s.takeWhile (! p ·) ++ c :: rest := by
      rw [← hd, List.takeWhile_append_dropWhile]
    have hc : p c = true := by
      simpa using head_dropWhile hd
    have hfield : (s.takeWhile (! p ·)).countP p = 0 := by
      rw [List.countP_eq_zero]
      intro c hc
      simpa using List.mem_takeWhile_imp hc
    have hcount : s.countP p = rest.countP p + 1 := by
      rw [hsplit, List.countP_append, List.countP_cons_of_pos hc, hfield, Nat.zero_add]
    rw [List.length_cons, ih, hcount]
    omega

/-- The first field is what is in front of the first separator. -/
theorem head?_splitn (p : Char → Bool) (n : ℕ) (s : Text) :
    (splitn p (n + 2) s).head? = some (s.takeWhile (! p ·)) := by
  rw [splitn]
  split
  · rename_i hd
    rw [List.head?_cons, List.takeWhile_eq_self_iff.mpr (List.dropWhile_eq_nil_iff.mp hd)]
  · rfl

theorem length_splitOnP (p : Char → Bool) (s : Text) :
    (s.splitOnP p).length = s.countP p + 1 := by
  induction s with
  | nil => rfl
  | cons c s ih =>
    rw [List.splitOnP_cons_eq_if_modifyHead, List.countP_cons]
    split
    · rw [List.length_cons, ih]
    · rw [List.length_modifyHead, ih, Nat.add_zero]

theorem length_splitWhitespace_le (s : Text) :
    (splitWhitespace s).length ≤ s.countP isWhitespace + 1 := by
  rw [← length_splitOnP]
  exact List.length_filter_le _ _

theorem dropPrefix?_self (pre rest : Text) : (pre ++ rest).dropPrefix? pre = some rest :=
  List.dropPrefix?_append_of_beq rest (beq_self_eq_true pre)

theorem dropPrefix?_none {pre : Text} (h : ¬pre <+: s) : s.dropPrefix? pre = none := by
  cases hd : s.dropPrefix? pre with
  | none => rfl
  | some rest =>
    obtain ⟨pre', rfl, hpre⟩ := List.dropPrefix?_eq_some_iff.mp hd
    rw [eq_of_beq hpre] at h
    exact absurd (List.prefix_append pre rest) h

theorem dropPrefixes_suffix (pat : Text) (n : ℕ) (s : Text) : dropPrefixes pat n s <:+ s := by
  fun_induction dropPrefixes pat n s with
  | case1 => exact List.suffix_rfl
  | case2 n s rest hd ih =>
    obtain ⟨pre, rfl, -⟩ := List.dropPrefix?_eq_some_iff.mp hd
    exact ih.trans (List.suffix_append pre rest)
  | case3 => exact List.suffix_rfl

theorem mem_of_mem_trimStartMatches {pat : Text} (h : c ∈ trimStartMatches pat s) : c ∈ s :=
  (dropPrefixes_suffix pat s.length s).subset h

theorem mem_of_mem_trimEndMatches {pat : Text} (h : c ∈ trimEndMatches pat s) : c ∈ s := by
  have hreverse := mem_of_mem_trimStartMatches (List.mem_reverse.mp h)
  exact List.mem_reverse.mp hreverse

theorem mem_of_mem_trimMatches (h : c ∈ trimMatches p s) : c ∈ s :=
  (List.dropWhile_sublist _).mem ((List.rdropWhile_prefix p _).sublist.mem h)

theorem dropPrefixes_copies {pat : Text} (h : ¬pat <+: s) {k : ℕ} (hk : k ≤ n) :
    dropPrefixes pat n ((List.replicate k pat).flatten ++ s) = s := by
  induction n generalizing k with
  | zero =>
    obtain rfl : k = 0 := Nat.le_zero.mp hk
    rfl
  | succ n ih =>
    cases k with
    | zero => rw [List.replicate_zero, List.flatten_nil, List.nil_append, dropPrefixes,
        dropPrefix?_none h]
    | succ k =>
      rw [List.replicate_succ, List.flatten_cons, List.append_assoc, dropPrefixes,
        dropPrefix?_self]
      exact ih (Nat.le_of_succ_le_succ hk)

/-- All copies of a text at the start are cut off. -/
theorem trimStartMatches_copies {pat : Text} (hne : pat ≠ []) (h : ¬pat <+: s) (k : ℕ) :
    trimStartMatches pat ((List.replicate k pat).flatten ++ s) = s := by
  have hlength : k ≤ ((List.replicate k pat).flatten ++ s).length := by
    have hcopies := Nat.le_mul_of_pos_right k (List.length_pos_iff.mpr hne)
    simp only [List.length_append, List.length_flatten, List.map_replicate, List.sum_replicate_nat]
    omega
  exact dropPrefixes_copies h hlength

theorem trimStartMatches_one {pat : Text} (hne : pat ≠ []) (h : ¬pat <+: s) :
    trimStartMatches pat (pat ++ s) = s := by
  simpa using trimStartMatches_copies hne h 1

/-- What is cut off are copies, and no copy is left. -/
theorem exists_copies {pat : Text} (hne : pat ≠ []) (s : Text) :
    ∃ k, s = (List.replicate k pat).flatten ++ trimStartMatches pat s ∧
      ¬pat <+: trimStartMatches pat s := by
  have hsplit : ∃ k rest, s = (List.replicate k pat).flatten ++ rest ∧ ¬pat <+: rest := by
    induction hn : s.length using Nat.strong_induction_on generalizing s with
    | _ n ih =>
      subst hn
      by_cases hpre : pat <+: s
      · obtain ⟨t, rfl⟩ := hpre
        have hshorter : t.length < (pat ++ t).length := by
          have hpos := List.length_pos_iff.mpr hne
          rw [List.length_append]
          omega
        obtain ⟨k, rest, ht, hrest⟩ := ih t.length hshorter t rfl
        refine ⟨k + 1, rest, ?_, hrest⟩
        rw [List.replicate_succ, List.flatten_cons, List.append_assoc, ← ht]
      · exact ⟨0, s, rfl, hpre⟩
  obtain ⟨k, rest, hs, hrest⟩ := hsplit
  have htrim : trimStartMatches pat s = rest := by
    rw [hs]
    exact trimStartMatches_copies hne hrest k
  rw [htrim]
  exact ⟨k, hs, hrest⟩

theorem trimEndMatches_one {pat : Text} (hne : pat ≠ []) (h : ¬pat <:+ s) :
    trimEndMatches pat (s ++ pat) = s := by
  have hreverse : ¬pat.reverse <+: s.reverse := fun hp => h (List.reverse_prefix.mp hp)
  rw [trimEndMatches, List.reverse_append,
    trimStartMatches_one (by simpa using hne) hreverse, List.reverse_reverse]

/-- Brackets around a text that has none. -/
theorem trimMatches_around {d : Char} (hc : p c = true) (hd : p d = true)
    (h : ∀ c ∈ s, p c = false) : trimMatches p (c :: (s ++ [d])) = s := by
  have hstart : (s ++ [d]).dropWhile p = if s = [] then [] else s ++ [d] := by
    cases s with
    | nil => simp [hd]
    | cons e s => simp [h e List.mem_cons_self]
  have hstop : s.rdropWhile p = s := by
    refine List.rdropWhile_eq_self_iff.mpr fun hne => ?_
    simp [h _ (List.getLast_mem hne)]
  rw [trimMatches, List.dropWhile_cons_of_pos hc, hstart]
  split
  · rename_i hs
    rw [hs]
    rfl
  · rw [List.rdropWhile_concat_pos p s d hd, hstop]

/-- `split_once` cuts at a place that no other one comes before. -/
theorem dropInfix?_first (h : s = a ++ sep ++ b)
    (hfirst : ∀ a' b', s = a' ++ sep ++ b' → a.length ≤ a'.length) :
    s.dropInfix? sep = some (a, b) := by
  rw [List.dropInfix?_eq_some_iff]
  refine ⟨⟨sep, h, beq_self_eq_true sep⟩, ?_⟩
  rintro a' sep' b' h' hsep
  rw [eq_of_beq hsep] at h'
  exact hfirst a' b' h'

theorem exists_dropInfix? (h : sep <:+: s) :
    ∃ a b, s.dropInfix? sep = some (a, b) ∧ s = a ++ sep ++ b ∧
      ∀ a' b', s = a' ++ sep ++ b' → a.length ≤ a'.length := by
  classical
  have hex : ∃ n, ∃ a b, s = a ++ sep ++ b ∧ a.length = n := by
    obtain ⟨a, b, hs⟩ := h
    exact ⟨a.length, a, b, hs.symm, rfl⟩
  obtain ⟨a, b, hs, hlen⟩ := Nat.find_spec hex
  have hfirst : ∀ a' b', s = a' ++ sep ++ b' → a.length ≤ a'.length := fun a' b' h' =>
    hlen.le.trans (Nat.find_min' hex ⟨a', b', h', rfl⟩)
  exact ⟨a, b, dropInfix?_first hs hfirst, hs, hfirst⟩

theorem dropInfix?_none (h : ¬sep <:+: s) : s.dropInfix? sep = none := by
  cases hd : s.dropInfix? sep with
  | none => rfl
  | some r =>
    obtain ⟨a, b⟩ := r
    obtain ⟨⟨sep', rfl, hsep⟩, -⟩ := List.dropInfix?_eq_some_iff.mp hd
    rw [eq_of_beq hsep] at h
    exact absurd ⟨a, b, rfl⟩ h

/-- Two characters that follow each other are looked for behind each place of the first one. -/
theorem infix_pair {d e : Char} (ha : d ∉ a) (hb : b.head? ≠ some e)
    (h : [d, e] <:+: a ++ d :: b) : [d, e] <:+: b := by
  induction a with
  | nil =>
    obtain h | h := List.infix_cons_iff.mp h
    · obtain ⟨t, rfl⟩ := (List.cons_prefix_cons.mp h).2
      exact absurd rfl hb
    · exact h
  | cons x a ih =>
    obtain h | h := List.infix_cons_iff.mp h
    · exact absurd ((List.cons_prefix_cons.mp h).1 ▸ List.mem_cons_self) ha
    · exact ih (fun hd => ha (List.mem_cons_of_mem x hd)) h

theorem containsText_iff : containsText s sep = true ↔ sep <:+: s := by
  constructor
  · intro h
    by_contra hnot
    rw [containsText, dropInfix?_none hnot] at h
    cases h
  · intro h
    obtain ⟨a, b, hcut, -⟩ := exists_dropInfix? h
    rw [containsText, hcut]
    rfl

theorem splitFirst_self (h : ¬sep <:+: s) : splitFirst sep s = s := by
  rw [splitFirst, dropInfix?_none h]

/-- What is in front of the first separator, where there is one. -/
theorem splitFirst_spec (h : sep <:+: s) :
    ∃ b, s = splitFirst sep s ++ sep ++ b ∧
      ∀ a' b', s = a' ++ sep ++ b' → (splitFirst sep s).length ≤ a'.length := by
  obtain ⟨a, b, hcut, hs, hfirst⟩ := exists_dropInfix? h
  have ha : splitFirst sep s = a := by rw [splitFirst, hcut]
  exact ⟨b, ha.symm ▸ hs, ha.symm ▸ hfirst⟩

theorem prefix_splitFirst (sep s : Text) : splitFirst sep s <+: s := by
  by_cases hsep : sep <:+: s
  · obtain ⟨b, hs, -⟩ := splitFirst_spec hsep
    exact ⟨sep ++ b, by rw [← List.append_assoc, ← hs]⟩
  · exact ⟨[], by rw [List.append_nil, splitFirst_self hsep]⟩

/-- A separator without a newline that stands in a text of lines stands in one of them. -/
theorem separator_in_line (hn : '\n' ∉ sep) {rest : Text}
    (h : a ++ sep ++ b = ls.flatMap (· ++ ['\n']) ++ rest)
    (hlt : a.length < (ls.flatMap (· ++ ['\n'])).length) :
    ∃ before l after pre post, ls = before ++ l :: after ∧ l = pre ++ sep ++ post ∧
      a = before.flatMap (· ++ ['\n']) ++ pre ∧
      b = post ++ '\n' :: (after.flatMap (· ++ ['\n']) ++ rest) := by
  induction ls generalizing a with
  | nil => simp at hlt
  | cons l ls ih =>
    have h' : a ++ (sep ++ b) = l ++ '\n' :: (ls.flatMap (· ++ ['\n']) ++ rest) := by
      simpa using h
    obtain ⟨t, hl, ht⟩ | ⟨t, ha, ht⟩ := List.append_eq_append_iff.mp h'
    · -- the separator starts in the first line, so it ends there
      obtain ⟨u, hu, hb⟩ | ⟨v, hv, hb⟩ := List.append_eq_append_iff.mp ht.symm
      · cases u with
        | nil =>
          refine ⟨[], l, ls, a, [], rfl, ?_, by simp, by simpa using hb.symm⟩
          rw [hl, hu, List.append_nil, List.append_nil]
        | cons d u =>
          rw [List.cons_append, List.cons.injEq] at hb
          have hmem : '\n' ∈ sep := by rw [hu, hb.1]; simp
          exact absurd hmem hn
      · exact ⟨[], l, ls, a, v, rfl, by rw [hl, hv, List.append_assoc], by simp, hb⟩
    · cases t with
      | nil =>
        cases sep with
        | nil => exact ⟨[], l, ls, l, [], rfl, by simp, by simpa using ha, by simpa using ht.symm⟩
        | cons d sep =>
          rw [List.nil_append, List.cons_append, List.cons.injEq] at ht
          exact absurd (ht.1 ▸ List.mem_cons_self) hn
      | cons d t =>
        rw [List.cons_append, List.cons.injEq, ← List.append_assoc] at ht
        obtain ⟨rfl, ht⟩ := ht
        have hlt' : t.length < (ls.flatMap (· ++ ['\n'])).length := by
          rw [ha, List.flatMap_cons, List.length_append, List.length_append,
            List.length_append] at hlt
          simp only [List.length_cons, List.length_nil] at hlt
          omega
        obtain ⟨before, m, after, pre, post, hls, hm, ht, hb⟩ := ih ht.symm hlt'
        exact ⟨l :: before, m, after, pre, post, by rw [hls]; rfl, hm, by simp [ha, ht], hb⟩

theorem infix_lines_iff (hn : '\n' ∉ sep) (hne : sep ≠ []) :
    sep <:+: ls.flatMap (· ++ ['\n']) ↔ ∃ l ∈ ls, sep <:+: l := by
  constructor
  · rintro ⟨a, b, h⟩
    have hlt : a.length < (ls.flatMap (· ++ ['\n'])).length := by
      have hpos := List.length_pos_iff.mpr hne
      rw [← h, List.length_append, List.length_append]
      omega
    obtain ⟨before, l, after, pre, post, hls, hl, -, -⟩ :=
      separator_in_line hn (h.trans (List.append_nil _).symm) hlt
    exact ⟨l, by simp [hls], pre, post, hl.symm⟩
  · rintro ⟨l, hl, h⟩
    obtain ⟨before, after, rfl⟩ := List.append_of_mem hl
    exact h.trans ⟨before.flatMap (· ++ ['\n']), '\n' :: after.flatMap (· ++ ['\n']), by simp⟩

/-- A separator behind lines that do not have it is found there. -/
theorem dropInfix?_after_lines (hn : '\n' ∉ sep) (h : ∀ l ∈ ls, ¬sep <:+: l) (rest : Text) :
    (ls.flatMap (· ++ ['\n']) ++ sep ++ rest).dropInfix? sep =
      some (ls.flatMap (· ++ ['\n']), rest) := by
  refine dropInfix?_first rfl fun a' b' h' => ?_
  by_contra hlt
  rw [List.append_assoc] at h'
  obtain ⟨before, l, after, pre, post, hls, hl, -, -⟩ :=
    separator_in_line hn h'.symm (Nat.lt_of_not_le hlt)
  exact h l (by simp [hls]) ⟨pre, post, hl.symm⟩

/-- A separator in a line is found in a line. -/
theorem dropInfix?_in_line (hn : '\n' ∉ sep) {l : Text} (hl : l ∈ ls) (h : sep <:+: l)
    (rest : Text) :
    ∃ before m after pre post, ls = before ++ m :: after ∧ m = pre ++ sep ++ post ∧
      (ls.flatMap (· ++ ['\n']) ++ rest).dropInfix? sep =
        some (before.flatMap (· ++ ['\n']) ++ pre,
          post ++ '\n' :: (after.flatMap (· ++ ['\n']) ++ rest)) := by
  obtain ⟨u, v, huv⟩ := h
  obtain ⟨earlier, later, hls⟩ := List.append_of_mem hl
  have hwhere : ls.flatMap (· ++ ['\n']) ++ rest = (earlier.flatMap (· ++ ['\n']) ++ u) ++ sep ++
      (v ++ '\n' :: (later.flatMap (· ++ ['\n']) ++ rest)) := by
    simp [hls, ← huv]
  obtain ⟨a, b, hcut, hab, hfirst⟩ := exists_dropInfix? ⟨_, _, hwhere.symm⟩
  have hlt : a.length < (ls.flatMap (· ++ ['\n'])).length := by
    have hle := hfirst _ _ hwhere
    simp only [hls, ← huv, List.flatMap_append, List.flatMap_cons, List.length_append,
      List.length_cons] at hle ⊢
    omega
  obtain ⟨before, m, after, pre, post, hls', hm, rfl, rfl⟩ := separator_in_line hn hab.symm hlt
  exact ⟨before, m, after, pre, post, hls', hm, hcut⟩

def firstLine (s : Text) : Text := (lines s).head?.getD []

theorem prefix_firstLine (s : Text) : firstLine s <+: s.takeWhile (· != '\n') := by
  induction s with
  | nil => exact List.prefix_rfl
  | cons c cs ih =>
    rw [firstLine, lines]
    split
    · exact List.nil_prefix
    · rename_i hc
      split
      · -- the line is empty, for a newline follows
        rename_i hcr
        obtain ⟨ds, rfl⟩ := List.head?_eq_some_iff.mp hcr.2
        simp [lines]
      · rw [List.takeWhile_cons_of_pos (by simpa using hc)]
        rw [firstLine] at ih
        cases hl : lines cs with
        | nil => simp
        | cons l ls =>
          rw [hl] at ih
          simpa using ih

theorem firstLine_one (hn : '\n' ∉ s) : firstLine s = s := by
  cases s with
  | nil => rfl
  | cons c cs => rw [firstLine, lines_last hn (by simp)]; rfl

theorem trim_blanks_append (h : ∀ c ∈ a, isWhitespace c = true) (s : Text) :
    trim (a ++ s) = trim s := by
  rw [trim, trim, List.dropWhile_append_of_pos h]

/-- The first line that is left of a line in front of others. -/
theorem firstLine_trim_cons (hc : isWhitespace c = false) (hn : '\n' ∉ c :: s) (rest : Text) :
    firstLine (trim (c :: s ++ '\n' :: rest)) <+: c :: s := by
  obtain ⟨r, hr, hpre⟩ := trim_cons hc (s ++ '\n' :: rest)
  rw [List.cons_append, hr]
  refine (prefix_firstLine _).trans ?_
  obtain hshort | ⟨t, rfl, ht⟩ := prefix_append hpre
  · exact (List.takeWhile_prefix _).trans (List.cons_prefix_cons.mpr ⟨rfl, hshort⟩)
  · have hall : ∀ d ∈ c :: s, (d != '\n') = true := fun d hd =>
      bne_iff_ne.mpr fun h => hn (h ▸ hd)
    have htail : t.takeWhile (· != '\n') = [] := by
      cases t with
      | nil => rfl
      | cons d t =>
        rw [(List.cons_prefix_cons.mp ht).1]
        rfl
    exact ⟨[], by
      rw [← List.cons_append, List.takeWhile_append_of_pos hall, htail, List.append_nil,
        List.append_nil]⟩

/-- The first line of what is left of lines, of which the last one is not blank, is a part of a
line. -/
theorem firstLine_trim_lines {m : Text} (hls : ∀ l ∈ ls, '\n' ∉ l) (hc : isWhitespace c = false)
    (hm : '\n' ∉ c :: m) (rest : Text) :
    ∃ l ∈ ls ++ [c :: m],
      firstLine (trim (ls.flatMap (· ++ ['\n']) ++ (c :: m ++ '\n' :: rest))) <:+: l := by
  induction ls with
  | nil => exact ⟨c :: m, by simp, (firstLine_trim_cons hc hm rest).isInfix⟩
  | cons l ls ih =>
    have hl := hls l List.mem_cons_self
    obtain ⟨m', hm', hpart⟩ := ih fun l hl => hls l (List.mem_cons_of_mem _ hl)
    rw [List.flatMap_cons, List.append_assoc, List.append_assoc]
    by_cases hblank : ∀ d ∈ l, isWhitespace d = true
    · -- a blank line goes with its newline
      have hend : ∀ d ∈ l ++ ['\n'], isWhitespace d = true := by
        intro d hd
        obtain hd | hd := List.mem_append.mp hd
        · exact hblank d hd
        · rw [List.mem_singleton.mp hd]
          rfl
      rw [← List.append_assoc, trim_blanks_append hend]
      exact ⟨m', List.mem_cons_of_mem _ hm', hpart⟩
    · -- the line stays from its first character on that is not blank
      cases hd : l.dropWhile isWhitespace with
      | nil => exact absurd (List.dropWhile_eq_nil_iff.mp hd) hblank
      | cons d l' =>
        have hsolid : isWhitespace d = false := head_dropWhile hd
        obtain ⟨blanks, hblanks, rfl⟩ : ∃ blanks : Text,
            (∀ b ∈ blanks, isWhitespace b = true) ∧ l = blanks ++ d :: l' :=
          ⟨l.takeWhile isWhitespace, fun b hb => List.mem_takeWhile_imp hb,
            by rw [← hd, List.takeWhile_append_dropWhile]⟩
        have hn : '\n' ∉ d :: l' := fun hmem => hl (List.mem_append_right blanks hmem)
        refine ⟨_, List.mem_cons_self, ?_⟩
        rw [List.append_assoc, trim_blanks_append hblanks]
        exact (firstLine_trim_cons hsolid hn _).isInfix.trans (List.suffix_append _ _).isInfix

end SshCommander.RustText
