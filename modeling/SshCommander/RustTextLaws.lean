import Mathlib.Data.Char
import SshCommander.RustText

/-!
# Laws of the string operations

What `lines`, `trim` and `splitn` read of a text written line by line, and the order a text is
sorted in.
-/

namespace SshCommander.RustText

/-- A text that `trim` leaves alone, with something in it. -/
structure Trimmed (s : Text) : Prop where
  nonempty : s ≠ []
  start : s.dropWhile isWhitespace = s
  stop : s.rdropWhile isWhitespace = s

structure Word (s : Text) : Prop where
  nonempty : s ≠ []
  solid : ∀ c ∈ s, isWhitespace c = false

theorem word_of_all {s : Text} (hne : s ≠ []) (h : s.all (! isWhitespace ·) = true) : Word s := by
  refine ⟨hne, ?_⟩
  intro c hc
  simpa using List.all_eq_true.mp h c hc

theorem isWhitespace_digit {c : Char} (h : c.isDigit = true) : isWhitespace c = false := by
  simp only [Char.isDigit, Bool.and_eq_true, decide_eq_true_eq, ge_iff_le,
    UInt32.le_iff_toNat_le] at h
  have hlow : 48 ≤ c.toNat := h.1
  have hhigh : c.toNat ≤ 57 := h.2
  simp only [isWhitespace, Bool.or_eq_false_iff, Bool.and_eq_false_iff, decide_eq_false_iff_not,
    beq_eq_false_iff_ne]
  omega

theorem Word.append {a b : Text} (ha : ∀ c ∈ a, isWhitespace c = false) (hb : Word b) :
    Word (a ++ b) := by
  refine ⟨by simp [hb.nonempty], ?_⟩
  intro c hc
  obtain hc | hc := List.mem_append.mp hc
  · exact ha c hc
  · exact hb.solid c hc

theorem dropWhile_dropWhile (p : Char → Bool) (s : Text) :
    (s.dropWhile p).dropWhile p = s.dropWhile p := by
  induction s with
  | nil => rfl
  | cons c cs ih =>
    cases hc : p c with
    | true => rw [List.dropWhile_cons_of_pos hc, ih]
    | false => simp [hc]

theorem dropWhile_of_head {p : Char → Bool} {s : Text} (h : ∀ c ∈ s.head?, p c = false) :
    s.dropWhile p = s := by
  cases s with
  | nil => rfl
  | cons c cs => simp [h c (by simp)]

theorem head_of_dropWhile {p : Char → Bool} {s : Text} (h : s.dropWhile p = s) :
    ∀ c ∈ s.head?, p c = false := by
  cases s with
  | nil => simp
  | cons c cs =>
    intro c' hc'
    obtain rfl : c = c' := by simpa using hc'
    cases hc : p c with
    | false => rfl
    | true =>
      rw [List.dropWhile_cons_of_pos hc] at h
      have := (List.dropWhile_suffix p (l := cs)).length_le
      rw [h, List.length_cons] at this
      omega

theorem head_dropWhile {p : Char → Bool} {s rest : Text} {c : Char}
    (h : s.dropWhile p = c :: rest) : p c = false :=
  head_of_dropWhile (dropWhile_dropWhile p s) c (by rw [h]; rfl)

theorem Trimmed.trim {s : Text} (h : Trimmed s) : trim s = s := by
  rw [RustText.trim, h.start, h.stop]

theorem Trimmed.head {s : Text} (h : Trimmed s) : ∀ c ∈ s.head?, isWhitespace c = false :=
  head_of_dropWhile h.start

theorem Trimmed.last {s : Text} (h : Trimmed s) : ¬isWhitespace (s.getLast h.nonempty) = true :=
  List.rdropWhile_eq_self_iff.mp h.stop h.nonempty

theorem trimmed_trim {s : Text} (h : trim s ≠ []) : Trimmed (trim s) := by
  refine ⟨h, ?_, List.rdropWhile_idempotent _ _⟩
  apply dropWhile_of_head
  intro c hc
  have hpre := List.rdropWhile_prefix isWhitespace (s.dropWhile isWhitespace)
  apply head_of_dropWhile (dropWhile_dropWhile isWhitespace s)
  obtain ⟨rest, hrest⟩ := hpre
  rw [← hrest, List.head?_append]
  have hc : c ∈ (trim s).head? := hc
  rw [RustText.trim] at hc
  rw [Option.mem_def.mp hc]
  rfl

/-- A text that starts solid keeps its start. -/
theorem trim_cons {c : Char} (hc : isWhitespace c = false) (cs : Text) :
    ∃ rest, trim (c :: cs) = c :: rest ∧ rest <+: cs := by
  have hstart : (c :: cs).dropWhile isWhitespace = c :: cs := by
    rw [List.dropWhile_cons_of_neg (by simp [hc])]
  obtain ⟨blanks, hblanks⟩ := List.rdropWhile_prefix isWhitespace (c :: cs)
  cases hr : (c :: cs).rdropWhile isWhitespace with
  | nil =>
    have := List.rdropWhile_eq_nil_iff.mp hr c (by simp)
    rw [hc] at this
    cases this
  | cons d rest =>
    rw [hr, List.cons_append, List.cons.injEq] at hblanks
    refine ⟨rest, ?_, blanks, hblanks.2⟩
    rw [trim, hstart, hr, hblanks.1]

/-- Nothing is left exactly where everything is blank. -/
theorem trim_eq_nil {s : Text} : trim s = [] ↔ ∀ c ∈ s, isWhitespace c = true := by
  constructor
  · intro h c hc
    rw [trim, List.rdropWhile_eq_nil_iff] at h
    rw [← List.takeWhile_append_dropWhile (p := isWhitespace) (l := s), List.mem_append] at hc
    rcases hc with hc | hc
    · exact List.mem_takeWhile_imp hc
    · exact h c hc
  · intro h
    rw [trim, List.dropWhile_eq_nil_iff.mpr h]
    rfl

theorem mem_of_mem_trim {s : Text} {c : Char} (h : c ∈ trim s) : c ∈ s :=
  (List.dropWhile_sublist _).mem ((List.rdropWhile_prefix isWhitespace _).sublist.mem h)

theorem Word.trimmed {s : Text} (h : Word s) : Trimmed s := by
  refine ⟨h.nonempty, ?_, ?_⟩
  · apply dropWhile_of_head
    intro c hc
    exact h.solid c (List.mem_of_mem_head? hc)
  · apply List.rdropWhile_eq_self_iff.mpr
    intro hne
    rw [h.solid _ (List.getLast_mem hne)]
    simp

/-- What starts solid and ends solid is trimmed, whatever is between. -/
theorem trimmed_append {a b : Text} (m : Text) (ha : Trimmed a) (hb : Trimmed b) :
    Trimmed (a ++ m ++ b) := by
  refine ⟨by simp [ha.nonempty], ?_, ?_⟩
  · apply dropWhile_of_head
    intro c hc
    apply ha.head
    rw [List.append_assoc, List.head?_append] at hc
    cases h : a.head? with
    | none => exact absurd (List.head?_eq_none_iff.mp h) ha.nonempty
    | some a' => simpa [h] using hc
  · apply List.rdropWhile_eq_self_iff.mpr
    intro hne
    rw [List.getLast_append_of_ne_nil _ hb.nonempty]
    exact hb.last

/-- A text that starts solid is trimmed at its end only. -/
theorem Trimmed.trim_append {a : Text} (ha : Trimmed a) (t : Text) :
    RustText.trim (a ++ t) = (a ++ t).rdropWhile isWhitespace := by
  rw [RustText.trim, dropWhile_of_head]
  intro c hc
  apply ha.head
  cases h : a.head? with
  | none => exact absurd (List.head?_eq_none_iff.mp h) ha.nonempty
  | some a' => simpa [List.head?_append, h] using hc

/-- Blanks at the end are trimmed away. -/
theorem trim_append_blank {a ws : Text} (ha : Trimmed a) (hws : ∀ c ∈ ws, isWhitespace c = true) :
    trim (a ++ ws) = a := by
  induction ws using List.reverseRecOn with
  | nil => rw [List.append_nil, ha.trim]
  | append_singleton ws w ih =>
    have hrest : trim (a ++ ws) = a := ih fun c hc => hws c (by simp [hc])
    rw [ha.trim_append, ← List.append_assoc, List.rdropWhile_concat_pos _ _ _ (hws w (by simp)),
      ← ha.trim_append, hrest]

/-- A trimmed text in front of another one stays. -/
theorem Trimmed.prefix_trim {a : Text} (ha : Trimmed a) (t : Text) :
    a <+: RustText.trim (a ++ t) := by
  induction t using List.reverseRecOn with
  | nil => exact ⟨[], by rw [List.append_nil, ha.trim]⟩
  | append_singleton t c ih =>
    rw [ha.trim_append, ← List.append_assoc]
    cases hc : isWhitespace c with
    | true =>
      rw [List.rdropWhile_concat_pos _ _ _ hc, ← ha.trim_append]
      exact ih
    | false =>
      rw [List.rdropWhile_concat_neg _ _ _ (by simp [hc]), List.append_assoc]
      exact List.prefix_append _ _

/-- A beginning of two texts ends in the first, or after it. -/
theorem prefix_append {q a b : Text} (h : q <+: a ++ b) : q <+: a ∨ ∃ t, q = a ++ t ∧ t <+: b := by
  obtain ⟨s, hs⟩ := h
  rcases List.append_eq_append_iff.mp hs with ⟨t, ha, _⟩ | ⟨t, hq, hb⟩
  · exact Or.inl ⟨t, ha.symm⟩
  · exact Or.inr ⟨t, hq, s, hb.symm⟩

theorem splitAtWhitespace_word {w rest : Text} {c : Char} (hw : Word w)
    (hc : isWhitespace c = true) : splitAtWhitespace (w ++ c :: rest) = (w, some rest) := by
  have hall : ∀ x ∈ w, (! isWhitespace x) = true := by
    intro x hx
    rw [hw.solid x hx]
    rfl
  rw [splitAtWhitespace, List.dropWhile_append_of_pos hall, List.dropWhile_cons_of_neg (by simp [hc]),
    List.takeWhile_append_of_pos hall, List.takeWhile_cons_of_neg (by simp [hc]), List.append_nil]

theorem splitAtWhitespace_solid {w : Text} (hw : ∀ c ∈ w, isWhitespace c = false) :
    splitAtWhitespace w = (w, none) := by
  rw [splitAtWhitespace, List.dropWhile_eq_nil_iff.mpr]
  intro c hc
  rw [hw c hc]
  rfl

/-- A split cuts at the first blank. -/
theorem splitAtWhitespace_some {s w rest : Text} (h : splitAtWhitespace s = (w, some rest)) :
    ∃ c, isWhitespace c = true ∧ s = w ++ c :: rest ∧ ∀ x ∈ w, isWhitespace x = false := by
  rw [splitAtWhitespace] at h
  cases hd : s.dropWhile (! isWhitespace ·) with
  | nil => simp [hd] at h
  | cons c cs =>
    simp only [hd, Prod.mk.injEq, Option.some.injEq] at h
    obtain ⟨rfl, rfl⟩ := h
    refine ⟨c, ?_, ?_, ?_⟩
    · simpa using head_dropWhile hd
    · rw [← hd, List.takeWhile_append_dropWhile]
    · intro x hx
      simpa using List.mem_takeWhile_imp hx

/-- A line that `lines` gives back: no newline in it, no carriage return at its end. -/
structure Line (l : Text) : Prop where
  one : '\n' ∉ l
  plain : l.getLast? ≠ some '\r'

theorem lines_line {l : Text} (h : Line l) (rest : Text) :
    lines (l ++ '\n' :: rest) = l :: lines rest := by
  induction l with
  | nil => simp [lines]
  | cons c cs ih =>
    have hc : c ≠ '\n' := fun e => h.one (by simp [e])
    have hcr : ¬(c = '\r' ∧ (cs ++ '\n' :: rest).head? = some '\n') := by
      rintro ⟨rfl, hhead⟩
      cases cs with
      | nil => exact h.plain rfl
      | cons d ds =>
        apply h.one
        simp_all
    have hcs : Line cs := by
      refine ⟨fun hm => h.one (by simp [hm]), fun hl => h.plain ?_⟩
      rw [List.getLast?_cons, hl]
      rfl
    rw [List.cons_append, lines, if_neg hc, if_neg hcr, ih hcs]

theorem lines_last {l : Text} (h : '\n' ∉ l) (hne : l ≠ []) : lines l = [l] := by
  induction l with
  | nil => exact absurd rfl hne
  | cons c cs ih =>
    have hc : c ≠ '\n' := fun e => h (by simp [e])
    have hcs : '\n' ∉ cs := fun hm => h (by simp [hm])
    have hcr : ¬(c = '\r' ∧ cs.head? = some '\n') := by
      rintro ⟨-, hhead⟩
      exact hcs (List.mem_of_mem_head? hhead)
    rw [lines, if_neg hc, if_neg hcr]
    cases cs with
    | nil => rfl
    | cons d ds => rw [ih hcs (by simp)]

theorem newline_notMem_lines {s l : Text} (h : l ∈ lines s) : '\n' ∉ l := by
  induction s generalizing l with
  | nil => simp [lines] at h
  | cons c cs ih =>
    rw [lines] at h
    split at h
    · rcases List.mem_cons.mp h with rfl | h
      · simp
      · exact ih h
    · rename_i hc
      split at h
      · exact ih h
      · cases hl : lines cs with
        | nil =>
          rw [hl] at h
          obtain rfl : l = [c] := by simpa using h
          simpa using fun e => hc e.symm
        | cons l₀ ls =>
          rw [hl] at h
          rcases List.mem_cons.mp h with rfl | h
          · intro hm
            rcases List.mem_cons.mp hm with e | hm
            · exact hc e.symm
            · exact ih (by simp [hl]) hm
          · exact ih (by simp [hl, h])

/-- The lines of a text written line by line. -/
theorem lines_flatMap {α : Type} (f : α → Text) (xs : List α) (h : ∀ x ∈ xs, Line (f x))
    (rest : Text) :
    lines (xs.flatMap (fun x => f x ++ ['\n']) ++ rest) = xs.map f ++ lines rest := by
  induction xs with
  | nil => rfl
  | cons x xs ih =>
    have hx := lines_line (h x (by simp)) (xs.flatMap (fun x => f x ++ ['\n']) ++ rest)
    rw [List.flatMap_cons, List.append_assoc, List.append_assoc]
    simpa [ih fun y hy => h y (by simp [hy])] using hx

theorem textLe_total (a b : Text) : (textLe a b || textLe b a) = true := by
  induction a generalizing b with
  | nil => simp [textLe]
  | cons x xs ih =>
    cases b with
    | nil => simp [textLe]
    | cons y ys =>
      rcases lt_trichotomy x y with h | rfl | h
      · simp [textLe, h]
      · simpa [textLe] using ih ys
      · simp [textLe, h]

theorem textLe_trans (a b c : Text) (hab : textLe a b = true) (hbc : textLe b c = true) :
    textLe a c = true := by
  induction a generalizing b c with
  | nil => rfl
  | cons x xs ih =>
    cases b with
    | nil => simp [textLe] at hab
    | cons y ys =>
      cases c with
      | nil => simp [textLe] at hbc
      | cons z zs =>
        simp only [textLe, Bool.or_eq_true, decide_eq_true_eq, Bool.and_eq_true, beq_iff_eq]
          at hab hbc ⊢
        rcases hab with hxy | ⟨rfl, hxy⟩
        · rcases hbc with hyz | ⟨rfl, -⟩
          · exact Or.inl (hxy.trans hyz)
          · exact Or.inl hxy
        · rcases hbc with hyz | ⟨rfl, hyz⟩
          · exact Or.inl hyz
          · exact Or.inr ⟨rfl, ih ys zs hxy hyz⟩

theorem textLe_antisymm {a b : Text} (hab : textLe a b = true) (hba : textLe b a = true) :
    a = b := by
  induction a generalizing b with
  | nil =>
    cases b with
    | nil => rfl
    | cons y ys => simp [textLe] at hba
  | cons x xs ih =>
    cases b with
    | nil => simp [textLe] at hab
    | cons y ys =>
      simp only [textLe, Bool.or_eq_true, decide_eq_true_eq, Bool.and_eq_true, beq_iff_eq]
        at hab hba
      rcases hab with hxy | ⟨rfl, hxy⟩
      · rcases hba with hyx | ⟨rfl, -⟩
        · exact absurd (hxy.trans hyx) (lt_irrefl x)
        · exact absurd hxy (lt_irrefl _)
      · rcases hba with hyx | ⟨-, hyx⟩
        · exact absurd hyx (lt_irrefl x)
        · rw [ih hxy hyx]

/-- Sorting forgets the order the texts came in. -/
theorem mergeSort_eq_of_perm {as bs : List Text} (h : as.Perm bs) :
    as.mergeSort textLe = bs.mergeSort textLe := by
  have hperm : (as.mergeSort textLe).Perm (bs.mergeSort textLe) :=
    (List.mergeSort_perm as textLe).trans (h.trans (List.mergeSort_perm bs textLe).symm)
  apply List.Perm.eq_of_pairwise _ (List.pairwise_mergeSort textLe_trans textLe_total as)
    (List.pairwise_mergeSort textLe_trans textLe_total bs) hperm
  intro a b _ _ hab hba
  exact textLe_antisymm hab hba

end SshCommander.RustText
