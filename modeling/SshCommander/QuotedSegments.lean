import SshCommander.SplitterBytes

/-!
# Scripts made of plain and quoted segments

A text of plain runs, semicolons, literals, comments and dollar quotes: the splitter finds the
semicolons that stand alone, and none in a quoted body. At the end of each segment its lexer is
where it would be had it started there.
-/

namespace SshCommander.QuotedSegments
open RustText SqlStatementSplit SplitterLexer SplitterBytes

def AsciiText (s : Text) : Prop := ∀ c ∈ s, Ascii c

instance (s : Text) : Decidable (AsciiText s) := List.decidableBAll _ s

/-- The tag of a dollar quote: a name or nothing. -/
def IsTag (tag : Text) : Prop :=
  (∀ c ∈ tag.head?, isTagStart c = true) ∧ ∀ c ∈ tag, isTagChar c = true

instance (tag : Text) : Decidable (IsTag tag) :=
  @instDecidableAnd _ _ (Option.decidableForallMem tag.head?) (List.decidableBAll _ tag)

def delimiter (tag : Text) : Text := '$' :: (tag ++ ['$'])

/-- The characters that a plain run is without. -/
def marks : List Char := ['\'', '"', '-', '/', '$', ';']

def doubled (quote : Char) (body : Text) : Text :=
  body.flatMap fun c => if c = quote then [quote, quote] else [c]

inductive Segment where
  | plain (run : Text) (ascii : AsciiText run) (unmarked : ∀ c ∈ run, c ∉ marks)
  | semicolon
  | singleQuoted (body : Text) (ascii : AsciiText body)
  | doubleQuoted (body : Text) (ascii : AsciiText body)
  | lineComment (body : Text) (ascii : AsciiText body) (line : '\n' ∉ body)
  | blockComment (body : Text) (ascii : AsciiText body) (closed : ¬['*', '/'] <:+: body)
      (flat : ¬['/', '*'] <:+: body)
  | dollarQuoted (tag body : Text) (isTag : IsTag tag) (ascii : AsciiText body)
      (first : ∀ k < body.length, ¬delimiter tag <+: (body ++ delimiter tag).drop k)

namespace Segment

def text : Segment → Text
  | .plain run _ _ => run
  | .semicolon => [';']
  | .singleQuoted body _ => '\'' :: (doubled '\'' body ++ ['\''])
  | .doubleQuoted body _ => '"' :: (doubled '"' body ++ ['"'])
  | .lineComment body _ _ => '-' :: '-' :: (body ++ ['\n'])
  | .blockComment body _ _ _ => '/' :: '*' :: (body ++ ['*', '/'])
  | .dollarQuoted tag body _ _ _ => delimiter tag ++ (body ++ delimiter tag)

def isSemicolon : Segment → Bool
  | .semicolon => true
  | _ => false

end Segment

/-- The byte offsets of the lone semicolons, from a given offset on. -/
def semicolonOffsets : ℕ → List Segment → List ℕ
  | _, [] => []
  | i, segment :: segments =>
    (if segment.isSemicolon then [i] else []) ++
      semicolonOffsets (i + (utf8 segment.text).length) segments

def script (segments : List Segment) : Text := segments.flatMap Segment.text

def restsOf : List Segment → List Text
  | [] => []
  | segment :: segments =>
    (if segment.isSemicolon then [script segments] else []) ++ restsOf segments

variable {state state' : LexState} {c : Char} {cs rest body : Text} {skip : ℕ}

theorem doubled_self (quote : Char) (body : Text) :
    doubled quote (quote :: body) = quote :: quote :: doubled quote body := by
  simp [doubled]

theorem doubled_ne {quote : Char} (h : c ≠ quote) (body : Text) :
    doubled quote (c :: body) = c :: doubled quote body := by
  simp [doubled, h]

theorem afterSemicolons_step (h : readStep state c cs = (state', skip))
    (hc : ¬(state = .normal ∧ c = ';')) :
    afterSemicolons state (c :: cs) = afterSemicolons state' (cs.drop skip) := by
  rw [afterSemicolons_cons, h, if_neg hc]
  rfl

theorem after_plain (h : ∀ c ∈ body, c ∉ marks) :
    afterSemicolons .normal (body ++ rest) = afterSemicolons .normal rest := by
  induction body with
  | nil => rfl
  | cons c cs ih =>
    have hc := h c List.mem_cons_self
    simp only [marks, List.mem_cons, List.not_mem_nil, or_false, not_or] at hc
    obtain ⟨hsingle, hdouble, hdash, hslash, hdollar, hsemi⟩ := hc
    have hstep : readStep .normal c (cs ++ rest) = (.normal, 0) := by
      simp [readStep, hsingle, hdouble, hdash, hslash, delimiterOf_of_ne hdollar]
    rw [List.cons_append, afterSemicolons_step hstep (fun h => hsemi h.2), List.drop_zero,
      ih fun c hc => h c (List.mem_cons_of_mem _ hc)]

section Quotes

variable {quote : Char} (hopen : ∀ cs, readStep .normal quote cs = (state, 0))
  (hquote : quote ≠ ';') (hstate : state ≠ .normal)
  (hread : ∀ c cs, readStep state c cs =
    if c = quote then if cs.head? = some quote then (state, 1) else (.normal, 0) else (state, 0))
include hopen hquote hstate hread

/-- After the closing quote the lexer is where it would be outside, also when the next character
makes a pair with it. -/
theorem after_closingQuote (rest : Text) :
    afterSemicolons state (quote :: rest) = afterSemicolons .normal rest := by
  by_cases hrest : rest.head? = some quote
  · obtain ⟨t, rfl⟩ := List.head?_eq_some_iff.mp hrest
    have hpair : readStep state quote (quote :: t) = (state, 1) := by
      rw [hread, if_pos rfl, if_pos hrest]
    rw [afterSemicolons_step hpair (fun h => hstate h.1),
      afterSemicolons_step (hopen t) (fun h => hquote h.2)]
    rfl
  · have hclose : readStep state quote rest = (.normal, 0) := by
      rw [hread, if_pos rfl, if_neg hrest]
    rw [afterSemicolons_step hclose (fun h => hstate h.1), List.drop_zero]

theorem after_quoted (body rest : Text) :
    afterSemicolons state (doubled quote body ++ quote :: rest) = afterSemicolons .normal rest := by
  induction body with
  | nil => exact after_closingQuote hopen hquote hstate hread rest
  | cons c cs ih =>
    by_cases hc : c = quote
    · subst hc
      have hpair : readStep state c (c :: (doubled c cs ++ c :: rest)) = (state, 1) := by
        rw [hread, if_pos rfl, List.head?_cons, if_pos rfl]
      rw [doubled_self, List.cons_append, List.cons_append,
        afterSemicolons_step hpair (fun h => hstate h.1)]
      exact ih
    · have hone : readStep state c (doubled quote cs ++ quote :: rest) = (state, 0) := by
        rw [hread, if_neg hc]
      rw [doubled_ne hc, List.cons_append, afterSemicolons_step hone (fun h => hstate h.1)]
      exact ih

end Quotes

theorem after_lineComment (h : '\n' ∉ body) :
    afterSemicolons .lineComment (body ++ '\n' :: rest) = afterSemicolons .normal rest := by
  induction body with
  | nil =>
    have hstep : readStep .lineComment '\n' rest = (.normal, 0) := rfl
    exact afterSemicolons_step hstep (fun h => by cases h.1)
  | cons c cs ih =>
    have hc : c ≠ '\n' := fun e => h (e ▸ List.mem_cons_self)
    have hstep : readStep .lineComment c (cs ++ '\n' :: rest) = (.lineComment, 0) := by
      rw [readStep, if_neg hc]
    rw [List.cons_append, afterSemicolons_step hstep (fun h => by cases h.1), List.drop_zero,
      ih fun hm => h (List.mem_cons_of_mem _ hm)]

theorem after_blockComment (h : ¬['*', '/'] <:+: body) :
    afterSemicolons .blockComment (body ++ '*' :: '/' :: rest) = afterSemicolons .normal rest := by
  induction body with
  | nil =>
    have hstep : readStep .blockComment '*' ('/' :: rest) = (.normal, 1) := rfl
    exact afterSemicolons_step hstep (fun h => by cases h.1)
  | cons c cs ih =>
    have hstep : readStep .blockComment c (cs ++ '*' :: '/' :: rest) = (.blockComment, 0) := by
      rw [readStep, if_neg (not_closes_append h _)]
    rw [List.cons_append, afterSemicolons_step hstep (fun h => by cases h.1), List.drop_zero,
      ih fun hinfix => h (List.infix_cons hinfix)]

/-- The body of a dollar quote ends at the first occurrence of its delimiter. -/
theorem after_dollarQuote {d : Text} (hd : d ≠ [])
    (h : ∀ k < body.length, ¬d <+: (body ++ d).drop k) :
    afterSemicolons (.dollarQuote d) (body ++ (d ++ rest)) = afterSemicolons .normal rest := by
  induction body with
  | nil =>
    cases d with
    | nil => exact absurd rfl hd
    | cons c cs =>
      have hclose : readStep (.dollarQuote (c :: cs)) c (cs ++ rest) = (.normal, cs.length) := by
        have hpre : (c :: cs).isPrefixOf (c :: (cs ++ rest)) = true :=
          List.isPrefixOf_iff_prefix.mpr (List.prefix_append (c :: cs) rest)
        rw [readStep, hpre]
        rfl
      rw [List.nil_append, List.cons_append, afterSemicolons_step hclose (fun h => by cases h.1),
        List.drop_left]
  | cons c cs ih =>
    have hpre : d.isPrefixOf (c :: (cs ++ (d ++ rest))) = false := by
      rw [Bool.eq_false_iff, Ne, List.isPrefixOf_iff_prefix]
      intro hpre
      apply h 0 (by simp)
      refine List.prefix_of_prefix_length_le hpre ⟨rest, ?_⟩ ?_
      · simp
      · simp only [List.drop_zero, List.cons_append, List.length_cons, List.length_append]
        omega
    have hstep : readStep (.dollarQuote d) c (cs ++ (d ++ rest)) = (.dollarQuote d, 0) := by
      rw [readStep, hpre, if_neg Bool.false_ne_true]
    rw [List.cons_append, afterSemicolons_step hstep (fun h => by cases h.1), List.drop_zero, ih]
    intro k hk
    exact h (k + 1) (by simpa using hk)

theorem delimiterOf_delimiter {tag : Text} (h : IsTag tag) (rest : Text) :
    delimiterOf (delimiter tag ++ rest) = some (delimiter tag) := by
  have hdollar : isTagChar '$' = false := by decide
  have htake : (tag ++ '$' :: rest).takeWhile isTagChar = tag := by
    rw [List.takeWhile_append_of_pos h.2, List.takeWhile_cons_of_neg (by simp [hdollar]),
      List.append_nil]
  have hdrop : (tag ++ '$' :: rest).dropWhile isTagChar = '$' :: rest := by
    rw [List.dropWhile_append_of_pos h.2, List.dropWhile_cons_of_neg (by simp [hdollar])]
  have hwhole : delimiter tag ++ rest = '$' :: (tag ++ '$' :: rest) := by simp [delimiter]
  rw [hwhole, delimiterOf, if_pos rfl, htake, hdrop]
  cases tag with
  | nil => rfl
  | cons c cs =>
    have hstart : isTagStart c = true := h.1 c rfl
    have hc : c ≠ '$' := by
      rintro rfl
      cases hstart
    simp [hstart, hc, delimiter]

/-- A segment is read without a trace, but for the lone semicolon. -/
theorem after_segment (segment : Segment) (rest : Text) :
    afterSemicolons .normal (segment.text ++ rest) =
      (if segment.isSemicolon then [rest] else []) ++ afterSemicolons .normal rest := by
  cases segment with
  | plain run ascii unmarked => exact after_plain unmarked
  | semicolon => exact afterSemicolons_cons .normal ';' rest
  | singleQuoted body ascii =>
    have hopen : ∀ cs, readStep .normal '\'' cs = (.singleQuote, 0) := fun _ => rfl
    rw [Segment.text, List.cons_append, List.append_assoc,
      afterSemicolons_step (hopen _) (fun h => by cases h.2)]
    exact after_quoted hopen (by decide) (by simp) (fun _ _ => rfl) body rest
  | doubleQuoted body ascii =>
    have hopen : ∀ cs, readStep .normal '"' cs = (.doubleQuote, 0) := fun _ => rfl
    rw [Segment.text, List.cons_append, List.append_assoc,
      afterSemicolons_step (hopen _) (fun h => by cases h.2)]
    exact after_quoted hopen (by decide) (by simp) (fun _ _ => rfl) body rest
  | lineComment body ascii line =>
    have hopen : ∀ cs, readStep .normal '-' ('-' :: cs) = (.lineComment, 1) := fun _ => rfl
    rw [Segment.text, List.cons_append, List.cons_append, List.append_assoc,
      afterSemicolons_step (hopen _) (fun h => by cases h.2)]
    exact after_lineComment line
  | blockComment body ascii closed flat =>
    have hopen : ∀ cs, readStep .normal '/' ('*' :: cs) = (.blockComment, 1) := fun _ => rfl
    rw [Segment.text, List.cons_append, List.cons_append, List.append_assoc,
      afterSemicolons_step (hopen _) (fun h => by cases h.2)]
    exact after_blockComment closed
  | dollarQuoted tag body isTag ascii first =>
    have hopen : readStep .normal '$' (tag ++ ['$'] ++ (body ++ (delimiter tag ++ rest))) =
        (.dollarQuote (delimiter tag), (tag ++ ['$']).length) := by
      have := delimiterOf_delimiter isTag (body ++ (delimiter tag ++ rest))
      rw [delimiter, List.cons_append, ← delimiter] at this
      simp only [readStep, this, Char.reduceEq, false_and, if_false]
      rfl
    have hwhole : (Segment.dollarQuoted tag body isTag ascii first).text ++ rest =
        '$' :: (tag ++ ['$'] ++ (body ++ (delimiter tag ++ rest))) := by
      simp [Segment.text, delimiter]
    rw [hwhole, afterSemicolons_step hopen (fun h => by cases h.2), List.drop_left]
    exact after_dollarQuote (List.cons_ne_nil _ _) first

theorem afterSemicolons_script (segments : List Segment) :
    afterSemicolons .normal (script segments) = restsOf segments := by
  induction segments with
  | nil => rfl
  | cons segment segments ih =>
    rw [script, List.flatMap_cons, ← script, after_segment, restsOf, ih]

theorem isSemicolon_text {segment : Segment} (h : segment.isSemicolon = true) :
    segment.text = [';'] := by
  cases segment with
  | semicolon => rfl
  | plain _ _ _ | singleQuoted _ _ | doubleQuoted _ _ | lineComment _ _ _ | blockComment _ _ _ _
  | dollarQuoted _ _ _ _ _ => cases h

theorem offsets_restsOf (pre : Text) (segments : List Segment) :
    offsets (pre ++ script segments) (restsOf segments) =
      semicolonOffsets (utf8 pre).length segments := by
  induction segments generalizing pre with
  | nil => rfl
  | cons segment segments ih =>
    have hrest := ih (pre ++ segment.text)
    have hwhole : pre ++ script (segment :: segments) =
        pre ++ segment.text ++ script segments := by
      rw [script, List.flatMap_cons, ← script, List.append_assoc]
    rw [hwhole, restsOf, semicolonOffsets, ← length_utf8_append, ← hrest, offsets, List.map_append]
    congr 1
    split
    · rename_i h
      have hone : (utf8 segment.text).length = 1 := by
        rw [isSemicolon_text h]
        rfl
      simp only [List.map_cons, List.map_nil, length_utf8_append, hone]
      rw [show (utf8 pre).length + 1 + (utf8 (script segments)).length -
        (utf8 (script segments)).length - 1 = (utf8 pre).length by omega]
    · rfl

theorem ascii_doubled {quote : Char} (hquote : Ascii quote) (h : AsciiText body) :
    AsciiText (doubled quote body) := by
  intro c hc
  obtain ⟨d, hd, hc⟩ := List.mem_flatMap.mp hc
  split at hc
  · obtain rfl : c = quote := by simpa using hc
    exact hquote
  · obtain rfl : c = d := by simpa using hc
    exact h c hd

theorem ascii_append {a b : Text} (ha : AsciiText a) (hb : AsciiText b) : AsciiText (a ++ b) :=
  List.forall_mem_append.mpr ⟨ha, hb⟩

theorem ascii_delimiter {tag : Text} (h : IsTag tag) : AsciiText (delimiter tag) := by
  have htag : AsciiText tag := fun c hc => ascii_of_tagChar (h.2 c hc)
  exact ascii_append (a := ['$']) (by decide) (ascii_append htag (by decide))

theorem ascii_segment (segment : Segment) : AsciiText segment.text := by
  cases segment with
  | plain run ascii unmarked => exact ascii
  | semicolon => decide
  | singleQuoted body ascii =>
    exact ascii_append (a := ['\'']) (by decide)
      (ascii_append (ascii_doubled (by decide) ascii) (by decide))
  | doubleQuoted body ascii =>
    exact ascii_append (a := ['"']) (by decide)
      (ascii_append (ascii_doubled (by decide) ascii) (by decide))
  | lineComment body ascii line =>
    exact ascii_append (a := ['-', '-']) (by decide) (ascii_append ascii (by decide))
  | blockComment body ascii closed flat =>
    exact ascii_append (a := ['/', '*']) (by decide) (ascii_append ascii (by decide))
  | dollarQuoted tag body isTag ascii first =>
    exact ascii_append (ascii_delimiter isTag) (ascii_append ascii (ascii_delimiter isTag))

theorem asciiQuoted_of_ascii {sql : Sql} (h : AsciiText sql) : AsciiQuoted .normal sql := by
  intro r hr d _
  obtain ⟨before, hsql⟩ := readings_split hr
  exact h r.char (by rw [hsql]; simp)

/-- The offsets increase: every segment after a semicolon lies behind it. -/
theorem semicolonOffsets_sorted (i : ℕ) (segments : List Segment) :
    (semicolonOffsets i segments).Pairwise (· < ·) ∧ ∀ k ∈ semicolonOffsets i segments, i ≤ k := by
  induction segments generalizing i with
  | nil => exact ⟨List.Pairwise.nil, nofun⟩
  | cons segment segments ih =>
    obtain ⟨hsorted, hle⟩ := ih (i + (utf8 segment.text).length)
    rw [semicolonOffsets]
    split
    · rename_i h
      have hone : (utf8 segment.text).length = 1 := by
        rw [isSemicolon_text h]
        rfl
      rw [hone] at hsorted hle ⊢
      refine ⟨List.pairwise_cons.mpr ⟨fun k hk => hle k hk, hsorted⟩, fun k hk => ?_⟩
      rcases List.mem_cons.mp hk with rfl | hk
      · exact le_rfl
      · exact (Nat.le_succ i).trans (hle k hk)
    · exact ⟨hsorted, fun k hk => (Nat.le_add_right _ _).trans (hle k hk)⟩

/-- The splitter finds exactly the lone semicolons, in order. -/
theorem topLevelSemicolons_script (segments : List Segment) :
    topLevelSemicolons (script segments) = some (semicolonOffsets 0 segments) ∧
      (semicolonOffsets 0 segments).Pairwise (· < ·) := by
  have hascii : AsciiText (script segments) := by
    intro c hc
    obtain ⟨segment, -, hc⟩ := List.mem_flatMap.mp hc
    exact ascii_segment segment c hc
  refine ⟨?_, (semicolonOffsets_sorted 0 segments).1⟩
  rw [(topLevelSemicolons_scan (script segments)).completes (asciiQuoted_of_ascii hascii),
    afterSemicolons_script, List.nil_append, offsets_restsOf]
  rfl

example : topLevelSemicolons "SELECT 'it''s;' || \"a;\"; -- b;\nSELECT $x$;$y$;$x$; /* ; */".toList =
    some [23, 49] := by decide +kernel

end SshCommander.QuotedSegments
