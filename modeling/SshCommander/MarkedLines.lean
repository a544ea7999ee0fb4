import SshCommander.StreamedLines
import SshCommander.Tcpdump

/-!
# The mark of stderr lines

The streaming task marks a line of stderr with a leading `!`, and the capture task takes every line
with that mark for one of stderr. A line of stdout is not escaped.
-/

namespace SshCommander.MarkedLines
open RustText Utf8Lossy RemoteCommands StreamedLines Tcpdump

def PlainLine (line : Text) : Prop := ∀ c ∈ line, Ascii c ∧ c ≠ '\r' ∧ c ≠ '\n'

instance (line : Text) : Decidable (PlainLine line) := List.decidableBAll _ line

def onStream {α : Type} (s : Bool) (items : List (Bool × α)) : List α :=
  (items.filter (·.1 == s)).map Prod.snd

def streamText (s : Bool) (lines : List (Bool × Text)) : Text :=
  (onStream s lines).flatMap (· ++ ['\n'])

/-- The bytes of the two streams in the order in which the messages bring them. -/
def arrivedBytes : List ChannelMsg → List (Bool × UInt8)
  | [] => []
  | .data data :: msgs => data.map (false, ·) ++ arrivedBytes msgs
  | .extendedData _ data :: msgs => data.map (true, ·) ++ arrivedBytes msgs
  | _ :: msgs => arrivedBytes msgs

/-- The messages carry the lines: each stream is that of its lines, cut in any way, and the
newlines come in the order of the lines. -/
structure Carries (body : List ChannelMsg) (lines : List (Bool × Text)) : Prop where
  goesOn : ∀ m ∈ body, goesOn m = true
  streams : ∀ s, onStream s (arrivedBytes body) = utf8 (streamText s lines)
  order : ((arrivedBytes body).filter (·.2 == 10)).map Prod.fst = lines.map Prod.fst

instance (body : List ChannelMsg) (lines : List (Bool × Text)) : Decidable (Carries body lines) :=
  decidable_of_iff ((∀ m ∈ body, StreamedLines.goesOn m = true) ∧ (∀ _s, _ = _) ∧ _ = _)
    ⟨fun h => ⟨h.1, h.2.1, h.2.2⟩, fun h => ⟨h.1, h.2, h.3⟩⟩

/-- The messages that end the task, or the end of the channel. -/
def Ends : List ChannelMsg → Prop
  | [] | .eof :: _ | .close :: _ => True
  | _ => False

variable {body tail : List ChannelMsg} {lines : List (Bool × Text)} {buffers : Bool → Text}
  {line : Text} {arrived : List (Bool × Char)} {client : SshClient} {command : Text}

theorem trimEnds_plain (h : PlainLine line) : trimEnds (line ++ ['\n']) = line := by
  rw [trimEnds, List.rdropWhile_concat_pos _ _ _ (by decide)]
  rcases List.eq_nil_or_concat line with rfl | ⟨cs, c, rfl⟩
  · rfl
  · obtain ⟨-, hcr, hlf⟩ := h c (by simp)
    rw [List.concat_eq_append, List.rdropWhile_concat_neg _ _ _ (by simp [hcr, hlf])]

section OnStream

variable {α : Type} {s s' : Bool} {x : α} {items : List (Bool × α)}

theorem onStream_cons_self : onStream s ((s, x) :: items) = x :: onStream s items := by
  rw [onStream, List.filter_cons_of_pos (by simp), List.map_cons]
  rfl

theorem onStream_cons_ne (h : s' ≠ s) : onStream s ((s', x) :: items) = onStream s items := by
  rw [onStream, List.filter_cons_of_neg (by simpa using h)]
  rfl

end OnStream

theorem streamText_cons_self {s : Bool} :
    streamText s ((s, line) :: lines) = line ++ '\n' :: streamText s lines := by
  rw [streamText, onStream_cons_self, List.flatMap_cons, List.append_assoc]
  rfl

theorem streamText_cons_ne {s s' : Bool} (h : s' ≠ s) :
    streamText s ((s', line) :: lines) = streamText s lines := by
  rw [streamText, onStream_cons_ne h]
  rfl

/-- Two texts that go on with a newline after a part without one have the same first part. -/
theorem split_newline {a b x y : Text} (ha : '\n' ∉ a) (hb : '\n' ∉ b)
    (h : a ++ '\n' :: x = b ++ '\n' :: y) : a = b ∧ x = y := by
  simp only [List.append_eq_append_iff, List.cons_eq_append_iff, List.cons_eq_cons] at h
  rcases h with ⟨c, rfl, ⟨rfl, h⟩ | ⟨d, rfl, rfl⟩⟩ | ⟨c, rfl, ⟨rfl, h⟩ | ⟨d, rfl, rfl⟩⟩ <;> simp_all

/-- The newline of a line takes the line off its stream. -/
theorem streams_newline {s : Bool} {line : Text} (hplain : PlainLine line)
    (hbuffers : NoNewline buffers)
    (hstreams : ∀ s', buffers s' ++ onStream s' ((s, '\n') :: arrived) =
      streamText s' ((s, line) :: lines)) :
    buffers s = line ∧
      ∀ s', Function.update buffers s [] s' ++ onStream s' arrived = streamText s' lines := by
  have hstream := hstreams s
  rw [streamText_cons_self, onStream_cons_self] at hstream
  obtain ⟨hbuffer, hrest⟩ :=
    split_newline (hbuffers s) (fun h => (hplain _ h).2.2 rfl) hstream
  refine ⟨hbuffer, fun s' => ?_⟩
  by_cases hs : s' = s
  · rw [hs, Function.update_self, List.nil_append, hrest]
  · have := hstreams s'
    rwa [streamText_cons_ne (Ne.symm hs), onStream_cons_ne (Ne.symm hs),
      ← Function.update_of_ne hs [] buffers] at this

/-- Any other character goes from its stream into its buffer. -/
theorem streams_char {s : Bool} {c : Char}
    (hstreams : ∀ s', buffers s' ++ onStream s' ((s, c) :: arrived) = streamText s' lines)
    (s' : Bool) : Function.update buffers s (buffers s ++ [c]) s' ++ onStream s' arrived =
      streamText s' lines := by
  have hstream := hstreams s'
  by_cases hs : s' = s
  · subst hs
    rwa [onStream_cons_self, ← List.singleton_append, ← List.append_assoc,
      ← Function.update_self s' (buffers s' ++ [c]) buffers] at hstream
  · rwa [onStream_cons_ne (Ne.symm hs), ← Function.update_of_ne hs (buffers s ++ [c]) buffers]
      at hstream

/-- Streams of complete lines are read as the lines, in the order of their newlines. -/
theorem readLines_complete (hlines : ∀ l ∈ lines, PlainLine l.2) (hbuffers : NoNewline buffers)
    (hstreams : ∀ s, buffers s ++ onStream s arrived = streamText s lines)
    (horder : (arrived.filter (·.2 == '\n')).map Prod.fst = lines.map Prod.fst) :
    readLines buffers arrived = (lines, fun _ => []) := by
  induction arrived generalizing buffers lines with
  | nil =>
    obtain rfl : lines = [] := by simpa using horder.symm
    have hempty : buffers = fun _ => [] := by
      funext s
      simpa [streamText, onStream] using hstreams s
    rw [readLines, hempty]
  | cons a arrived ih =>
    obtain ⟨s, c⟩ := a
    rw [readLines]
    split
    · -- The newline ends the first of the lines.
      rename_i hc
      subst hc
      cases lines with
      | nil => simp at horder
      | cons l ls =>
        obtain ⟨s', l⟩ := l
        obtain ⟨rfl, horder'⟩ : s = s' ∧ _ := by simpa using horder
        have hplain : PlainLine l := hlines _ List.mem_cons_self
        obtain ⟨hbuffer, hstreams'⟩ := streams_newline hplain hbuffers hstreams
        rw [ih (fun l hl => hlines l (List.mem_cons_of_mem _ hl))
          (noNewline_update hbuffers List.not_mem_nil) hstreams' horder', hbuffer,
          trimEnds_plain hplain]
    · rename_i hc
      have hnewline : '\n' ∉ buffers s ++ [c] := by
        rintro h
        rcases List.mem_append.mp h with h | h
        · exact hbuffers s h
        · exact hc (List.mem_singleton.mp h).symm
      refine ih hlines (noNewline_update hbuffers hnewline) (streams_char hstreams) ?_
      rwa [List.filter_cons_of_neg (by simpa using hc)] at horder

def toChar (b : UInt8) : Char := Char.ofNat b.toNat

theorem map_toChar_utf8 {t : Text} (h : ∀ c ∈ t, Ascii c) : (utf8 t).map toChar = t := by
  induction t with
  | nil => rfl
  | cons c cs ih =>
    have hc : Ascii c := h c List.mem_cons_self
    rw [utf8_cons, encode_ascii hc, List.singleton_append, List.map_cons,
      ih fun c hc => h c (List.mem_cons_of_mem _ hc), toChar,
      toNat_asciiByte hc, Char.ofNat_toNat]

theorem utf8_lt {t : Text} (h : ∀ c ∈ t, Ascii c) : ∀ b ∈ utf8 t, b.toNat < 128 := by
  intro b hb
  obtain ⟨c, hc, hbc⟩ := List.mem_flatMap.mp hb
  rw [encode_ascii (h c hc), List.mem_singleton] at hbc
  rw [hbc, toNat_asciiByte (h c hc)]
  exact h c hc

theorem ascii_streamText (hlines : ∀ l ∈ lines, PlainLine l.2) (s : Bool) :
    ∀ c ∈ streamText s lines, Ascii c := by
  intro c hc
  obtain ⟨line, hline, hc⟩ := List.mem_flatMap.mp hc
  obtain ⟨l, hl, rfl⟩ := List.mem_map.mp hline
  rcases List.mem_append.mp hc with hc | hc
  · exact (hlines l (List.mem_filter.mp hl).1 c hc).1
  · rw [List.mem_singleton.mp hc]
    decide

theorem mem_onStream {α : Type} {s : Bool} {x : α} {items : List (Bool × α)} :
    x ∈ onStream s items ↔ (s, x) ∈ items := by
  simp [onStream]

/-- Every byte that arrives is ASCII where the lines are. -/
theorem arrivedBytes_lt (hlines : ∀ l ∈ lines, PlainLine l.2) (h : Carries body lines) :
    ∀ a ∈ arrivedBytes body, a.2.toNat < 128 := by
  intro a ha
  have hmem : a.2 ∈ onStream a.1 (arrivedBytes body) := mem_onStream.mpr ha
  rw [h.streams] at hmem
  exact utf8_lt (ascii_streamText hlines a.1) a.2 hmem

/-- ASCII messages decode to their bytes. -/
theorem arrivals_ascii (h : ∀ a ∈ arrivedBytes body, a.2.toNat < 128) :
    arrivals body = (arrivedBytes body).map (Prod.map id toChar) := by
  induction body with
  | nil => rfl
  | cons m body ih =>
    have hdata : ∀ (s : Bool) (data : List UInt8) (rest : List (Bool × UInt8)),
        (∀ a ∈ data.map (s, ·) ++ rest, a.2.toNat < 128) →
          (fromUtf8Lossy data).map (s, ·) = (data.map (s, ·)).map (Prod.map id toChar) := by
      intro s data rest hrest
      rw [fromUtf8Lossy_ascii fun b hb =>
        hrest (s, b) (List.mem_append_left _ (List.mem_map_of_mem hb)), List.map_map, List.map_map]
      rfl
    cases m with
    | data data =>
      rw [arrivals, arrivedBytes, List.map_append, hdata _ _ _ h,
        ih fun a ha => h a (List.mem_append_right _ ha)]
    | extendedData ext data =>
      rw [arrivals, arrivedBytes, List.map_append, hdata _ _ _ h,
        ih fun a ha => h a (List.mem_append_right _ ha)]
    | exitStatus code => exact ih h
    | eof => exact ih h
    | close => exact ih h
    | other => exact ih h

theorem toChar_eq_newline {b : UInt8} (h : b.toNat < 128) : (toChar b == '\n') = (b == 10) := by
  rw [Bool.eq_iff_iff, beq_iff_eq, beq_iff_eq, ← Char.toNat_inj, ← UInt8.toNat_inj, toChar,
    toNat_ofNat (by omega)]
  rfl

theorem onStream_map (s : Bool) (items : List (Bool × UInt8)) :
    onStream s (items.map (Prod.map id toChar)) = (onStream s items).map toChar := by
  rw [onStream, onStream, List.filter_map, List.map_map, List.map_map]
  rfl

/-- The strings that are sent for complete lines. -/
theorem streamTask_lines (hlines : ∀ l ∈ lines, PlainLine l.2) (h : Carries body lines)
    (htail : Ends tail) : streamTask none (body ++ tail) [] [] = lines.map encode := by
  have hbytes := arrivedBytes_lt hlines h
  have hread : readLines (fun _ => []) (arrivals body) = (lines, fun _ => []) := by
    rw [arrivals_ascii hbytes]
    refine readLines_complete hlines (fun _ => List.not_mem_nil) (fun s => ?_) ?_
    · rw [List.nil_append, onStream_map, h.streams, map_toChar_utf8 (ascii_streamText hlines s)]
    · rw [List.filter_map, List.map_map, ← h.order]
      congr 1
      exact List.filter_congr fun a ha => toChar_eq_newline (hbytes a ha)
  have happend := streamTask_append body tail h.goesOn fun (_ : Bool) => List.not_mem_nil
  rw [happend, hread]
  cases tail with
  | nil => exact List.append_nil _
  | cons m msgs =>
    cases m with
    | eof => exact List.append_nil _
    | close => exact List.append_nil _
    | data _ | extendedData _ _ | exitStatus _ | other => exact htail.elim

/-- A line is decoded as it was encoded unless it is one of stdout with the mark. -/
theorem stripMark_encode_iff (l : Bool × Text) :
    stripMark (encode l) = l ↔ (l.1 = false → l.2.head? ≠ some '!') := by
  obtain ⟨s, line⟩ := l
  cases s with
  | true => exact ⟨nofun, fun _ => rfl⟩
  | false =>
    cases line with
    | nil => exact ⟨fun _ _ => nofun, fun _ => rfl⟩
    | cons c cs =>
      by_cases hc : c = '!'
      · subst hc
        exact ⟨nofun, fun h => absurd rfl (h rfl)⟩
      · refine ⟨fun _ _ h => hc (Option.some.inj h), fun _ => ?_⟩
        simp only [encode, Bool.false_eq_true, if_false]
        unfold stripMark
        split
        · rename_i heq
          exact absurd (List.cons.inj heq).1 hc
        · rfl

/-- The events of a capture are the lines, each with its stream, exactly when no line of stdout
begins with the mark. -/
theorem capture_lines_iff (hlines : ∀ l ∈ lines, PlainLine l.2) (h : Carries body lines)
    (htail : Ends tail) (hstart : client.startCommand command = .ok (body ++ tail))
    (capture : UInt64) :
    (client.executeCommandStreaming command none).map
        (fun sent => (forward capture sent).map TcpdumpLine.pair) = .ok lines ↔
      ∀ l ∈ lines, l.1 = false → l.2.head? ≠ some '!' := by
  have hsent : client.executeCommandStreaming command none = .ok (lines.map encode) := by
    rw [SshClient.executeCommandStreaming, hstart, ← streamTask_lines hlines h htail]
    rfl
  simp only [hsent, Except.map, forward_pairs, List.map_map, Except.ok.injEq]
  calc lines.map (stripMark ∘ encode) = lines
    _ ↔ lines.map (stripMark ∘ encode) = lines.map id := by rw [List.map_id]
    _ ↔ ∀ l ∈ lines, stripMark (encode l) = l := List.map_inj_left
    _ ↔ _ := forall₂_congr fun l _ => stripMark_encode_iff l

def clientOf (msgs : List ChannelMsg) : SshClient := ⟨some ⟨.ok (), fun _ => .ok msgs⟩⟩

/-- A banner on stderr between the two messages of a line of stdout. -/
theorem capture_lines_banner :
    ((clientOf ([.data [49], .extendedData 1 [33, 10], .other, .data [50, 10]] ++
          [.eof])).executeCommandStreaming [] none).map
        (fun sent => (forward 1 sent).map TcpdumpLine.pair) =
      .ok [(true, ['!']), (false, ['1', '2'])] :=
  (capture_lines_iff (by decide) (by decide) (show Ends [.eof] from trivial) rfl 1).mpr (by decide)

/-- A line of stdout that begins with the mark is forwarded as one of stderr, and without it. -/
theorem capture_lines_marked :
    Carries [.data [33, 120, 10]] [(false, ['!', 'x'])] ∧ PlainLine ['!', 'x'] ∧
      ((clientOf [.data [33, 120, 10], .eof]).executeCommandStreaming [] none).map
        (fun sent => (forward 1 sent).map TcpdumpLine.pair) = .ok [(true, ['x'])] := by
  decide

end SshCommander.MarkedLines
