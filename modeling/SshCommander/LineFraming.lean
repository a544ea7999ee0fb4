import SshCommander.MarkedLines

/-!
# The lines of a streamed command

What `execute_command_streaming` sends for each of the two streams is the stream cut at its
newlines, however the messages cut and interleave the streams.
-/

namespace SshCommander.LineFraming
open RustText Utf8Lossy RemoteCommands StreamedLines MarkedLines

variable {line text rest : Text} {buffers : Bool → Text} {arrived : List (Bool × Char)}

/-- The lines of a stream, without the carriage returns at their ends. What comes after the last
newline is a line if it is not empty. -/
def framed (stream : Text) : List Text :=
  let parts := stream.splitOn '\n'
  (if parts.getLast? = some [] then parts.dropLast else parts).map (·.rdropWhile (· == '\r'))

theorem framed_cons (h : '\n' ∉ line) (rest : Text) :
    framed (line ++ '\n' :: rest) = line.rdropWhile (· == '\r') :: framed rest := by
  simp only [framed, List.splitOn_append_cons_self_of_not_mem h]
  obtain ⟨part, parts, hparts⟩ := List.exists_cons_of_ne_nil (List.splitOn_ne_nil '\n' rest)
  rw [hparts, List.getLast?_cons_cons]
  split
  · rfl
  · rfl

theorem framed_last (h : '\n' ∉ line) :
    framed line = if line.isEmpty then [] else [line.rdropWhile (· == '\r')] := by
  simp only [framed, List.splitOn_eq_singleton h]
  cases line <;> rfl

theorem trimEnds_of_notMem (h : '\n' ∉ line) : trimEnds line = line.rdropWhile (· == '\r') := by
  induction line using List.reverseRecOn with
  | nil => rfl
  | append_singleton cs c ih =>
    have hc : c ≠ '\n' := fun hc => h (by simp [hc])
    have hcs : '\n' ∉ cs := fun hcs => h (List.mem_append_left _ hcs)
    by_cases hcr : c = '\r'
    · rw [trimEnds, List.rdropWhile_concat_pos _ _ _ (by simp [hcr]),
        List.rdropWhile_concat_pos _ _ _ (by simp [hcr])]
      exact ih hcs
    · rw [trimEnds, List.rdropWhile_concat_neg _ _ _ (by simp [hcr, hc]),
        List.rdropWhile_concat_neg _ _ _ (by simp [hcr])]

theorem trimEnds_newline (h : '\n' ∉ line) :
    trimEnds (line ++ ['\n']) = line.rdropWhile (· == '\r') := by
  rw [trimEnds, List.rdropWhile_concat_pos _ _ _ (by decide)]
  exact trimEnds_of_notMem h

theorem lastLine_eq (h : '\n' ∉ line) : lastLine line = framed line := by
  rw [framed_last h, lastLine, trimEnds_of_notMem h]

/-- The lines that are drained from a buffer, and the one that is left in it. -/
theorem drainLines_framed (h : '\n' ∉ line) (text : Text) :
    (drainLines line text).1 ++ lastLine (drainLines line text).2 = framed (line ++ text) := by
  induction text generalizing line with
  | nil =>
    rw [List.append_nil]
    exact lastLine_eq h
  | cons c cs ih =>
    rw [drainLines]
    split
    · rename_i hc
      subst hc
      rw [framed_cons h, ← trimEnds_newline h, List.cons_append, ih List.not_mem_nil]
      rfl
    · rename_i hc
      have hline : '\n' ∉ line ++ [c] := by
        intro hmem
        rcases List.mem_append.mp hmem with hmem | hmem
        · exact h hmem
        · exact hc (List.mem_singleton.mp hmem).symm
      rw [ih hline, List.append_assoc]
      rfl

/-- Each stream is drained on its own. -/
theorem readLines_drain (s : Bool) (buffers : Bool → Text) (arrived : List (Bool × Char)) :
    onStream s (readLines buffers arrived).1 = (drainLines (buffers s) (onStream s arrived)).1 ∧
      (readLines buffers arrived).2 s = (drainLines (buffers s) (onStream s arrived)).2 := by
  induction arrived generalizing buffers with
  | nil => exact ⟨rfl, rfl⟩
  | cons a arrived ih =>
    obtain ⟨s', c⟩ := a
    rw [readLines]
    by_cases hs : s' = s
    · subst hs
      rw [onStream_cons_self, drainLines]
      split
      · have hrest := ih (Function.update buffers s' [])
        rw [Function.update_self] at hrest
        exact ⟨by rw [onStream_cons_self, hrest.1], hrest.2⟩
      · have hrest := ih (Function.update buffers s' (buffers s' ++ [c]))
        rwa [Function.update_self] at hrest
    · rw [onStream_cons_ne hs]
      split
      · have hrest := ih (Function.update buffers s' [])
        rw [Function.update_of_ne (Ne.symm hs)] at hrest
        exact ⟨by rw [onStream_cons_ne hs, hrest.1], hrest.2⟩
      · have hrest := ih (Function.update buffers s' (buffers s' ++ [c]))
        rwa [Function.update_of_ne (Ne.symm hs)] at hrest

theorem onStream_append {α : Type} (s : Bool) (xs ys : List (Bool × α)) :
    onStream s (xs ++ ys) = onStream s xs ++ onStream s ys := by
  rw [onStream, List.filter_append, List.map_append]
  rfl

theorem onStream_tagged {α : Type} (s s' : Bool) (xs : List α) :
    onStream s (xs.map (s', ·)) = if s' = s then xs else [] := by
  induction xs with
  | nil => cases s <;> cases s' <;> rfl
  | cons x xs ih =>
    rw [List.map_cons]
    by_cases hs : s' = s
    · subst hs
      rw [onStream_cons_self, ih, if_pos rfl, if_pos rfl]
    · rw [onStream_cons_ne hs, ih, if_neg hs, if_neg hs]

/-- All lines that are sent: those that a newline ended, then what the buffers are left with. -/
def sentLines (arrived : List (Bool × Char)) : List (Bool × Text) :=
  let read := readLines (fun _ => []) arrived
  read.1 ++ ((lastLine (read.2 false)).map (false, ·) ++ (lastLine (read.2 true)).map (true, ·))

theorem sentLines_framed (s : Bool) (arrived : List (Bool × Char)) :
    onStream s (sentLines arrived) = framed (onStream s arrived) := by
  obtain ⟨hlines, hleft⟩ := readLines_drain s (fun _ => []) arrived
  have hframed := drainLines_framed (List.not_mem_nil : '\n' ∉ []) (onStream s arrived)
  rw [← hlines, ← hleft, List.nil_append] at hframed
  rw [← hframed, sentLines, onStream_append, onStream_append, onStream_tagged, onStream_tagged]
  cases s <;> simp

theorem streamTask_sent {body tail : List ChannelMsg} (hbody : ∀ m ∈ body, goesOn m = true)
    (htail : Ends tail) :
    streamTask none (body ++ tail) [] [] = (sentLines (arrivals body)).map encode := by
  have happend := streamTask_append body tail hbody fun (_ : Bool) => List.not_mem_nil
  rw [happend, sentLines, List.map_append, List.map_append]
  have hlast (a b : Text) : streamTask none tail a b =
      ((lastLine a).map (false, ·)).map encode ++ ((lastLine b).map (true, ·)).map encode := by
    have hout : ((lastLine a).map (false, ·)).map encode = lastLine a := by
      rw [List.map_map]
      exact List.map_id _
    have herr : ((lastLine b).map (true, ·)).map encode = (lastLine b).map mark := by
      rw [List.map_map]
      rfl
    rw [hout, herr]
    cases tail with
    | nil => rfl
    | cons m msgs =>
      cases m with
      | eof | close => rfl
      | data _ | extendedData _ _ | exitStatus _ | other => exact htail.elim
  exact congrArg (_ ++ ·) (hlast _ _)

/-- However the messages cut and interleave two ASCII streams, what is sent is their lines: those
of stdout as they are, those of stderr marked, and each stream in order. -/
theorem streaming_framed {client : SshClient} {command : Text} {body tail : List ChannelMsg}
    {streams : Bool → List UInt8} (hascii : ∀ s, ∀ b ∈ streams s, b.toNat < 128)
    (hbody : ∀ m ∈ body, goesOn m = true)
    (hstreams : ∀ s, onStream s (arrivedBytes body) = streams s) (htail : Ends tail)
    (hstart : client.startCommand command = .ok (body ++ tail)) :
    ∃ sent, client.executeCommandStreaming command none = .ok (sent.map encode) ∧
      ∀ s, onStream s sent = framed ((streams s).map toChar) := by
  refine ⟨sentLines (arrivals body), ?_, fun s => ?_⟩
  · rw [SshClient.executeCommandStreaming, hstart]
    exact congrArg Except.ok (streamTask_sent hbody htail)
  · have hbytes : ∀ a ∈ arrivedBytes body, a.2.toNat < 128 := by
      intro a ha
      have hmem : a.2 ∈ onStream a.1 (arrivedBytes body) := mem_onStream.mpr ha
      rw [hstreams] at hmem
      exact hascii a.1 a.2 hmem
    rw [sentLines_framed, arrivals_ascii hbytes, onStream_map, hstreams]

/-- A line cut between its carriage return and its newline, an empty line, and a last line without
a newline; one message carries the end of one line of stderr and the whole of another. -/
theorem streaming_framed_cut :
    ∃ sent, (clientOf ([.data [97, 13], .extendedData 1 [98], .data [10, 10, 99],
          .extendedData 1 [10, 33, 10]] ++ [.eof])).executeCommandStreaming [] none =
        .ok (sent.map encode) ∧
      ∀ s, onStream s sent =
        framed ((if s then [98, 10, 33, 10] else [97, 13, 10, 10, 99]).map toChar) :=
  streaming_framed (fun s => by cases s <;> simp) (by decide) (by decide)
    (show Ends [.eof] from trivial) rfl

example : framed "a\r\n\nc".toList = ["a".toList, [], "c".toList] := by decide

end SshCommander.LineFraming
