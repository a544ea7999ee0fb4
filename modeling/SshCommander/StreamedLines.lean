import Mathlib.Logic.Function.Basic
import SshCommander.RemoteCommands

/-!
# The lines of two streams in the order of their newlines

What the streaming task sends, read character by character: a line of either stream is sent when
its newline arrives, whatever the messages are in which it comes.
-/

namespace SshCommander.StreamedLines
open RustText Utf8Lossy RemoteCommands

/-- The lines as they end, with the stream of each (`true` for stderr), and what is left of the
two streams. -/
def readLines : (Bool → Text) → List (Bool × Char) → List (Bool × Text) × (Bool → Text)
  | buffers, [] => ([], buffers)
  | buffers, (s, c) :: rest =>
    if c = '\n' then
      let read := readLines (Function.update buffers s []) rest
      ((s, trimEnds (buffers s ++ [c])) :: read.1, read.2)
    else readLines (Function.update buffers s (buffers s ++ [c])) rest

/-- The characters of the two streams as they are decoded, message by message. -/
def arrivals : List ChannelMsg → List (Bool × Char)
  | [] => []
  | .data data :: msgs => (fromUtf8Lossy data).map (false, ·) ++ arrivals msgs
  | .extendedData _ data :: msgs => (fromUtf8Lossy data).map (true, ·) ++ arrivals msgs
  | _ :: msgs => arrivals msgs

def encode (line : Bool × Text) : Text := if line.1 then mark line.2 else line.2

def goesOn : ChannelMsg → Bool
  | .eof | .close => false
  | _ => true

def NoNewline (buffers : Bool → Text) : Prop := ∀ s, '\n' ∉ buffers s

variable {buffers : Bool → Text} {s : Bool} {line text : Text} {rest : List (Bool × Char)}

theorem noNewline_update (h : NoNewline buffers) (hline : '\n' ∉ line) :
    NoNewline (Function.update buffers s line) := by
  intro s'
  by_cases hs : s' = s
  · rwa [hs, Function.update_self]
  · rw [Function.update_of_ne hs]
    exact h s'

/-- A buffer without a newline is read on from where it ends. -/
theorem drainLines_append (hline : '\n' ∉ line) (done : Text) :
    drainLines done (line ++ text) = drainLines (done ++ line) text := by
  induction line generalizing done with
  | nil => rw [List.nil_append, List.append_nil]
  | cons c cs ih =>
    have hc : c ≠ '\n' := fun h => hline (h ▸ List.mem_cons_self)
    rw [List.cons_append, drainLines, if_neg hc,
      ih (fun h => hline (List.mem_cons_of_mem _ h)), List.append_assoc]
    rfl

theorem newline_drainLines (hline : '\n' ∉ line) (text : Text) :
    '\n' ∉ (drainLines line text).2 := by
  induction text generalizing line with
  | nil => exact hline
  | cons c cs ih =>
    rw [drainLines]
    split
    · exact ih List.not_mem_nil
    · rename_i hc
      apply ih
      rintro h
      rcases List.mem_append.mp h with h | h
      · exact hline h
      · exact hc (List.mem_singleton.mp h).symm

/-- The characters of one message: its stream is drained, and the other one is left alone. -/
theorem readLines_message (s : Bool) (text : Text) (buffers : Bool → Text) :
    readLines buffers (text.map (s, ·) ++ rest) =
      let drained := drainLines (buffers s) text
      let read := readLines (Function.update buffers s drained.2) rest
      (drained.1.map (s, ·) ++ read.1, read.2) := by
  induction text generalizing buffers with
  | nil => simp [drainLines]
  | cons c cs ih =>
    rw [List.map_cons, List.cons_append, readLines, drainLines]
    split
    · rw [ih]
      simp
    · rw [ih]
      simp

/-- The task sends the lines as they end, up to a message that ends it. -/
theorem streamTask_append (body tail : List ChannelMsg) (hbody : ∀ m ∈ body, goesOn m = true)
    (h : NoNewline buffers) :
    streamTask none (body ++ tail) (buffers false) (buffers true) =
      let read := readLines buffers (arrivals body)
      read.1.map encode ++ streamTask none tail (read.2 false) (read.2 true) := by
  induction body generalizing buffers with
  | nil => rfl
  | cons m body ih =>
    have hrest := fun m hm => hbody m (List.mem_cons_of_mem _ hm)
    cases m with
    | data data =>
      have hdrained := newline_drainLines (h false) (fromUtf8Lossy data)
      have := ih hrest (noNewline_update (s := false) h hdrained)
      simp only [Function.update_self, Function.update_of_ne (by decide : true ≠ false)] at this
      simp only [List.cons_append, streamTask, Option.map_none, arrivals, readLines_message,
        drainLines_append (h false), List.nil_append, this, List.map_append, List.map_map,
        List.append_assoc]
      congr 1
      exact (List.map_id _).symm
    | extendedData ext data =>
      have hdrained := newline_drainLines (h true) (fromUtf8Lossy data)
      have := ih hrest (noNewline_update (s := true) h hdrained)
      simp only [Function.update_self, Function.update_of_ne (by decide : false ≠ true)] at this
      simp only [List.cons_append, streamTask, Option.map_none, arrivals, readLines_message,
        drainLines_append (h true), List.nil_append, this, List.map_append, List.map_map,
        List.append_assoc]
      rfl
    | exitStatus code => exact ih hrest h
    | other => exact ih hrest h
    | eof => exact nomatch hbody _ List.mem_cons_self
    | close => exact nomatch hbody _ List.mem_cons_self

end SshCommander.StreamedLines
