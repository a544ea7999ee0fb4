import SshCommander.RemoteCommands

/-!
# Command output and packet boundaries

Every message is decoded on its own, so a character that is cut between two of them is lost. Where
no cut is inside of a character, the output is that of the whole stream.
-/

namespace SshCommander.PacketBoundaries
open RustText Utf8Lossy RemoteCommands

def carriesOutput : ChannelMsg → Bool
  | .data _ | .extendedData _ _ | .other => true
  | _ => false

def stdoutPart : ChannelMsg → Option (List UInt8)
  | .data data => some data
  | _ => none

def stderrPart : ChannelMsg → Option (List UInt8)
  | .extendedData _ data => some data
  | _ => none

/-- The messages in which a server sends the output of a command: the two streams cut and
interleaved in any way, then the exit status and the end of the output. -/
structure Delivery where
  body : List ChannelMsg
  exitCode : UInt32
  eofFirst : Bool
  /-- What comes after both is not read. -/
  rest : List ChannelMsg
  carries : ∀ m ∈ body, carriesOutput m = true

namespace Delivery

def ending (d : Delivery) : List ChannelMsg :=
  if d.eofFirst then [.eof, .exitStatus d.exitCode] else [.exitStatus d.exitCode, .eof]

def messages (d : Delivery) : List ChannelMsg := d.body ++ (d.ending ++ d.rest)

def stdoutParts (d : Delivery) : List (List UInt8) := d.body.filterMap stdoutPart

def stderrParts (d : Delivery) : List (List UInt8) := d.body.filterMap stderrPart

/-- No message boundary is inside of a character of its stream. -/
def Whole (d : Delivery) : Prop := Utf8Lossy.Whole d.stdoutParts ∧ Utf8Lossy.Whole d.stderrParts

instance (d : Delivery) : Decidable d.Whole := inferInstanceAs (Decidable (_ ∧ _))

end Delivery

structure SameStreams (d d' : Delivery) : Prop where
  stdout : d.stdoutParts.flatten = d'.stdoutParts.flatten
  stderr : d.stderrParts.flatten = d'.stderrParts.flatten
  exitCode : d.exitCode = d'.exitCode

instance (d d' : Delivery) : Decidable (SameStreams d d') :=
  decidable_of_iff (_ ∧ _ ∧ _) ⟨fun h => ⟨h.1, h.2.1, h.2.2⟩, fun h => ⟨h.1, h.2, h.3⟩⟩

def clientOf (d : Delivery) : SshClient := ⟨some ⟨.ok (), fun _ => .ok d.messages⟩⟩

variable {d d' : Delivery} {client client' : SshClient} {command : Text}

/-- The output of each message is put behind what was read before it. -/
theorem receiveOutput_body (body : List ChannelMsg) (hbody : ∀ m ∈ body, carriesOutput m = true)
    (msgs : List ChannelMsg) (out : CommandOutput) (eof : Bool) :
    receiveOutput (body ++ msgs) out eof = receiveOutput msgs
      { out with stdout := out.stdout ++ (body.filterMap stdoutPart).flatMap fromUtf8Lossy
                 stderr := out.stderr ++ (body.filterMap stderrPart).flatMap fromUtf8Lossy } eof := by
  induction body generalizing out with
  | nil => simp
  | cons m body ih =>
    have hrest := ih fun m hm => hbody m (List.mem_cons_of_mem _ hm)
    cases m with
    | data data => simp [receiveOutput, hrest, List.filterMap_cons, stdoutPart, stderrPart]
    | extendedData ext data => simp [receiveOutput, hrest, List.filterMap_cons, stdoutPart, stderrPart]
    | other => simp [receiveOutput, hrest, List.filterMap_cons, stdoutPart, stderrPart]
    | exitStatus code => exact nomatch hbody _ List.mem_cons_self
    | eof => exact nomatch hbody _ List.mem_cons_self
    | close => exact nomatch hbody _ List.mem_cons_self

/-- The loop ends with the second one of exit status and end of output. -/
theorem receiveOutput_ending (d : Delivery) {out : CommandOutput} (h : out.exitCode = none) :
    receiveOutput (d.ending ++ d.rest) out false = { out with exitCode := some d.exitCode } := by
  unfold Delivery.ending
  split
  · simp [receiveOutput, h]
  · simp [receiveOutput]

/-- The output is what the messages decode to one by one. -/
theorem executeCommandFull_delivery (h : client.startCommand command = .ok d.messages) :
    client.executeCommandFull command = .ok
      { stdout := d.stdoutParts.flatMap fromUtf8Lossy
        stderr := d.stderrParts.flatMap fromUtf8Lossy
        exitCode := some d.exitCode } := by
  rw [SshClient.executeCommandFull, h, Delivery.messages]
  simp only [Except.map, receiveOutput_body d.body d.carries]
  rw [receiveOutput_ending d rfl]
  simp only [List.nil_append]
  rfl

def Decoded (d : Delivery) (result : Except SshError CommandOutput) : Prop :=
  ∃ out, result = .ok out ∧ out.stdout = fromUtf8Lossy d.stdoutParts.flatten ∧
    out.stderr = fromUtf8Lossy d.stderrParts.flatten

theorem decoded_iff (h : client.startCommand command = .ok d.messages) :
    Decoded d (client.executeCommandFull command) ↔ d.Whole := by
  rw [executeCommandFull_delivery h, Delivery.Whole, ← flatMap_eq_iff, ← flatMap_eq_iff]
  constructor
  · rintro ⟨out, hout, hstdout, hstderr⟩
    obtain rfl := Except.ok.inj hout
    exact ⟨hstdout, hstderr⟩
  · exact fun hparts => ⟨_, rfl, hparts.1, hparts.2⟩

/-- `execute_command` puts the decoded streams together where no character is cut. -/
theorem executeCommand_whole (h : client.startCommand command = .ok d.messages) (hd : d.Whole) :
    client.executeCommand command = .ok (CommandOutput.combined
      ⟨fromUtf8Lossy d.stdoutParts.flatten, fromUtf8Lossy d.stderrParts.flatten,
        some d.exitCode⟩) := by
  rw [SshClient.executeCommand, executeCommandFull_delivery h, (flatMap_eq_iff _).mpr hd.1,
    (flatMap_eq_iff _).mpr hd.2]
  rfl

/-- Two deliveries of the same streams give the same output, the decoding of the streams, exactly
when no message boundary of either is inside of a character. -/
theorem executeCommandFull_same_iff (hs : SameStreams d d')
    (h : client.startCommand command = .ok d.messages)
    (h' : client'.startCommand command = .ok d'.messages) :
    (client.executeCommandFull command = client'.executeCommandFull command ∧
      Decoded d (client.executeCommandFull command)) ↔ d.Whole ∧ d'.Whole := by
  have hdecoded : Decoded d (client'.executeCommandFull command) ↔ d'.Whole := by
    rw [← decoded_iff h']
    simp only [Decoded, hs.stdout, hs.stderr]
  constructor
  · rintro ⟨hsame, hd⟩
    exact ⟨(decoded_iff h).mp hd, hdecoded.mp (hsame ▸ hd)⟩
  · rintro ⟨hwhole, hwhole'⟩
    obtain ⟨out, hout, hstdout, hstderr⟩ := (decoded_iff h).mpr hwhole
    obtain ⟨out', hout', hstdout', hstderr'⟩ := hdecoded.mpr hwhole'
    refine ⟨?_, out, hout, hstdout, hstderr⟩
    rw [executeCommandFull_delivery h] at hout ⊢
    rw [executeCommandFull_delivery h'] at hout' ⊢
    obtain rfl := Except.ok.inj hout
    obtain rfl := Except.ok.inj hout'
    simp only at hstdout hstderr hstdout' hstderr'
    rw [hstdout, hstderr, hstdout', hstderr', hs.exitCode]

/-- Two bytes of one character, in one message or in one each. -/
def accent (cut : Bool) : Delivery where
  body := if cut then [.data [0xC3], .data [0xA9]] else [.data [0xC3, 0xA9]]
  exitCode := 0
  eofFirst := false
  rest := []
  carries := by cases cut <;> decide

theorem executeCommandFull_same_ascii :
    (clientOf ⟨[.data [111, 107], .data [10]], 0, true, [], by decide⟩).executeCommandFull [] =
        (clientOf ⟨[.data [111], .other, .data [107, 10]], 0, false, [.close],
          by decide⟩).executeCommandFull [] ∧
      Decoded ⟨[.data [111, 107], .data [10]], 0, true, [], by decide⟩
        ((clientOf ⟨[.data [111, 107], .data [10]], 0, true, [],
          by decide⟩).executeCommandFull []) :=
  (executeCommandFull_same_iff (by decide) rfl rfl).mpr (by decide)

/-- A character in two messages comes back as two replacement characters. -/
theorem executeCommandFull_cut :
    SameStreams (accent false) (accent true) ∧
      (clientOf (accent false)).executeCommandFull [] = .ok ⟨['é'], [], some 0⟩ ∧
      (clientOf (accent true)).executeCommandFull [] =
        .ok ⟨[replacement, replacement], [], some 0⟩ := by
  decide

end SshCommander.PacketBoundaries
