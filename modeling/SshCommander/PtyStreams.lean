import SshCommander.BoundedChannels
import SshCommander.InterleavedTasks
import SshCommander.RemoteCommands

/-!
# The streams of a PTY session

`create_pty_session` starts two tasks between an SSH channel and three bounded channels; calls on
the manager send input and resizes into them and read bursts of output. The calls hold the session
while they wait, and the registry holds it until it is removed or displaced.
-/

namespace SshCommander.PtyStreams
open InterleavedTasks InterleavedTasks.TaskSystem BoundedChannels RustText RemoteCommands

abbrev Bytes := List UInt8

inductive InputTask where
  | waiting
  | writing (data : Bytes)
  | flushing
  | ended
  deriving DecidableEq, Repr

inductive OutputTask where
  | waiting
  | sending (data : Bytes)
  | resizing (cols rows : UInt32)
  | ended
  deriving DecidableEq, Repr

/-- A call of `read_pty_burst` that holds the lock on `output_rx`, with what it has received. -/
structure Burst where
  maxBytes : ℕ
  chunks : List Bytes
  deriving DecidableEq, Repr

namespace Burst

def data (b : Burst) : Bytes := b.chunks.flatten

def add (b : Burst) (chunk : Bytes) : Burst := { b with chunks := b.chunks ++ [chunk] }

end Burst

structure PtySession where
  input : Channel Bytes 1000
  output : Channel Bytes 2000
  resize : Channel (UInt32 × UInt32) 16
  inputTask : InputTask
  outputTask : OutputTask
  cancelled : Bool
  /-- Whether the registry has the session. -/
  registered : Bool
  /-- The `Arc`s that calls hold. -/
  holders : ℕ
  /-- The lock on `output_rx`. -/
  reading : Option Burst
  /-- What has reached the SSH channel. -/
  written : Bytes
  /-- The messages that were taken off the SSH channel. -/
  messages : List ChannelMsg
  windowChanges : List (UInt32 × UInt32)
  /-- The bursts that were returned, in order. -/
  bursts : List Burst

namespace PtySession

/-- Nobody can send or receive any more once the last `Arc` is gone. -/
def alive (s : PtySession) : Bool := s.registered || s.holders != 0

def hold (s : PtySession) : PtySession := { s with holders := s.holders + 1 }

def letGo (s : PtySession) : PtySession := { s with holders := s.holders - 1 }

end PtySession

/-- What the SSH channel does in one step. `message` is `none` while `wait()` has nothing, and
`some none` once the channel is gone; a failed write says how much was written. -/
structure Event where
  message : Option (Option ChannelMsg)
  write : Except ℕ Unit
  flush : Except Unit Unit
  windowChange : Except Unit Unit

def quiet : Event := ⟨none, .ok (), .ok (), .ok ()⟩

def brings (msg : ChannelMsg) : Event := { quiet with message := some (some msg) }

def payload : ChannelMsg → Option Bytes
  | .data data => some data
  | .extendedData _ data => some data
  | _ => none

def afterWait : Option ChannelMsg → OutputTask
  | none | some .eof | some .close => .ended
  | some (.data data) | some (.extendedData _ data) => .sending data
  | some (.exitStatus _) | some .other => .waiting

def stepInput (s : PtySession) (e : Event) : Option PtySession :=
  match s.inputTask with
  | .waiting =>
    if s.cancelled then some { s with inputTask := .ended }
    else
      match s.input.recv with
      | some (data, input) => some { s with input := input, inputTask := .writing data }
      | none => if s.alive then none else some { s with inputTask := .ended }
  | .writing data =>
    match e.write with
    | .ok () => some { s with written := s.written ++ data, inputTask := .flushing }
    | .error n => some { s with written := s.written ++ data.take n, inputTask := .ended }
  | .flushing =>
    match e.flush with
    | .ok () => some { s with inputTask := .waiting }
    | .error () => some { s with inputTask := .ended }
  | .ended => none

/-- One step of the output task. The select is biased: the token, the channel, the resizes. -/
def stepOutput (s : PtySession) (e : Event) : Option PtySession :=
  match s.outputTask with
  | .waiting =>
    if s.cancelled then some { s with outputTask := .ended }
    else
      match e.message with
      | some msg =>
        some { s with messages := s.messages ++ msg.toList, outputTask := afterWait msg }
      | none =>
        match s.resize.recv with
        | some ((cols, rows), resize) =>
          some { s with resize := resize, outputTask := .resizing cols rows }
        | none => if s.alive then none else some { s with outputTask := .ended }
  | .sending data =>
    if s.alive then (s.output.send data).map fun output =>
      { s with output := output, outputTask := .waiting }
    else some { s with outputTask := .ended }
  | .resizing cols rows =>
    match e.windowChange with
    | .ok () =>
      some { s with windowChanges := s.windowChanges ++ [(cols, rows)], outputTask := .waiting }
    | .error () => some { s with outputTask := .waiting }
  | .ended => none

/-- Where a task or a call stands. The state of the two tasks is part of the session. -/
inductive Task where
  | input
  | output
  | insert
  | remove
  | displace
  | writeToPty (data : Bytes)
  | sendingInput (data : Bytes)
  | wrote (data : Bytes)
  | readPtyBurst (maxBytes : ℕ)
  | lockingOutput (maxBytes : ℕ)
  | bursting
  | burst (b : Burst)
  | resizePty (cols rows : UInt32)
  | sendingResize (cols rows : UInt32)
  | getPtySession
  | holding
  | finished
  | failed (message : Text)
  deriving DecidableEq, Repr

/-- `start_pty_connection` inserts the session it has created, and nothing else does. -/
def starts : Task → Bool
  | .remove | .displace | .writeToPty _ | .readPtyBurst _ | .resizePty .. | .getPtySession => true
  | _ => false

def withSession (s : PtySession) (t : Task) : Option (PtySession × Task) :=
  if s.registered then some (s.hold, t)
  else some (s, .failed "PTY connection not found".toList)

/-- The end of a burst: its data is returned and the lock given up. -/
def endBurst (s : PtySession) (b : Burst) : PtySession × Task :=
  ({ s with reading := none, bursts := s.bursts ++ [b] }.letGo, .burst b)

def step (s : PtySession) (t : Task) (e : Event) : Option (PtySession × Task) :=
  match t with
  | .input => (stepInput s e).map (·, .input)
  | .output => (stepOutput s e).map (·, .output)
  | .insert => some ({ s with registered := true }.letGo, .finished)
  | .remove =>
    -- `remove`, `cancel_existing` and `purge` cancel what they take out of the map.
    some (if s.registered then { s with registered := false, cancelled := true } else s, .finished)
  | .displace => some ({ s with registered := false }, .finished)
  | .writeToPty data => withSession s (.sendingInput data)
  | .sendingInput data =>
    if s.inputTask = .ended then some (s.letGo, .failed "PTY channel closed".toList)
    else (s.input.send data).map fun input => ({ s with input := input }.letGo, .wrote data)
  | .readPtyBurst maxBytes => withSession s (.lockingOutput maxBytes)
  | .lockingOutput maxBytes =>
    match s.reading with
    | none => some ({ s with reading := some ⟨maxBytes, []⟩ }, .bursting)
    | some _ => none
  | .bursting =>
    match s.reading with
    | none => none
    | some b =>
      -- The first chunk is waited for, the others are only taken while there are any.
      if b.chunks.isEmpty then
        match s.output.recv with
        | some (data, output) =>
          some ({ s with output := output, reading := some (b.add data) }, .bursting)
        | none =>
          if s.outputTask = .ended then
            some ({ s with reading := none }.letGo, .failed "PTY connection closed".toList)
          else none
      else if b.data.length < b.maxBytes then
        match s.output.recv with
        | some (data, output) =>
          some ({ s with output := output, reading := some (b.add data) }, .bursting)
        | none => some (endBurst s b)
      else some (endBurst s b)
  | .resizePty cols rows => withSession s (.sendingResize cols rows)
  | .sendingResize cols rows =>
    if s.outputTask = .ended then some (s.letGo, .failed "PTY resize channel closed".toList)
    else (s.resize.send (cols, rows)).map fun resize => ({ s with resize := resize }.letGo, .finished)
  | .getPtySession => withSession s .holding
  | .holding => some (s.letGo, .finished)
  | .wrote _ | .burst _ | .finished | .failed _ => none

def pty : TaskSystem PtySession Task Event := ⟨starts, step⟩

def created : Config PtySession Task :=
  ⟨⟨.empty, .empty, .empty, .waiting, .waiting, false, false, 1, none, [], [], [], []⟩,
    [.input, .output, .insert]⟩

def InputTask.inHand : InputTask → Bytes
  | .writing data => data
  | .waiting | .flushing | .ended => []

def OutputTask.inHand : OutputTask → List Bytes
  | .sending data => [data]
  | .waiting | .resizing .. | .ended => []

inductive InputStep (s : PtySession) : PtySession → Prop where
  | stopped (h : s.inputTask = .waiting) (hs : s.cancelled = true ∨ s.input.queue = []) :
      InputStep s { s with inputTask := .ended }
  | took {data input} (h : s.inputTask = .waiting) (hc : s.cancelled = false)
      (hr : Channel.Receives s.input data input) :
      InputStep s { s with input := input, inputTask := .writing data }
  | wrote {data} (h : s.inputTask = .writing data) :
      InputStep s { s with written := s.written ++ data, inputTask := .flushing }
  | brokeOff {data n} (h : s.inputTask = .writing data) :
      InputStep s { s with written := s.written ++ data.take n, inputTask := .ended }
  | flushed (h : s.inputTask = .flushing) : InputStep s { s with inputTask := .waiting }
  | flushFailed (h : s.inputTask = .flushing) : InputStep s { s with inputTask := .ended }

inductive OutputStep (s : PtySession) : PtySession → Prop where
  | stopped (h : s.outputTask = .waiting) : OutputStep s { s with outputTask := .ended }
  | took {msg : Option ChannelMsg} (h : s.outputTask = .waiting) (hc : s.cancelled = false) :
      OutputStep s { s with messages := s.messages ++ msg.toList, outputTask := afterWait msg }
  | tookResize {cols rows resize} (h : s.outputTask = .waiting) (hc : s.cancelled = false) :
      OutputStep s { s with resize := resize, outputTask := .resizing cols rows }
  | sent {data output} (h : s.outputTask = .sending data)
      (hs : Channel.Sends s.output data output) :
      OutputStep s { s with output := output, outputTask := .waiting }
  | abandoned {data} (h : s.outputTask = .sending data) :
      OutputStep s { s with outputTask := .ended }
  | resized {cols rows changes} (h : s.outputTask = .resizing cols rows) :
      OutputStep s { s with windowChanges := changes, outputTask := .waiting }

inductive Transition (s : PtySession) : Task → PtySession → Task → Prop where
  | input {s'} (h : InputStep s s') : Transition s .input s' .input
  | output {s'} (h : OutputStep s s') : Transition s .output s' .output
  | inserted : Transition s .insert { s with registered := true }.letGo .finished
  | removed (h : s.registered = true) :
      Transition s .remove { s with registered := false, cancelled := true } .finished
  | nothingRemoved : Transition s .remove s .finished
  | displaced : Transition s .displace { s with registered := false } .finished
  | writes {data} : Transition s (.writeToPty data) s.hold (.sendingInput data)
  | reads {maxBytes} : Transition s (.readPtyBurst maxBytes) s.hold (.lockingOutput maxBytes)
  | resizes {cols rows} : Transition s (.resizePty cols rows) s.hold (.sendingResize cols rows)
  | handedOut : Transition s .getPtySession s.hold .holding
  | notFound {t message} (h : starts t = true) : Transition s t s (.failed message)
  | inputClosed {data message} : Transition s (.sendingInput data) s.letGo (.failed message)
  | queued {data input} (h : Channel.Sends s.input data input) :
      Transition s (.sendingInput data) { s with input := input }.letGo (.wrote data)
  | locked {maxBytes} (h : s.reading = none) :
      Transition s (.lockingOutput maxBytes) { s with reading := some ⟨maxBytes, []⟩ } .bursting
  | received {b data output} (h : s.reading = some b)
      (hb : b.chunks = [] ∨ b.data.length < b.maxBytes)
      (hr : Channel.Receives s.output data output) :
      Transition s .bursting { s with output := output, reading := some (b.add data) } .bursting
  | outputClosed {message b} (h : s.reading = some b) (hb : b.chunks = []) :
      Transition s .bursting { s with reading := none }.letGo (.failed message)
  | ended {b} (h : s.reading = some b) (hb : b.chunks ≠ []) :
      Transition s .bursting (endBurst s b).1 (.burst b)
  | resizeClosed {cols rows message} :
      Transition s (.sendingResize cols rows) s.letGo (.failed message)
  | resizeQueued {cols rows resize} :
      Transition s (.sendingResize cols rows) { s with resize := resize }.letGo .finished
  | gaveBack : Transition s .holding s.letGo .finished

variable {s s' : PtySession} {t t' : Task} {e : Event}

theorem stepInput_cases (h : stepInput s e = some s') : InputStep s s' := by
  unfold stepInput at h
  cases ht : s.inputTask with
  | waiting =>
    simp only [ht] at h
    split at h
    · rename_i hc
      exact Option.some.inj h ▸ .stopped ht (.inl hc)
    · rename_i hc
      cases hrecv : s.input.recv with
      | none =>
        simp only [hrecv] at h
        split at h
        · cases h
        · exact Option.some.inj h ▸ .stopped ht (.inr (Channel.recv_eq_none.mp hrecv))
      | some r =>
        simp only [hrecv] at h
        exact Option.some.inj h ▸ .took ht (by simpa using hc) (Channel.recv_some hrecv)
  | writing data =>
    simp only [ht] at h
    cases hw : e.write with
    | ok u =>
      simp only [hw] at h
      exact Option.some.inj h ▸ .wrote ht
    | error n =>
      simp only [hw] at h
      exact Option.some.inj h ▸ .brokeOff ht
  | flushing =>
    simp only [ht] at h
    cases hf : e.flush with
    | ok u =>
      simp only [hf] at h
      exact Option.some.inj h ▸ .flushed ht
    | error u =>
      simp only [hf] at h
      exact Option.some.inj h ▸ .flushFailed ht
  | ended => simp [ht] at h

theorem stepOutput_cases (h : stepOutput s e = some s') : OutputStep s s' := by
  unfold stepOutput at h
  cases ht : s.outputTask with
  | waiting =>
    simp only [ht] at h
    split at h
    · exact Option.some.inj h ▸ .stopped ht
    · rename_i hc
      have hc : s.cancelled = false := by simpa using hc
      cases hm : e.message with
      | some msg =>
        simp only [hm] at h
        exact Option.some.inj h ▸ .took ht hc
      | none =>
        simp only [hm] at h
        cases hrecv : s.resize.recv with
        | none =>
          simp only [hrecv] at h
          split at h
          · cases h
          · exact Option.some.inj h ▸ .stopped ht
        | some r =>
          simp only [hrecv] at h
          exact Option.some.inj h ▸ .tookResize ht hc
  | sending data =>
    simp only [ht] at h
    split at h
    · obtain ⟨output, hsend, rfl⟩ := Option.map_eq_some_iff.mp h
      exact .sent ht (Channel.send_some hsend)
    · exact Option.some.inj h ▸ .abandoned ht
  | resizing cols rows =>
    simp only [ht] at h
    cases hw : e.windowChange with
    | ok u =>
      simp only [hw] at h
      exact Option.some.inj h ▸ .resized ht
    | error u =>
      simp only [hw] at h
      exact Option.some.inj h ▸ .resized ht
  | ended => simp [ht] at h

/-- A call that begins holds the session, or has failed. -/
theorem withSession_cases {next : Task} (h : withSession s next = some (s', t')) :
    (s' = s.hold ∧ t' = next) ∨ (s' = s ∧ ∃ message, t' = .failed message) := by
  unfold withSession at h
  split at h
  · exact .inl ⟨(Prod.mk.inj (Option.some.inj h)).1.symm, (Prod.mk.inj (Option.some.inj h)).2.symm⟩
  · obtain ⟨rfl, rfl⟩ := Prod.mk.inj (Option.some.inj h)
    exact .inr ⟨rfl, _, rfl⟩

theorem step_transition (h : step s t e = some (s', t')) : Transition s t s' t' := by
  cases t with
  | input =>
    obtain ⟨s', hs, hp⟩ := Option.map_eq_some_iff.mp h
    obtain ⟨rfl, rfl⟩ := Prod.mk.inj hp
    exact .input (stepInput_cases hs)
  | output =>
    obtain ⟨s', hs, hp⟩ := Option.map_eq_some_iff.mp h
    obtain ⟨rfl, rfl⟩ := Prod.mk.inj hp
    exact .output (stepOutput_cases hs)
  | insert =>
    obtain ⟨rfl, rfl⟩ := Prod.mk.inj (Option.some.inj h)
    exact .inserted
  | remove =>
    obtain ⟨rfl, rfl⟩ := Prod.mk.inj (Option.some.inj h)
    split
    · rename_i hreg
      exact .removed hreg
    · exact .nothingRemoved
  | displace =>
    obtain ⟨rfl, rfl⟩ := Prod.mk.inj (Option.some.inj h)
    exact .displaced
  | writeToPty data =>
    obtain ⟨rfl, rfl⟩ | ⟨rfl, message, rfl⟩ := withSession_cases h
    · exact .writes
    · exact .notFound rfl
  | readPtyBurst maxBytes =>
    obtain ⟨rfl, rfl⟩ | ⟨rfl, message, rfl⟩ := withSession_cases h
    · exact .reads
    · exact .notFound rfl
  | resizePty cols rows =>
    obtain ⟨rfl, rfl⟩ | ⟨rfl, message, rfl⟩ := withSession_cases h
    · exact .resizes
    · exact .notFound rfl
  | getPtySession =>
    obtain ⟨rfl, rfl⟩ | ⟨rfl, message, rfl⟩ := withSession_cases h
    · exact .handedOut
    · exact .notFound rfl
  | sendingInput data =>
    simp only [step] at h
    split at h
    · obtain ⟨rfl, rfl⟩ := Prod.mk.inj (Option.some.inj h)
      exact .inputClosed
    · obtain ⟨input, hsend, hp⟩ := Option.map_eq_some_iff.mp h
      obtain ⟨rfl, rfl⟩ := Prod.mk.inj hp
      exact .queued (Channel.send_some hsend)
  | lockingOutput maxBytes =>
    cases hr : s.reading with
    | some b => simp [step, hr] at h
    | none =>
      simp only [step, hr] at h
      obtain ⟨rfl, rfl⟩ := Prod.mk.inj (Option.some.inj h)
      exact .locked hr
  | bursting =>
    cases hr : s.reading with
    | none => simp [step, hr] at h
    | some b =>
      simp only [step, hr] at h
      split at h
      · rename_i hempty
        have hempty : b.chunks = [] := by simpa using hempty
        split at h
        · rename_i hrecv
          obtain ⟨rfl, rfl⟩ := Prod.mk.inj (Option.some.inj h)
          exact .received hr (.inl hempty) (Channel.recv_some hrecv)
        · split at h
          · obtain ⟨rfl, rfl⟩ := Prod.mk.inj (Option.some.inj h)
            exact .outputClosed hr hempty
          · cases h
      · rename_i hsome
        have hsome : b.chunks ≠ [] := by simpa using hsome
        split at h
        · rename_i hb
          split at h
          · rename_i hrecv
            obtain ⟨rfl, rfl⟩ := Prod.mk.inj (Option.some.inj h)
            exact .received hr (.inr hb) (Channel.recv_some hrecv)
          · obtain ⟨rfl, rfl⟩ := Prod.mk.inj (Option.some.inj h)
            exact .ended hr hsome
        · obtain ⟨rfl, rfl⟩ := Prod.mk.inj (Option.some.inj h)
          exact .ended hr hsome
  | sendingResize cols rows =>
    simp only [step] at h
    split at h
    · obtain ⟨rfl, rfl⟩ := Prod.mk.inj (Option.some.inj h)
      exact .resizeClosed
    · obtain ⟨resize, -, hp⟩ := Option.map_eq_some_iff.mp h
      obtain ⟨rfl, rfl⟩ := Prod.mk.inj hp
      exact .resizeQueued
  | holding =>
    obtain ⟨rfl, rfl⟩ := Prod.mk.inj (Option.some.inj h)
    exact .gaveBack
  | wrote | burst | finished | failed => cases h

end SshCommander.PtyStreams
