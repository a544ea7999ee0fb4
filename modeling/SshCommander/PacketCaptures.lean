import Mathlib.Data.List.AList
import SshCommander.BoundedChannels
import SshCommander.InterleavedTasks
import SshCommander.StreamedLines
import SshCommander.Tcpdump

/-!
# Captures that run beside each other

Every capture has a task that reads its SSH channel line by line and a task that forwards the
lines to the event bus, with a bounded channel between them; the registry is shared with the calls
of `start` and `stop`.
-/

namespace SshCommander.PacketCaptures
open InterleavedTasks InterleavedTasks.TaskSystem BoundedChannels RustText Utf8Lossy RemoteCommands
open StreamedLines Tcpdump

inductive StreamTask where
  | selecting
  /-- It sends the complete lines of one buffer (`true` for stderr). -/
  | draining (stderr : Bool)
  /-- The output is over, and the last lines are sent. -/
  | finishing (lines : List Text)
  | ended
  deriving DecidableEq, Repr

structure Stream where
  command : Text
  lines : Channel Text 256
  /-- What was taken off the SSH channel. -/
  messages : List ChannelMsg
  stdoutBuf : Text
  stderrBuf : Text
  task : StreamTask
  cancelled : Bool
  /-- Whether the receiver of the lines is gone. -/
  dropped : Bool

namespace Stream

def new (command : Text) : Stream := ⟨command, .empty, [], [], [], .selecting, false, false⟩

def buffer (s : Stream) (stderr : Bool) : Text := if stderr then s.stderrBuf else s.stdoutBuf

def setBuffer (s : Stream) (stderr : Bool) (text : Text) : Stream :=
  if stderr then { s with stderrBuf := text } else { s with stdoutBuf := text }

end Stream

/-- The first complete line of a buffer with its newline, and what follows it. -/
def firstLine : Text → Option (Text × Text)
  | [] => none
  | c :: rest =>
    if c = '\n' then some ([c], rest) else (firstLine rest).map fun (line, rest) => (c :: line, rest)

def Stream.take (s : Stream) (msg : Option ChannelMsg) : Stream :=
  let s := { s with messages := s.messages ++ msg.toList }
  match msg with
  | some (.data data) =>
    { s with stdoutBuf := s.stdoutBuf ++ fromUtf8Lossy data, task := .draining false }
  | some (.extendedData _ data) =>
    { s with stderrBuf := s.stderrBuf ++ fromUtf8Lossy data, task := .draining true }
  | none | some .eof | some .close =>
    { s with task := .finishing (lastLine s.stdoutBuf ++ (lastLine s.stderrBuf).map mark) }
  | some (.exitStatus _) | some .other => { s with task := .selecting }

/-- One step of the streaming task. The select is not biased: a message that is there may be taken
before the token is seen. `message` is `none` while `wait()` has nothing. -/
def stepStream (s : Stream) (message : Option (Option ChannelMsg)) : Option Stream :=
  match s.task with
  | .selecting =>
    match message with
    | some msg => some (s.take msg)
    | none => if s.cancelled then some { s with task := .ended } else none
  | .draining stderr =>
    match firstLine (s.buffer stderr) with
    | none => some { s with task := .selecting }
    | some (line, rest) =>
      let s := s.setBuffer stderr rest
      if s.dropped then some { s with cancelled := true, task := .selecting }
      else (s.lines.send (encode (stderr, trimEnds line))).map fun ch => { s with lines := ch }
  | .finishing (line :: rest) =>
    if s.dropped then some { s with task := .finishing rest }
    else (s.lines.send line).map fun ch => { s with lines := ch, task := .finishing rest }
  | .finishing [] => some { s with task := .ended }
  | .ended => none

/-- The registry, the streams in the order in which they were opened, and what was published. The
map holds the stream whose token it has. -/
structure Captures where
  nextId : UInt64
  captures : AList fun _ : UInt64 => ℕ
  streams : List Stream
  events : List TcpdumpLine

namespace Captures

def new : Captures := ⟨1, ∅, [], []⟩

def setStream (c : Captures) (k : ℕ) (s : Stream) : Captures :=
  { c with streams := c.streams.set k s }

end Captures

structure Event where
  opened : Except SshError Unit
  stream : ℕ
  message : Option (Option ChannelMsg)

/-- Where a call stands. A `start` that has returned goes on as the task that it has spawned, and
`runtime` runs the streaming tasks. -/
inductive Task where
  | runtime
  | start (interface filter : Text) (snaplen : Option UInt32)
  | numbering (k : ℕ)
  | registering (k : ℕ) (id : UInt64)
  | forwarding (k : ℕ) (id : UInt64)
  | forgetting (k : ℕ) (id : UInt64)
  | ended (k : ℕ) (id : UInt64)
  | stop (id : UInt64)
  | cancelling (id : UInt64) (k : ℕ)
  | stopped (id : UInt64)
  | failed (e : ToolsError)
  deriving DecidableEq, Repr

def starts : Task → Bool
  | .start .. | .stop _ => true
  | _ => false

def step (c : Captures) (t : Task) (e : Event) : Option (Captures × Task) :=
  match t with
  | .runtime =>
    (c.streams[e.stream]?).bind fun s =>
      (stepStream s e.message).map fun s => (c.setStream e.stream s, .runtime)
  | .start interface filter snaplen =>
    match validateInterface interface with
    | .error err => some (c, .failed err)
    | .ok () =>
      match validateFilter filter with
      | .error err => some (c, .failed err)
      | .ok () =>
        match e.opened with
        | .error err => some (c, .failed (.sshExec (errorText err)))
        | .ok () =>
          let s := Stream.new (tcpdumpCommand interface filter snaplen)
          some ({ c with streams := c.streams ++ [s] }, .numbering c.streams.length)
  | .numbering k => some ({ c with nextId := c.nextId + 1 }, .registering k c.nextId)
  | .registering k id => some ({ c with captures := c.captures.insert id k }, .forwarding k id)
  | .forwarding k id =>
    (c.streams[k]?).bind fun s =>
      match s.lines.recv with
      | some (line, ch) =>
        let c := { c with events := c.events ++ forward id [line] }
        some (c.setStream k { s with lines := ch }, .forwarding k id)
      | none => if s.task = .ended then some (c, .forgetting k id) else none
  | .forgetting k id =>
    (c.streams[k]?).map fun s =>
      let c := { c with captures := c.captures.erase id }
      (c.setStream k { s with dropped := true }, .ended k id)
  | .stop id =>
    match c.captures.lookup id with
    | some k => some ({ c with captures := c.captures.erase id }, .cancelling id k)
    | none => some (c, .failed (.captureNotFound id))
  | .cancelling id k =>
    (c.streams[k]?).map fun s => (c.setStream k { s with cancelled := true }, .stopped id)
  | .ended .. | .stopped _ | .failed _ => none

def tcpdump : TaskSystem Captures Task Event := ⟨starts, step⟩

def idle : Config Captures Task := ⟨.new, [.runtime]⟩

variable {s s' : Stream} {message : Option (Option ChannelMsg)}

theorem drainLines_firstLine (text done : Text) :
    drainLines done text = (firstLine text).elim ([], done ++ text) fun (line, rest) =>
      (trimEnds (done ++ line) :: (drainLines [] rest).1, (drainLines [] rest).2) := by
  induction text generalizing done with
  | nil => simp [drainLines, firstLine]
  | cons c rest ih =>
    rw [drainLines, firstLine]
    split
    · rfl
    · rw [ih]
      cases firstLine rest <;> simp

theorem drainLines_some {text line rest : Text} (h : firstLine text = some (line, rest)) :
    drainLines [] text = (trimEnds line :: (drainLines [] rest).1, (drainLines [] rest).2) := by
  rw [drainLines_firstLine, h]
  rfl

theorem drainLines_none {text : Text} (h : firstLine text = none) :
    drainLines [] text = ([], text) := by
  rw [drainLines_firstLine, h]
  rfl

inductive StreamStep (s : Stream) : Stream → Prop where
  | took {msg} (h : s.task = .selecting) : StreamStep s (s.take msg)
  | stopped (h : s.task = .selecting) (hc : s.cancelled = true) :
      StreamStep s { s with task := .ended }
  | drained {b} (h : s.task = .draining b) (hl : firstLine (s.buffer b) = none) :
      StreamStep s { s with task := .selecting }
  | sent {b line rest ch} (h : s.task = .draining b)
      (hl : firstLine (s.buffer b) = some (line, rest))
      (hs : Channel.Sends s.lines (encode (b, trimEnds line)) ch) :
      StreamStep s { s.setBuffer b rest with lines := ch }
  | refused {b line rest} (h : s.task = .draining b) (hd : s.dropped = true)
      (hl : firstLine (s.buffer b) = some (line, rest)) :
      StreamStep s { s.setBuffer b rest with cancelled := true, task := .selecting }
  | sentLast {line rest ch} (h : s.task = .finishing (line :: rest))
      (hs : Channel.Sends s.lines line ch) :
      StreamStep s { s with lines := ch, task := .finishing rest }
  | refusedLast {line rest} (h : s.task = .finishing (line :: rest)) (hd : s.dropped = true) :
      StreamStep s { s with task := .finishing rest }
  | finished (h : s.task = .finishing []) : StreamStep s { s with task := .ended }

@[simp] theorem setBuffer_lines (b : Bool) (text : Text) :
    (s.setBuffer b text).lines = s.lines := by
  cases b <;> rfl

@[simp] theorem setBuffer_dropped (b : Bool) (text : Text) :
    (s.setBuffer b text).dropped = s.dropped := by
  cases b <;> rfl

@[simp] theorem setBuffer_messages (b : Bool) (text : Text) :
    (s.setBuffer b text).messages = s.messages := by
  cases b <;> rfl

@[simp] theorem setBuffer_task (b : Bool) (text : Text) :
    (s.setBuffer b text).task = s.task := by
  cases b <;> rfl

theorem stepStream_cases (h : stepStream s message = some s') : StreamStep s s' := by
  unfold stepStream at h
  cases ht : s.task with
  | selecting =>
    cases message with
    | some msg =>
      simp only [ht] at h
      exact Option.some.inj h ▸ .took ht
    | none =>
      simp only [ht] at h
      split at h
      · rename_i hc
        exact Option.some.inj h ▸ .stopped ht hc
      · cases h
  | draining b =>
    cases hl : firstLine (s.buffer b) with
    | none =>
      simp only [ht, hl] at h
      exact Option.some.inj h ▸ .drained ht hl
    | some p =>
      simp only [ht, hl] at h
      split at h
      · rename_i hd
        exact Option.some.inj h ▸ .refused ht (by simpa using hd) hl
      · obtain ⟨ch, hsend, rfl⟩ := Option.map_eq_some_iff.mp h
        exact .sent ht hl (by simpa using Channel.send_some hsend)
  | finishing lines =>
    cases lines with
    | nil =>
      simp only [ht] at h
      exact Option.some.inj h ▸ .finished ht
    | cons line rest =>
      simp only [ht] at h
      split at h
      · rename_i hd
        exact Option.some.inj h ▸ .refusedLast ht hd
      · obtain ⟨ch, hsend, rfl⟩ := Option.map_eq_some_iff.mp h
        exact .sentLast ht (Channel.send_some hsend)
  | ended => simp [ht] at h

/-- What the task is to send of the messages taken so far and of `tail`; the token is seen when it
has taken as many of these as `k` says. -/
def Stream.whole (s : Stream) (k : Option ℕ) (tail : List ChannelMsg) : List Text :=
  streamTask (k.map (· + s.messages.length)) (s.messages ++ tail) [] []

def Stream.ahead (s : Stream) (k : Option ℕ) (tail : List ChannelMsg) : List Text :=
  streamTask k tail s.stdoutBuf s.stderrBuf

/-- The task of an ended stream has sent what it was to send, up to the end of the output or up to
where it saw the token. -/
def Final (s : Stream) : Prop :=
  ∃ cancelAt, (cancelAt = none ∨ cancelAt = some s.messages.length ∧ s.cancelled = true) ∧
    s.lines.sent = streamTask cancelAt s.messages [] []

inductive Framed (s : Stream) : Prop where
  | selecting (h : s.task = .selecting)
      (hf : ∀ k tail, s.whole k tail = s.lines.sent ++ s.ahead k tail)
  | draining {b} (h : s.task = .draining b)
      (hf : ∀ k tail, s.whole k tail =
        s.lines.sent ++ (drainLines [] (s.buffer b)).1.map (fun line => encode (b, line)) ++
          (s.setBuffer b (drainLines [] (s.buffer b)).2).ahead k tail)
  | finishing {lines} (h : s.task = .finishing lines)
      (hf : s.whole none [] = s.lines.sent ++ lines)
  | ended (h : s.task = .ended) (hf : Final s) (hp : s.lines.sent <+: s.whole none [])

theorem Framed.sent_whole (h : Framed s) : s.lines.sent <+: s.whole none [] := by
  cases h with
  | selecting _ hf =>
    rw [hf]
    exact List.prefix_append _ _
  | draining _ hf =>
    rw [hf, List.append_assoc]
    exact List.prefix_append _ _
  | finishing _ hf =>
    rw [hf]
    exact List.prefix_append _ _
  | ended _ _ hp => exact hp

theorem Framed.final (h : Framed s) (ht : s.task = .ended) : Final s := by
  cases h with
  | ended _ hf => exact hf
  | selecting h | draining h | finishing h => rw [h] at ht; cases ht

/-- One more message: what is to be sent is what is to be sent with the message ahead. -/
theorem whole_message (m : ChannelMsg) (k : Option ℕ) (tail : List ChannelMsg)
    (hm : s'.messages = s.messages ++ [m]) : s'.whole k tail = s.whole (k.map (· + 1)) (m :: tail) := by
  have hcount : k.map (· + (s.messages ++ [m]).length) =
      (k.map (· + 1)).map (· + s.messages.length) := by
    cases k with
    | none => rfl
    | some n => simp [Nat.add_comm, Nat.add_left_comm]
  rw [Stream.whole, Stream.whole, hm, hcount, List.append_assoc]
  rfl

theorem framed_take (hf : ∀ k tail, s.whole k tail = s.lines.sent ++ s.ahead k tail) (msg : Option ChannelMsg) :
    Framed (s.take msg) := by
  have hpred (k : Option ℕ) : (k.map (· + 1)).map (· - 1) = k := by
    cases k <;> rfl
  have hmessage (m : ChannelMsg) (k : Option ℕ) (tail : List ChannelMsg)
      (hm : (s.take (some m)).messages = s.messages ++ [m]) :
      (s.take (some m)).whole k tail =
        s.lines.sent ++ s.ahead (k.map (· + 1)) (m :: tail) := by
    rw [whole_message m k tail hm, hf]
  cases msg with
  | none =>
    refine .finishing rfl ?_
    have hwhole := hf none []
    simpa [Stream.take, Stream.whole, Stream.ahead, streamTask] using hwhole
  | some m =>
    cases m with
    | data data =>
      refine .draining (b := false) rfl fun k tail => ?_
      rw [hmessage _ k tail rfl, List.append_assoc]
      congr 1
      cases k <;> simp [Stream.ahead, streamTask, Stream.take, Stream.buffer, Stream.setBuffer,
        encode]
    | extendedData ext data =>
      refine .draining (b := true) rfl fun k tail => ?_
      rw [hmessage _ k tail rfl, List.append_assoc]
      congr 1
      cases k <;> simp [Stream.ahead, streamTask, Stream.take, Stream.buffer, Stream.setBuffer,
        encode]
    | eof => exact .finishing rfl (hmessage _ none [] rfl)
    | close => exact .finishing rfl (hmessage _ none [] rfl)
    | exitStatus code =>
      refine .selecting rfl fun k tail => ?_
      rw [hmessage _ k tail rfl]
      cases k <;> simp [Stream.ahead, streamTask, Stream.take]
    | other =>
      refine .selecting rfl fun k tail => ?_
      rw [hmessage _ k tail rfl]
      cases k <;> simp [Stream.ahead, streamTask, Stream.take]

theorem Framed.step (h : Framed s) (hd : s.dropped = false) (hstep : StreamStep s s') :
    Framed s' := by
  cases hstep with
  | took ht =>
    cases h with
    | selecting _ hf => exact framed_take hf _
    | draining h | finishing h | ended h => rw [h] at ht; cases ht
  | stopped ht hc =>
    cases h with
    | selecting _ hf =>
      have hcut := hf (some 0) []
      refine .ended rfl ⟨some s.messages.length, .inr ⟨rfl, hc⟩, ?_⟩ ?_
      · simpa [Stream.whole, Stream.ahead, streamTask] using hcut.symm
      · rw [show Stream.whole { s with task := .ended } none [] = _ from hf none []]
        exact List.prefix_append _ _
    | draining h | finishing h | ended h => rw [h] at ht; cases ht
  | @drained b ht hl =>
    cases h with
    | @draining b' h hf =>
      obtain rfl : b = b' := by simpa [ht] using h
      refine .selecting rfl fun k tail => (hf k tail).trans ?_
      rw [drainLines_none hl, List.map_nil, List.append_nil]
      congr 1
      cases b <;> rfl
    | selecting h | finishing h | ended h => rw [h] at ht; cases ht
  | @sent b line rest ch ht hl hs =>
    cases h with
    | @draining b' h hf =>
      obtain rfl : b = b' := by simpa [ht] using h
      refine .draining (b := b) (by simpa using ht) fun k tail => ?_
      refine Eq.trans ?_ ((hf k tail).trans ?_)
      · cases b <;> rfl
      · rw [drainLines_some hl, hs.sent]
        cases b <;>
          simp [Stream.buffer, Stream.setBuffer, Stream.ahead]
    | selecting h | finishing h | ended h => rw [h] at ht; cases ht
  | refused _ hgone => rw [hd] at hgone; cases hgone
  | @sentLast line rest ch ht hs =>
    cases h with
    | @finishing lines h hf =>
      obtain rfl : line :: rest = lines := by simpa [ht] using h
      refine .finishing rfl (hf.trans ?_)
      rw [hs.sent, List.append_assoc]
      rfl
    | selecting h | draining h | ended h => rw [h] at ht; cases ht
  | refusedLast _ hgone => rw [hd] at hgone; cases hgone
  | finished ht =>
    cases h with
    | @finishing lines h hf =>
      obtain rfl : [] = lines := by simpa [ht] using h
      rw [List.append_nil] at hf
      refine .ended rfl ⟨none, .inl rfl, ?_⟩ ?_
      · simpa [Stream.whole] using hf.symm
      · rw [← hf]
        exact List.prefix_rfl
    | selecting h | draining h | ended h => rw [h] at ht; cases ht

theorem framed_new (command : Text) : Framed (.new command) := by
  refine .selecting rfl fun k tail => ?_
  cases k <;> rfl

theorem Framed.cancel (h : Framed s) : Framed { s with cancelled := true } := by
  cases h with
  | selecting h hf => exact .selecting h hf
  | @draining b h hf => exact .draining h (by cases b <;> exact hf)
  | finishing h hf => exact .finishing h hf
  | ended h hf hp =>
    obtain ⟨cancelAt, hcut, hsent⟩ := hf
    exact .ended h ⟨cancelAt, hcut.imp_right fun h => ⟨h.1, rfl⟩, hsent⟩ hp

theorem Framed.drop (h : Framed s) : Framed { s with dropped := true } := by
  cases h with
  | selecting h hf => exact .selecting h hf
  | @draining b h hf => exact .draining h (by cases b <;> exact hf)
  | finishing h hf => exact .finishing h hf
  | ended h hf hp => exact .ended h hf hp

theorem Framed.receive {line : Text} {ch : Channel Text 256} (h : Framed s)
    (hr : Channel.Receives s.lines line ch) : Framed { s with lines := ch } := by
  cases h with
  | selecting h hf => exact .selecting h fun k tail => (hf k tail).trans (by rw [hr.sent]; rfl)
  | @draining b h hf =>
    refine .draining h fun k tail => (hf k tail).trans ?_
    rw [hr.sent]
    cases b <;> rfl
  | finishing h hf => exact .finishing h (hf.trans (by rw [hr.sent]))
  | ended h hf hp =>
    obtain ⟨cancelAt, hcut, hsent⟩ := hf
    exact .ended h ⟨cancelAt, hcut, hr.sent.trans hsent⟩ (by rw [hr.sent]; exact hp)

/-- A task that can still move has not ended. -/
theorem StreamStep.not_ended (h : StreamStep s s') : s.task ≠ .ended := by
  cases h <;> simp_all

theorem StreamStep.receiver_side (h : StreamStep s s') :
    s'.dropped = s.dropped ∧ s'.lines.received = s.lines.received := by
  cases h with
  | @took msg =>
    cases msg with
    | none => exact ⟨rfl, rfl⟩
    | some m => cases m <;> exact ⟨rfl, rfl⟩
  | sent _ _ hs => exact ⟨setBuffer_dropped _ _, hs.received⟩
  | refused => exact ⟨setBuffer_dropped _ _, by rw [setBuffer_lines]⟩
  | sentLast _ hs => exact ⟨rfl, hs.received⟩
  | stopped | drained | refusedLast | finished => exact ⟨rfl, rfl⟩

end SshCommander.PacketCaptures
