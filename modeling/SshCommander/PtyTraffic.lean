import Mathlib.Data.List.Infix
import SshCommander.PtyStreams

/-!
# What a terminal types and shows

The bytes that reach the SSH channel are those of the accepted writes, in the order in which they
were accepted, and the bursts that are read are the output of the channel, cut in pieces.
-/

namespace SshCommander.PtyTraffic
open InterleavedTasks InterleavedTasks.TaskSystem BoundedChannels PtyStreams RemoteCommands

variable {s s' : PtySession} {t t' : Task} {c c' d : Config PtySession Task}
  {a : Action Task Event} {as bs : List (Action Task Event)} {b : Burst}

def accepted : Task → Option Bytes
  | .wrote data => some data
  | _ => none

def returned : Task → Option Burst
  | .burst b => some b
  | _ => none

/-- What was taken out of the input channel has been written, or is in hand. -/
structure InputFlow (s : PtySession) : Prop where
  running : s.inputTask ≠ .ended → s.written ++ s.inputTask.inHand = s.input.received.flatten
  wire : s.written <+: s.input.received.flatten

theorem InputFlow.congr (h : InputFlow s) (ht : s'.inputTask = s.inputTask)
    (hw : s'.written = s.written) (hi : s'.input.received = s.input.received) : InputFlow s' :=
  ⟨by rw [ht, hw, hi]; exact h.running, by rw [hw, hi]; exact h.wire⟩

theorem InputFlow.inputStep (h : InputFlow s) (hstep : InputStep s s') : InputFlow s' := by
  cases hstep with
  | stopped | flushFailed => exact ⟨fun hne => absurd rfl hne, h.wire⟩
  | @took data input ht hc hr =>
    have hrun := h.running (by simp [ht])
    rw [ht, InputTask.inHand, List.append_nil] at hrun
    have hrecv : input.received.flatten = s.written ++ data := by
      rw [hr.received, List.flatten_append, ← hrun, List.flatten_singleton]
    exact ⟨fun _ => hrecv.symm, ⟨data, hrecv.symm⟩⟩
  | @wrote data ht =>
    have hrun := h.running (by simp [ht])
    rw [ht, InputTask.inHand] at hrun
    exact ⟨fun _ => by rw [InputTask.inHand, List.append_nil, hrun], by rw [hrun]⟩
  | @brokeOff data n ht =>
    have hrun := h.running (by simp [ht])
    rw [ht, InputTask.inHand] at hrun
    refine ⟨fun hne => absurd rfl hne, ?_⟩
    rw [← hrun]
    exact (List.prefix_append_right_inj s.written).mpr (List.take_prefix n data)
  | flushed ht =>
    have hrun := h.running (by simp [ht])
    rw [ht] at hrun
    exact ⟨fun _ => hrun, h.wire⟩

theorem InputFlow.transition (h : InputFlow s) (hstep : Transition s t s' t') : InputFlow s' := by
  cases hstep with
  | input hi => exact h.inputStep hi
  | output ho => cases ho <;> exact h.congr rfl rfl rfl
  | queued hq => exact h.congr rfl rfl hq.received
  | _ => exact h.congr rfl rfl rfl

/-- The burst got no chunk after it had enough. -/
def Sized (b : Burst) : Prop :=
  b.chunks ≠ [] ∧ (b.chunks.dropLast = [] ∨ b.chunks.dropLast.flatten.length < b.maxBytes)

/-- What the messages brought is in the output channel or in hand, and what was received from the
channel was returned, or belongs to the burst that is read. -/
structure OutputFlow (s : PtySession) : Prop where
  running : s.outputTask ≠ .ended →
    s.output.sent ++ s.outputTask.inHand = s.messages.filterMap payload
  forwarded : s.output.sent <+: s.messages.filterMap payload
  shown : s.bursts.flatMap Burst.data ++ (s.reading.elim [] Burst.data) =
    s.output.received.flatten
  sized : ∀ b ∈ s.bursts, Sized b
  filling : ∀ b, s.reading = some b → b.chunks = [] ∨ Sized b

theorem OutputFlow.congr (h : OutputFlow s) (ht : s'.outputTask = s.outputTask)
    (ho : s'.output = s.output) (hm : s'.messages = s.messages) (hb : s'.bursts = s.bursts)
    (hr : s'.reading = s.reading) : OutputFlow s' := by
  refine ⟨?_, ?_, ?_, ?_, ?_⟩
  · rw [ht, ho, hm]
    exact h.running
  · rw [ho, hm]
    exact h.forwarded
  · rw [hb, hr, ho]
    exact h.shown
  · rw [hb]
    exact h.sized
  · rw [hr]
    exact h.filling

/-- What the output task has in hand after a message. -/
theorem afterWait_inHand (msg : Option ChannelMsg) :
    (afterWait msg).inHand = msg.toList.filterMap payload := by
  cases msg with
  | none => rfl
  | some msg => cases msg <;> rfl

theorem OutputFlow.outputStep (h : OutputFlow s) (hstep : OutputStep s s') : OutputFlow s' := by
  cases hstep with
  | stopped | abandoned =>
    exact ⟨fun hne => absurd rfl hne, h.forwarded, h.shown, h.sized, h.filling⟩
  | @took msg ht hc =>
    have hrun := h.running (by simp [ht])
    rw [ht, OutputTask.inHand, List.append_nil] at hrun
    refine ⟨fun _ => ?_, ?_, h.shown, h.sized, h.filling⟩
    · rw [afterWait_inHand, List.filterMap_append, ← hrun]
    · rw [List.filterMap_append, ← hrun]
      exact List.prefix_append _ _
  | tookResize ht | resized ht =>
    have hrun := h.running (by simp [ht])
    rw [ht] at hrun
    exact ⟨fun _ => hrun, h.forwarded, h.shown, h.sized, h.filling⟩
  | @sent data output ht hs =>
    have hrun := h.running (by simp [ht])
    rw [ht, OutputTask.inHand] at hrun
    refine ⟨fun _ => ?_, ?_, ?_, h.sized, h.filling⟩
    · rw [hs.sent, hrun, OutputTask.inHand, List.append_nil]
    · rw [hs.sent, hrun]
    · rw [hs.received]
      exact h.shown

/-- A chunk is added only while there are none or fewer bytes than wanted. -/
theorem sized_add (hb : b.chunks = [] ∨ b.data.length < b.maxBytes) (chunk : Bytes) :
    Sized (b.add chunk) := by
  refine ⟨by simp [Burst.add], ?_⟩
  rw [Burst.add, List.dropLast_concat]
  exact hb

theorem OutputFlow.transition (h : OutputFlow s) (hstep : Transition s t s' t') :
    OutputFlow s' := by
  cases hstep with
  | input hi => cases hi <;> exact h.congr rfl rfl rfl rfl rfl
  | output ho => exact h.outputStep ho
  | locked hr =>
    have hshown := h.shown
    rw [hr] at hshown
    exact ⟨h.running, h.forwarded, hshown, h.sized, fun b hb => .inl (Option.some.inj hb ▸ rfl)⟩
  | @received b data output hr hb hrecv =>
    have hshown := h.shown
    rw [hr, Option.elim_some] at hshown
    refine ⟨?_, ?_, ?_, h.sized, fun b' hb' => .inr (Option.some.inj hb' ▸ sized_add hb data)⟩
    · rw [hrecv.sent]
      exact h.running
    · rw [hrecv.sent]
      exact h.forwarded
    · rw [hrecv.received, List.flatten_append, ← hshown, Option.elim_some, Burst.add, Burst.data,
        List.flatten_append, List.append_assoc]
      rfl
  | @outputClosed message b hr hb =>
    have hshown := h.shown
    rw [hr, Option.elim_some, Burst.data, hb] at hshown
    exact ⟨h.running, h.forwarded, hshown, h.sized, fun b' hb' => by cases hb'⟩
  | @ended b hr hb =>
    have hshown := h.shown
    rw [hr, Option.elim_some] at hshown
    refine ⟨h.running, h.forwarded, ?_, ?_, fun b' hb' => by cases hb'⟩
    · simp only [endBurst, PtySession.letGo, List.flatMap_append, List.flatMap_singleton,
        Option.elim_none, List.append_nil]
      exact hshown
    · intro b' hb'
      rcases List.mem_append.mp hb' with hb' | hb'
      · exact h.sized b' hb'
      · rw [List.mem_singleton.mp hb']
        exact (h.filling b hr).resolve_left hb
  | _ => exact h.congr rfl rfl rfl rfl rfl

structure Grows (s s' : PtySession) : Prop where
  sent : s.input.sent <+: s'.input.sent
  written : s.written <+: s'.written
  messages : s.messages <+: s'.messages
  bursts : s.bursts <+: s'.bursts

theorem Grows.of_eq (hi : s'.input.sent = s.input.sent) (hw : s'.written = s.written)
    (hm : s'.messages = s.messages) (hb : s'.bursts = s.bursts) : Grows s s' :=
  ⟨hi ▸ List.prefix_rfl, hw ▸ List.prefix_rfl, hm ▸ List.prefix_rfl, hb ▸ List.prefix_rfl⟩

theorem Grows.trans {s'' : PtySession} (h : Grows s s') (h' : Grows s' s'') : Grows s s'' :=
  ⟨h.sent.trans h'.sent, h.written.trans h'.written, h.messages.trans h'.messages,
    h.bursts.trans h'.bursts⟩

theorem grows_transition (hstep : Transition s t s' t') : Grows s s' := by
  have hrefl : Grows s s := .of_eq rfl rfl rfl rfl
  cases hstep with
  | input hi =>
    cases hi with
    | took ht hc hr => exact .of_eq hr.sent rfl rfl rfl
    | wrote | brokeOff => exact { hrefl with written := List.prefix_append _ _ }
    | stopped | flushed | flushFailed => exact .of_eq rfl rfl rfl rfl
  | output ho =>
    cases ho with
    | took => exact { hrefl with messages := List.prefix_append _ _ }
    | _ => exact .of_eq rfl rfl rfl rfl
  | queued hq => exact { hrefl with sent := hq.grows }
  | ended => exact { hrefl with bursts := List.prefix_append _ _ }
  | _ => exact .of_eq rfl rfl rfl rfl

/-- A step that lets no write succeed and ends no burst. -/
structure Silent (s : PtySession) (t : Task) (s' : PtySession) (t' : Task) : Prop where
  sent : s'.input.sent = s.input.sent
  bursts : s'.bursts = s.bursts
  accepted : accepted t' = accepted t
  returned : returned t' = returned t

/-- What a step adds to the calls that have returned. -/
theorem transition_returns (hstep : Transition s t s' t') :
    Silent s t s' t' ∨
    (∃ data, s'.input.sent = s.input.sent ++ [data] ∧ s'.bursts = s.bursts ∧
      t = .sendingInput data ∧ t' = .wrote data) ∨
    (∃ b, s'.bursts = s.bursts ++ [b] ∧ s'.input.sent = s.input.sent ∧ t = .bursting ∧
      t' = .burst b) := by
  cases hstep with
  | input hi =>
    cases hi with
    | took ht hc hr => exact .inl ⟨hr.sent, rfl, rfl, rfl⟩
    | _ => exact .inl ⟨rfl, rfl, rfl, rfl⟩
  | output ho => cases ho <;> exact .inl ⟨rfl, rfl, rfl, rfl⟩
  | queued hq => exact .inr (.inl ⟨_, hq.sent, rfl, rfl, rfl⟩)
  | ended => exact .inr (.inr ⟨_, rfl, rfl, rfl, rfl⟩)
  | @notFound t message hs => cases t <;> first | exact .inl ⟨rfl, rfl, rfl, rfl⟩ | cases hs
  | _ => exact .inl ⟨rfl, rfl, rfl, rfl⟩

/-- Exactly the accepted writes were sent and exactly the bursts returned that the calls say. -/
structure Answered (c : Config PtySession Task) : Prop where
  accepted : c.shared.input.sent.Perm (c.tasks.filterMap accepted)
  returned : c.shared.bursts.Perm (c.tasks.filterMap returned)

theorem Answered.act (h : Answered c) (hact : pty.act c a = some c') : Answered c' := by
  obtain ⟨t, rfl, hs, rfl⟩ | ⟨i, e, t, s', t', rfl, hi, hs, rfl⟩ := act_cases hact
  · have hstart : starts t = true := hs
    have hnone : PtyTraffic.accepted t = none ∧ PtyTraffic.returned t = none := by
      cases t <;> first | exact ⟨rfl, rfl⟩ | cases hstart
    constructor
    · simpa [hnone.1] using h.accepted
    · simpa [hnone.2] using h.returned
  · obtain hsilent | ⟨data, hsent, hbursts, rfl, rfl⟩ | ⟨b, hbursts, hsent, rfl, rfl⟩ :=
      transition_returns (step_transition hs)
    · constructor
      · rw [hsilent.sent, filterMap_set_eq _ hi hsilent.accepted]
        exact h.accepted
      · rw [hsilent.bursts, filterMap_set_eq _ hi hsilent.returned]
        exact h.returned
    · have haccepted : ((c.tasks.set i (.wrote data)).filterMap PtyTraffic.accepted).Perm
          (c.tasks.filterMap PtyTraffic.accepted ++ [data]) :=
        filterMap_set_perm PtyTraffic.accepted hi rfl rfl
      have hreturned : (c.tasks.set i (.wrote data)).filterMap PtyTraffic.returned =
          c.tasks.filterMap PtyTraffic.returned := filterMap_set_eq PtyTraffic.returned hi rfl
      constructor
      · rw [hsent]
        exact (h.accepted.append_right [data]).trans haccepted.symm
      · rw [hbursts, hreturned]
        exact h.returned
    · have hreturned : ((c.tasks.set i (.burst b)).filterMap PtyTraffic.returned).Perm
          (c.tasks.filterMap PtyTraffic.returned ++ [b]) :=
        filterMap_set_perm PtyTraffic.returned hi rfl rfl
      have haccepted : (c.tasks.set i (.burst b)).filterMap PtyTraffic.accepted =
          c.tasks.filterMap PtyTraffic.accepted := filterMap_set_eq PtyTraffic.accepted hi rfl
      constructor
      · rw [hsent, haccepted]
        exact h.accepted
      · rw [hbursts]
        exact (h.returned.append_right [b]).trans hreturned.symm

theorem run_grows (hr : pty.run c as = some d) : Grows c.shared d.shared := by
  induction as generalizing c with
  | nil => exact Option.some.inj hr ▸ .of_eq rfl rfl rfl rfl
  | cons a as ih =>
    obtain ⟨c', hact, hr⟩ := run_cons hr
    refine Grows.trans ?_ (ih hr)
    obtain ⟨t, rfl, -, rfl⟩ | ⟨i, e, t, s', t', rfl, -, hs, rfl⟩ := act_cases hact
    · exact .of_eq rfl rfl rfl rfl
    · exact grows_transition (step_transition hs)

structure Sound (c : Config PtySession Task) : Prop where
  input : InputFlow c.shared
  output : OutputFlow c.shared
  answered : Answered c

theorem Sound.act (h : Sound c) (hact : pty.act c a = some c') : Sound c' := by
  refine ⟨?_, ?_, h.answered.act hact⟩
  all_goals obtain ⟨t, rfl, -, rfl⟩ | ⟨i, e, t, s', t', rfl, -, hs, rfl⟩ := act_cases hact
  · exact h.input
  · exact h.input.transition (step_transition hs)
  · exact h.output
  · exact h.output.transition (step_transition hs)

theorem run_sound (hr : pty.run created as = some d) : Sound d := by
  have hstart : Sound created :=
    ⟨⟨fun _ => rfl, List.prefix_rfl⟩,
      ⟨fun _ => rfl, List.prefix_rfl, rfl, fun b hb => (by cases hb), fun b hb => (by cases hb)⟩,
      ⟨.refl _, .refl _⟩⟩
  exact run_always Sound (fun _ _ _ hc hact => hc.act hact) hstart hr

/-- The server gets what was accepted: a prefix of it, and all of it but what waits while the input
task goes on. -/
structure Typed (c : Config PtySession Task) : Prop where
  wire : c.shared.written <+: c.shared.input.sent.flatten
  running : c.shared.inputTask ≠ .ended →
    c.shared.written ++ c.shared.inputTask.inHand ++ c.shared.input.queue.flatten =
      c.shared.input.sent.flatten
  accepted : c.shared.input.sent.Perm (c.tasks.filterMap accepted)

/-- The calls get what the channel brought: the bursts in their order, what is read at the moment
and what waits. -/
structure Shown (c : Config PtySession Task) : Prop where
  whole : c.shared.bursts.flatMap Burst.data ++ c.shared.reading.elim [] Burst.data ++
    c.shared.output.queue.flatten = c.shared.output.sent.flatten
  forwarded : c.shared.output.sent <+: c.shared.messages.filterMap payload
  running : c.shared.outputTask ≠ .ended →
    c.shared.output.sent ++ c.shared.outputTask.inHand = c.shared.messages.filterMap payload
  sized : ∀ b ∈ c.shared.bursts, Sized b
  returned : c.shared.bursts.Perm (c.tasks.filterMap returned)

/-- However writes, resizes, reads, removals and failures of the channel interleave, the accepted
input reaches the server in order and is never reordered later. -/
theorem keystrokes_in_order (hr : pty.run created as = some d) (bs : List (Action Task Event))
    (d' : Config PtySession Task) (hr' : pty.run d bs = some d') :
    Typed d ∧ d.shared.input.sent <+: d'.shared.input.sent ∧
      d.shared.written <+: d'.shared.written := by
  have hsound := run_sound hr
  have hgrows := run_grows hr'
  refine ⟨⟨?_, fun hne => ?_, hsound.answered.accepted⟩, hgrows.sent, hgrows.written⟩
  · exact hsound.input.wire.trans d.shared.input.received_prefix.flatten
  · rw [hsound.input.running hne, ← List.flatten_append, d.shared.input.whole]

def greeted : List (Action Task Event) :=
  [.advance 2 quiet, .spawn (.writeToPty [108, 115]), .advance 3 quiet, .advance 3 quiet,
    .advance 0 quiet, .advance 0 quiet, .advance 1 (brings (.data [36])), .advance 1 quiet,
    .spawn (.readPtyBurst 4096), .advance 4 quiet, .advance 4 quiet, .advance 4 quiet,
    .advance 4 quiet]

def exited : List (Action Task Event) :=
  [.spawn (.writeToPty [10]), .advance 5 quiet, .advance 5 quiet, .advance 0 quiet,
    .advance 0 quiet, .advance 0 quiet, .advance 1 (brings .eof)]

theorem keystrokes_greeted : ∃ d d', pty.run created greeted = some d ∧
    pty.run d exited = some d' ∧ d.shared.written = [108, 115] ∧
      d'.shared.written = [108, 115, 10] ∧ d.shared.input.sent <+: d'.shared.input.sent := by
  have hrun : ∃ d, pty.run created greeted = some d ∧ d.shared.written = [108, 115] ∧
      (pty.run d exited).any (fun d' => d'.shared.written = [108, 115, 10]) = true :=
    run_decided (by decide +kernel)
  obtain ⟨d, hd, hw, hrest⟩ := hrun
  obtain ⟨d', hd', hw'⟩ := run_decided hrest
  exact ⟨d, d', hd, hd', hw, hw', (keystrokes_in_order hd exited d' hd').2.1⟩

/-- However reads, writes and failures interleave, the bursts put together are the output of the
channel, and nothing of it is lost, doubled or reordered on its way into a burst. -/
theorem bursts_in_order (hr : pty.run created as = some d) (bs : List (Action Task Event))
    (d' : Config PtySession Task) (hr' : pty.run d bs = some d') :
    Shown d ∧ d.shared.messages <+: d'.shared.messages ∧ d.shared.bursts <+: d'.shared.bursts := by
  have hsound := run_sound hr
  have hgrows := run_grows hr'
  refine ⟨⟨?_, hsound.output.forwarded, hsound.output.running, hsound.output.sized,
    hsound.answered.returned⟩, hgrows.messages, hgrows.bursts⟩
  rw [hsound.output.shown, ← List.flatten_append, d.shared.output.whole]

theorem bursts_greeted : ∃ d d', pty.run created greeted = some d ∧
    pty.run d exited = some d' ∧ d.shared.bursts = [⟨4096, [[36]]⟩] ∧
      d.shared.bursts <+: d'.shared.bursts := by
  have hrun : ∃ d, pty.run created greeted = some d ∧ d.shared.bursts = [⟨4096, [[36]]⟩] ∧
      (pty.run d exited).isSome = true := run_decided (by decide +kernel)
  obtain ⟨d, hd, hb, hrest⟩ := hrun
  obtain ⟨d', hd'⟩ := Option.isSome_iff_exists.mp hrest
  exact ⟨d, d', hd, hd', hb, (bursts_in_order hd exited d' hd').2.2⟩

end SshCommander.PtyTraffic
