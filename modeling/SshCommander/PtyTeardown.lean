import SshCommander.PtyTraffic

/-!
# What a cancelled PTY session still does

Both tasks look at the token only between two pieces of work, so a cancelled session finishes the
piece it has in hand. The output task hands its piece to a channel that may be full, and waits for a
reader without looking at the token.
-/

namespace SshCommander.PtyTeardown
open InterleavedTasks InterleavedTasks.TaskSystem BoundedChannels PtyStreams

variable {s s' : PtySession} {t t' : Task} {e : Event} {c c' d d' : Config PtySession Task}
  {a : Action Task Event} {as bs : List (Action Task Event)}

def holds : Task → Bool
  | .insert | .sendingInput _ | .lockingOutput _ | .bursting | .sendingResize .. | .holding => true
  | _ => false

def weight (t : Task) : ℕ := if holds t then 1 else 0

def Counted (c : Config PtySession Task) : Prop := c.shared.holders = (c.tasks.map weight).sum

theorem transition_holders (hstep : Transition s t s' t') (hle : weight t ≤ s.holders) :
    s'.holders + weight t = s.holders + weight t' := by
  cases hstep with
  | input hi => cases hi <;> rfl
  | output ho => cases ho <;> rfl
  | notFound hs => cases t <;> first | rfl | cases hs
  | inserted | inputClosed | queued | outputClosed | ended | resizeClosed | resizeQueued |
    gaveBack =>
    have hone : 1 ≤ s.holders := hle
    exact Nat.sub_add_cancel hone
  | _ => rfl

theorem Counted.act (h : Counted c) (hact : pty.act c a = some c') : Counted c' := by
  obtain ⟨t, rfl, hs, rfl⟩ | ⟨i, e, t, s', t', rfl, hi, hs, rfl⟩ := act_cases hact
  · have hstart : starts t = true := hs
    have hzero : weight t = 0 := by cases t <;> first | rfl | cases hstart
    rw [Counted, List.map_append, List.sum_append, List.map_singleton, List.sum_singleton, hzero]
    exact h
  · have hle : weight t ≤ c.shared.holders := h ▸ le_sum_map weight hi
    have hmoved := transition_holders (step_transition hs) hle
    have hsum := sum_map_set weight hi t'
    simp only [Counted] at h ⊢
    omega

theorem run_counted (hr : pty.run created as = some d) : Counted d :=
  run_always Counted (fun _ _ _ hc hact => hc.act hact) (show Counted created from rfl) hr

/-- The session lives while the registry or a call has it. -/
theorem Counted.alive_iff (h : Counted c) :
    c.shared.alive = true ↔ c.shared.registered = true ∨ ∃ t ∈ c.tasks, holds t = true := by
  have hzero : c.shared.holders = 0 ↔ ∀ t ∈ c.tasks, holds t = false := by
    rw [h, List.sum_eq_zero_iff]
    simp [weight]
  rw [PtySession.alive, Bool.or_eq_true, bne_iff_ne, ne_eq, hzero]
  simp

structure Pumped (c : Config PtySession Task) : Prop where
  input : c.tasks[0]? = some .input
  output : c.tasks[1]? = some .output

theorem transition_pump (hstep : Transition s t s' t') :
    (t = .input → t' = .input) ∧ (t = .output → t' = .output) := by
  cases hstep with
  | input => exact ⟨fun _ => rfl, nofun⟩
  | output => exact ⟨nofun, fun _ => rfl⟩
  | notFound hs =>
    constructor
    · rintro rfl
      cases hs
    · rintro rfl
      cases hs
  | _ => exact ⟨nofun, nofun⟩

theorem Pumped.act (h : Pumped c) (hact : pty.act c a = some c') : Pumped c' := by
  obtain ⟨t, rfl, -, rfl⟩ | ⟨i, e, t, s', t', rfl, hi, hs, rfl⟩ := act_cases hact
  · have hlen : 1 < c.tasks.length := (List.getElem?_eq_some_iff.mp h.output).1
    constructor
    · rw [List.getElem?_append_left (by omega)]
      exact h.input
    · rw [List.getElem?_append_left hlen]
      exact h.output
  · have hpump := transition_pump (step_transition hs)
    have hkept (j : ℕ) (p : Task) (hj : c.tasks[j]? = some p) (hp : t = p → t' = p) :
        (c.tasks.set i t')[j]? = some p := by
      by_cases hij : i = j
      · subst hij
        obtain rfl := Option.some.inj (hi.symm.trans hj)
        rw [List.getElem?_set_self', hi, hp rfl]
        rfl
      · rwa [List.getElem?_set_ne hij]
    exact ⟨hkept 0 .input h.input hpump.1, hkept 1 .output h.output hpump.2⟩

theorem run_pumped (hr : pty.run created as = some d) : Pumped d :=
  run_always Pumped (fun _ _ _ hc hact => hc.act hact) ⟨rfl, rfl⟩ hr

def InputTask.left : InputTask → ℕ
  | .writing _ => 3
  | .flushing => 2
  | .waiting => 1
  | .ended => 0

def OutputTask.left : OutputTask → ℕ
  | .sending _ | .resizing .. => 2
  | .waiting => 1
  | .ended => 0

/-- What one step leaves of a cancelled session. -/
structure Winding (s : PtySession) (t : Task) (s' : PtySession) : Prop where
  cancelled : s'.cancelled = true
  received : s'.input.received = s.input.received
  messages : s'.messages = s.messages
  input : InputTask.left s'.inputTask + (if t = .input then 1 else 0) ≤ InputTask.left s.inputTask
  output : OutputTask.left s'.outputTask + (if t = .output then 1 else 0) ≤
    OutputTask.left s.outputTask

theorem inputStep_winding (hc : s.cancelled = true) (hstep : InputStep s s') :
    Winding s .input s' := by
  cases hstep with
  | took _ hno => rw [hc] at hno; cases hno
  | stopped h | wrote h | brokeOff h | flushed h | flushFailed h =>
    refine ⟨hc, rfl, rfl, ?_, le_refl _⟩
    simp [h, InputTask.left]

theorem outputStep_winding (hc : s.cancelled = true) (hstep : OutputStep s s') :
    Winding s .output s' := by
  cases hstep with
  | took _ hno | tookResize _ hno => rw [hc] at hno; cases hno
  | stopped h | sent h | abandoned h | resized h =>
    refine ⟨hc, rfl, rfl, le_refl _, ?_⟩
    simp [h, OutputTask.left]

theorem transition_winding (hc : s.cancelled = true) (hstep : Transition s t s' t') :
    Winding s t s' := by
  cases hstep with
  | input hi => exact inputStep_winding hc hi
  | output ho => exact outputStep_winding hc ho
  | queued hq => exact ⟨hc, hq.received, rfl, le_refl _, le_refl _⟩
  | removed => exact ⟨rfl, rfl, rfl, le_refl _, le_refl _⟩
  | notFound hs => cases t <;> first | exact ⟨hc, rfl, rfl, le_refl _, le_refl _⟩ | cases hs
  | _ => exact ⟨hc, rfl, rfl, le_refl _, le_refl _⟩

def ownSteps (i : ℕ) (as : List (Action Task Event)) : ℕ :=
  as.countP fun
    | .spawn _ => false
    | .advance j _ => j = i

structure Wound (c : Config PtySession Task) (as : List (Action Task Event))
    (d : Config PtySession Task) : Prop where
  cancelled : d.shared.cancelled = true
  received : d.shared.input.received = c.shared.input.received
  messages : d.shared.messages = c.shared.messages
  input : InputTask.left d.shared.inputTask + ownSteps 0 as ≤ InputTask.left c.shared.inputTask
  output : OutputTask.left d.shared.outputTask + ownSteps 1 as ≤
    OutputTask.left c.shared.outputTask

theorem run_wound (hp : Pumped c) (hc : c.shared.cancelled = true) (hr : pty.run c as = some d) :
    Wound c as d := by
  induction as generalizing c with
  | nil => exact Option.some.inj hr ▸ ⟨hc, rfl, rfl, le_refl _, le_refl _⟩
  | cons a as ih =>
    obtain ⟨c', hact, hr⟩ := run_cons hr
    have hp' := hp.act hact
    obtain ⟨t, rfl, -, rfl⟩ | ⟨i, e, t, s', t', rfl, hi, hs, rfl⟩ := act_cases hact
    · have hrest := ih hp' hc hr
      exact ⟨hrest.cancelled, hrest.received, hrest.messages, hrest.input, hrest.output⟩
    · have hwind := transition_winding hc (step_transition hs)
      have hrest := ih hp' hwind.cancelled hr
      have hown (j : ℕ) (p : Task) (hj : c.tasks[j]? = some p) :
          ownSteps j (.advance i e :: as) ≤ ownSteps j as + if t = p then 1 else 0 := by
        rw [ownSteps, List.countP_cons]
        by_cases hij : i = j
        · subst hij
          obtain rfl := Option.some.inj (hi.symm.trans hj)
          simp [ownSteps]
        · simp [ownSteps, hij]
      have hin := hown 0 .input hp.input
      have hout := hown 1 .output hp.output
      have hinput := hrest.input
      have houtput := hrest.output
      have hwinput := hwind.input
      have hwoutput := hwind.output
      refine ⟨hrest.cancelled, hrest.received.trans hwind.received,
        hrest.messages.trans hwind.messages, ?_, ?_⟩
      · simp only at hinput
        omega
      · simp only at houtput
        omega

/-- The output task waits for room in the channel, and somebody may still make some. -/
def Stuck (c : Config PtySession Task) : Prop :=
  (∃ data, c.shared.outputTask = .sending data) ∧ c.shared.output.queue.length = 2000 ∧
    (c.shared.registered = true ∨ ∃ t ∈ c.tasks, holds t = true)

theorem input_blocked_iff (hp : Pumped c) (hc : c.shared.cancelled = true) (e : Event) :
    pty.act c (.advance 0 e) = none ↔ c.shared.inputTask = .ended := by
  simp only [act, hp.input, pty, PtyStreams.step, Option.map_eq_none_iff]
  unfold stepInput
  cases ht : c.shared.inputTask with
  | waiting => simp [hc]
  | writing data => cases e.write <;> simp
  | flushing => cases e.flush <;> simp
  | ended => simp

theorem output_blocked_iff (hp : Pumped c) (hcount : Counted c) (hc : c.shared.cancelled = true)
    (e : Event) :
    pty.act c (.advance 1 e) = none ↔ c.shared.outputTask = .ended ∨ Stuck c := by
  simp only [act, hp.output, pty, PtyStreams.step, Option.map_eq_none_iff, Stuck, ← hcount.alive_iff]
  unfold stepOutput
  cases ht : c.shared.outputTask with
  | waiting => simp [hc]
  | sending data =>
    by_cases halive : c.shared.alive = true
    · simp [halive, Channel.send_eq_none]
    · simp [halive]
  | resizing cols rows => cases e.windowChange <;> simp
  | ended => simp

/-- However the calls and the channel go on after a cancellation, the session takes no more input
from its channel and no more messages from the server; its tasks have at most three and two steps
left, and once the server has taken what is being written, nothing can keep them from these but a
full output channel that somebody holds. -/
theorem cancel_winds_up (hr : pty.run created as = some d) (hc : d.shared.cancelled = true)
    (hr' : pty.run d bs = some d') :
    d'.shared.input.received = d.shared.input.received ∧
      d'.shared.messages = d.shared.messages ∧ ownSteps 0 bs ≤ 3 ∧ ownSteps 1 bs ≤ 2 ∧
      (∀ e, pty.act d' (.advance 0 e) = none ↔ d'.shared.inputTask = .ended) ∧
      ∀ e, pty.act d' (.advance 1 e) = none ↔ d'.shared.outputTask = .ended ∨ Stuck d' := by
  have hwound := run_wound (run_pumped hr) hc hr'
  have hpumped := run_always Pumped (fun _ _ _ hc hact => hc.act hact) (run_pumped hr) hr'
  have hcounted := run_always Counted (fun _ _ _ hc hact => hc.act hact) (run_counted hr) hr'
  have hthree : InputTask.left d.shared.inputTask ≤ 3 := by
    cases d.shared.inputTask <;> simp [InputTask.left]
  have htwo : OutputTask.left d.shared.outputTask ≤ 2 := by
    cases d.shared.outputTask <;> simp [OutputTask.left]
  have hin := hwound.input
  have hout := hwound.output
  exact ⟨hwound.received, hwound.messages, by omega, by omega,
    input_blocked_iff hpumped hwound.cancelled,
    output_blocked_iff hpumped hcounted hwound.cancelled⟩

/-- The shell speaks while a key waits to be written; then the session is removed. -/
def removed : List (Action Task Event) :=
  [.advance 2 quiet, .spawn (.writeToPty [113]), .advance 3 quiet, .advance 3 quiet,
    .advance 0 quiet, .advance 1 (brings (.data [36])), .spawn .remove, .advance 4 quiet]

def woundUp : List (Action Task Event) :=
  [.advance 1 quiet, .advance 0 quiet, .advance 0 quiet, .advance 0 quiet]

theorem cancel_winds_up_removed : ∃ d d', pty.run created removed = some d ∧
    pty.run d woundUp = some d' ∧ d'.shared.inputTask = .ended ∧ d'.shared.written = [113] ∧
      d'.shared.outputTask = .ended ∧ d'.shared.messages = d.shared.messages := by
  have hrun : ∃ d, pty.run created removed = some d ∧ d.shared.cancelled = true ∧
      (pty.run d woundUp).any (fun d' => d'.shared.inputTask = .ended ∧
        d'.shared.written = [113] ∧ d'.shared.outputTask = .ended) = true :=
    run_decided (by decide +kernel)
  obtain ⟨d, hd, hc, hrest⟩ := hrun
  obtain ⟨d', hd', hin, hw, hout⟩ := run_decided hrest
  exact ⟨d, d', hd, hd', hin, hw, hout, (cancel_winds_up hd hc hd').2.1⟩

end SshCommander.PtyTeardown
