import SshCommander.InterleavedTasks
import SshCommander.RustText
import SshCommander.StreamCopies

/-!
# Connections through a tunnel

`SshTunnel` accepts connections on a local port and splices each one with a channel of its own, in
both directions. One token stops the accept loop and the forwarders.
-/

namespace SshCommander.TunnelForwarding
open InterleavedTasks InterleavedTasks.TaskSystem RustText StreamCopies

variable {C : Copier UInt8 Text}

inductive Forwarder where
  | opening
  | splicing
  | ended (r : Except Text Unit)
  deriving DecidableEq

/-- A connection that was accepted. Each direction is a `tokio::io::copy`, with the shutdown behind
it. -/
structure Connection (C : Copier UInt8 Text) where
  localToSsh : C.State
  sshToLocal : C.State
  forwarder : Forwarder

namespace Connection

def new : Connection C := ⟨C.start, C.start, .opening⟩

/-- `try_join!` has its result: the first error, or both successes. A direction that ends well leaves
the other one open, where the comment in the source has it tear both down. -/
def joined (c : Connection C) : Option (Except Text Unit) :=
  match C.outcome c.localToSsh, C.outcome c.sshToLocal with
  | some (.error e), _ => some (.error e)
  | _, some (.error e) => some (.error e)
  | some (.ok ()), some (.ok ()) => some (.ok ())
  | _, _ => none

def join (c : Connection C) : Connection C :=
  match c.joined with
  | some r => { c with forwarder := .ended r }
  | none => c

end Connection

structure Tunnel (C : Copier UInt8 Text) where
  remoteHost : Text
  remotePort : UInt16
  cancelled : Bool
  /-- Whether the accept loop has the listener. -/
  listening : Bool
  connections : List (Connection C)

/-- What happens to the tunnel. `accept none` is a loop that has nothing to accept and looks at the
token. -/
inductive Event where
  | accept (r : Option (Except Text Unit))
  | opened (k : ℕ) (r : Except Text Unit)
  | localToSsh (k : ℕ) (io : Io UInt8 Text)
  | sshToLocal (k : ℕ) (io : Io UInt8 Text)
  | cancelled (k : ℕ)
  | called

inductive Task where
  | accepting
  | stopped
  | forwarding
  | drop
  | dropped
  deriving DecidableEq

/-- One step of a forwarder. The select is not biased, so that the copies may go on beside a token
that has fired. -/
def stepForwarder (cancelled : Bool) (c : Connection C) : Event → Option (Connection C)
  | .opened _ r =>
    match c.forwarder, r with
    | .opening, .ok () => some { c with forwarder := .splicing }
    | .opening, .error e => some { c with forwarder := .ended (.error e) }
    | .splicing, _ | .ended _, _ => none
  | .localToSsh _ io =>
    if c.forwarder = .splicing then
      (C.step c.localToSsh io).map fun copy => { c with localToSsh := copy }.join
    else none
  | .sshToLocal _ io =>
    if c.forwarder = .splicing then
      (C.step c.sshToLocal io).map fun copy => { c with sshToLocal := copy }.join
    else none
  | .cancelled _ =>
    if c.forwarder = .splicing ∧ cancelled = true then some { c with forwarder := .ended (.ok ()) }
    else none
  | .accept _ | .called => none

def Event.connection : Event → Option ℕ
  | .opened k _ | .localToSsh k _ | .sshToLocal k _ | .cancelled k => some k
  | .accept _ | .called => none

def step (x : Tunnel C) (t : Task) (e : Event) : Option (Tunnel C × Task) :=
  match t with
  | .accepting =>
    match e with
    | .accept (some (.ok ())) =>
      some ({ x with connections := x.connections ++ [.new] }, .accepting)
    | .accept (some (.error _)) => some (x, .accepting)
    | .accept none => if x.cancelled then some ({ x with listening := false }, .stopped) else none
    | .opened .. | .localToSsh .. | .sshToLocal .. | .cancelled _ | .called => none
  | .forwarding =>
    e.connection.bind fun k => (x.connections[k]?).bind fun c =>
      (stepForwarder x.cancelled c e).map fun c =>
        ({ x with connections := x.connections.set k c }, .forwarding)
  | .drop => some ({ x with cancelled := true }, .dropped)
  | .stopped | .dropped => none

def starts : Task → Bool
  | .drop => true
  | .accepting | .stopped | .forwarding | .dropped => false

def tunnel (C : Copier UInt8 Text) : TaskSystem (Tunnel C) Task Event := ⟨starts, step⟩

/-- `SshTunnel::open`, with the listener bound. -/
def opened (C : Copier UInt8 Text) (remoteHost : Text) (remotePort : UInt16) :
    Config (Tunnel C) Task :=
  ⟨⟨remoteHost, remotePort, false, true, []⟩, [.accepting, .forwarding]⟩

/-- A forwarder that has ended says how: its channel was not opened, one copy failed, both came to
their end, or the tunnel was dropped. -/
inductive EndedBy (cancelled : Bool) (c : Connection C) : Except Text Unit → Prop where
  | unopened {e} (hl : c.localToSsh = C.start) (hs : c.sshToLocal = C.start) :
      EndedBy cancelled c (.error e)
  | localFailed {e} (h : C.outcome c.localToSsh = some (.error e)) : EndedBy cancelled c (.error e)
  | sshFailed {e} (h : C.outcome c.sshToLocal = some (.error e)) : EndedBy cancelled c (.error e)
  | finished (hl : C.outcome c.localToSsh = some (.ok ()))
      (hs : C.outcome c.sshToLocal = some (.ok ())) : EndedBy cancelled c (.ok ())
  | dropped (h : cancelled = true) : EndedBy cancelled c (.ok ())

structure Alive (cancelled : Bool) (c : Connection C) : Prop where
  opening : c.forwarder = .opening → c.localToSsh = C.start ∧ c.sshToLocal = C.start
  splicing : c.forwarder = .splicing → c.joined = none
  ended : ∀ r, c.forwarder = .ended r → EndedBy cancelled c r

structure Goes (c c' : Connection C) : Prop where
  localToSsh : C.Grows c.localToSsh c'.localToSsh
  sshToLocal : C.Grows c.sshToLocal c'.sshToLocal
  ended : ∀ r, c.forwarder = .ended r → c' = c

inductive Transition (x : Tunnel C) : Task → Tunnel C → Task → Prop where
  | accepted : Transition x .accepting { x with connections := x.connections ++ [.new] } .accepting
  | notAccepted : Transition x .accepting x .accepting
  | stopped (h : x.cancelled = true) : Transition x .accepting { x with listening := false } .stopped
  | forwards {k e c c'} (hk : x.connections[k]? = some c)
      (h : stepForwarder x.cancelled c e = some c') :
      Transition x .forwarding { x with connections := x.connections.set k c' } .forwarding
  | drops : Transition x .drop { x with cancelled := true } .dropped

variable {x x' : Tunnel C} {t t' : Task} {e : Event} {c c' : Connection C} {b : Bool}
  {d d' d'' : Config (Tunnel C) Task} {a : Action Task Event} {as bs : List (Action Task Event)} {k : ℕ}
  {host : Text} {port : UInt16}

theorem joined_cases {r : Except Text Unit} (h : c.joined = some r) : EndedBy b c r := by
  unfold Connection.joined at h
  split at h
  · rename_i hl
    exact Option.some.inj h ▸ .localFailed hl
  · rename_i hs _
    exact Option.some.inj h ▸ .sshFailed hs
  · rename_i hl hs
    exact Option.some.inj h ▸ .finished hl hs
  · cases h

theorem alive_join (h : c.forwarder = .splicing) : Alive b c.join := by
  cases hj : c.joined with
  | none =>
    simp only [Connection.join, hj]
    refine ⟨fun ho => ?_, fun _ => hj, fun r hr => ?_⟩
    · rw [h] at ho
      cases ho
    · rw [h] at hr
      cases hr
  | some r =>
    simp only [Connection.join, hj]
    refine ⟨nofun, nofun, fun r' hr' => ?_⟩
    obtain rfl := Forwarder.ended.inj hr'
    cases joined_cases (b := b) hj with
    | unopened hl hs => exact .unopened hl hs
    | localFailed h => exact .localFailed h
    | sshFailed h => exact .sshFailed h
    | finished hl hs => exact .finished hl hs
    | dropped h => exact .dropped h

theorem Goes.refl (c : Connection C) : Goes c c := ⟨.refl _, .refl _, fun _ _ => rfl⟩

theorem Goes.trans {c'' : Connection C} (h : Goes c c') (h' : Goes c' c'') : Goes c c'' := by
  refine ⟨h.localToSsh.trans h'.localToSsh, h.sshToLocal.trans h'.sshToLocal, fun r hr => ?_⟩
  have heq := h.ended r hr
  rw [← heq] at hr
  exact (h'.ended r hr).trans heq

theorem join_copies (c : Connection C) :
    c.join.localToSsh = c.localToSsh ∧ c.join.sshToLocal = c.sshToLocal := by
  unfold Connection.join
  split
  · exact ⟨rfl, rfl⟩
  · exact ⟨rfl, rfl⟩

theorem stepForwarder_sound (hC : C.Laws) (hstart : Alive b c) (h : stepForwarder b c e = some c') :
    Alive b c' ∧ Goes c c' := by
  cases e with
  | opened k r =>
    cases ho : c.forwarder with
    | opening =>
      have hcopies := hstart.opening ho
      cases r with
      | ok =>
        simp only [stepForwarder, ho] at h
        obtain rfl := Option.some.inj h
        refine ⟨⟨nofun, fun _ => ?_, nofun⟩, .refl _, .refl _, fun r hr => by rw [ho] at hr; cases hr⟩
        simp only [Connection.joined, hcopies.1, hcopies.2, hC.start_running]
      | error e =>
        simp only [stepForwarder, ho] at h
        obtain rfl := Option.some.inj h
        refine ⟨⟨nofun, nofun, fun r hr => ?_⟩, .refl _, .refl _,
          fun r hr => by rw [ho] at hr; cases hr⟩
        obtain rfl := Forwarder.ended.inj hr
        exact .unopened hcopies.1 hcopies.2
    | splicing | ended => simp [stepForwarder, ho] at h
  | localToSsh k io =>
    simp only [stepForwarder] at h
    split at h
    · rename_i hsplicing
      obtain ⟨copy, hstep, rfl⟩ := Option.map_eq_some_iff.mp h
      have hjoin := join_copies { c with localToSsh := copy }
      refine ⟨alive_join hsplicing, ?_, ?_, fun r hr => by rw [hsplicing] at hr; cases hr⟩
      · rw [hjoin.1]
        exact hC.step_grows hstep
      · rw [hjoin.2]
        exact .refl _
    · cases h
  | sshToLocal k io =>
    simp only [stepForwarder] at h
    split at h
    · rename_i hsplicing
      obtain ⟨copy, hstep, rfl⟩ := Option.map_eq_some_iff.mp h
      have hjoin := join_copies { c with sshToLocal := copy }
      refine ⟨alive_join hsplicing, ?_, ?_, fun r hr => by rw [hsplicing] at hr; cases hr⟩
      · rw [hjoin.1]
        exact .refl _
      · rw [hjoin.2]
        exact hC.step_grows hstep
    · cases h
  | cancelled k =>
    simp only [stepForwarder] at h
    split at h
    · rename_i hcancelled
      obtain rfl := Option.some.inj h
      refine ⟨⟨nofun, nofun, fun r hr => ?_⟩, .refl _, .refl _,
        fun r hr => by rw [hcancelled.1] at hr; cases hr⟩
      obtain rfl := Forwarder.ended.inj hr
      exact .dropped hcancelled.2
    · cases h
  | accept | called => cases h

theorem step_transition (h : step x t e = some (x', t')) : Transition x t x' t' := by
  cases t with
  | accepting =>
    cases e with
    | accept r =>
      rcases r with _ | _ | ⟨⟨⟩⟩
      · simp only [TunnelForwarding.step] at h
        split at h
        · rename_i hc
          obtain ⟨rfl, rfl⟩ := Prod.mk.inj (Option.some.inj h)
          exact .stopped hc
        · cases h
      · obtain ⟨rfl, rfl⟩ := Prod.mk.inj (Option.some.inj h)
        exact .notAccepted
      · obtain ⟨rfl, rfl⟩ := Prod.mk.inj (Option.some.inj h)
        exact .accepted
    | opened | localToSsh | sshToLocal | cancelled | called => cases h
  | forwarding =>
    obtain ⟨k, -, h⟩ := Option.bind_eq_some_iff.mp h
    obtain ⟨c, hk, h⟩ := Option.bind_eq_some_iff.mp h
    obtain ⟨c', hstep, hp⟩ := Option.map_eq_some_iff.mp h
    obtain ⟨rfl, rfl⟩ := Prod.mk.inj hp
    exact .forwards hk hstep
  | drop =>
    obtain ⟨rfl, rfl⟩ := Prod.mk.inj (Option.some.inj h)
    exact .drops
  | stopped | dropped => cases h

theorem Alive.drop (h : Alive b c) : Alive true c := by
  refine ⟨h.opening, h.splicing, fun r hr => ?_⟩
  cases h.ended r hr with
  | unopened hl hs => exact .unopened hl hs
  | localFailed h => exact .localFailed h
  | sshFailed h => exact .sshFailed h
  | finished hl hs => exact .finished hl hs
  | dropped => exact .dropped rfl

def Sound (x : Tunnel C) : Prop := ∀ (k : ℕ) (c : Connection C), x.connections[k]? = some c →
  Alive x.cancelled c

theorem transition_sound (hC : C.Laws) (h : Transition x t x' t') (hx : Sound x) : Sound x' := by
  intro k c hk
  cases h with
  | accepted =>
    obtain hk | ⟨-, rfl⟩ := getElem?_append_singleton_cases hk
    · exact hx k c hk
    · exact ⟨fun _ => ⟨rfl, rfl⟩, nofun, nofun⟩
  | notAccepted | stopped => exact hx k c hk
  | forwards hj hstep =>
    obtain ⟨rfl, rfl⟩ | ⟨-, hk⟩ := getElem?_set_cases hk
    · exact (stepForwarder_sound hC (hx _ _ hj) hstep).1
    · exact hx k c hk
  | drops => exact (hx k c hk).drop

/-- A connection that was accepted keeps its place. -/
theorem transition_goes (hC : C.Laws) (h : Transition x t x' t') (hx : Sound x)
    (hk : x.connections[k]? = some c) : ∃ c', x'.connections[k]? = some c' ∧ Goes c c' := by
  cases h with
  | accepted =>
    refine ⟨c, ?_, .refl c⟩
    rw [List.getElem?_append_left (List.getElem?_eq_some_iff.mp hk).1]
    exact hk
  | notAccepted | stopped | drops => exact ⟨c, hk, .refl c⟩
  | @forwards j e c₀ c₁ hj hstep =>
    by_cases hjk : j = k
    · subst hjk
      obtain rfl := Option.some.inj (hj.symm.trans hk)
      refine ⟨c₁, ?_, (stepForwarder_sound hC (hx _ _ hj) hstep).2⟩
      rw [List.getElem?_set_self', hj]
      rfl
    · exact ⟨c, by rwa [List.getElem?_set_ne hjk], .refl c⟩

theorem Sound.act (hC : C.Laws) (h : Sound d.shared) (hact : (tunnel C).act d a = some d') :
    Sound d'.shared := by
  obtain ⟨t, rfl, -, rfl⟩ | ⟨i, e, t, x', t', rfl, -, hs, rfl⟩ := act_cases hact
  · exact h
  · exact transition_sound hC (step_transition hs) h

theorem run_sound (hC : C.Laws) (hr : (tunnel C).run (opened C host port) as = some d) :
    Sound d.shared := by
  have hstart : Sound (opened C host port).shared := fun k c hk => by simp [opened] at hk
  exact run_always (fun d => Sound d.shared) (fun _ _ _ hd hact => Sound.act hC hd hact) hstart hr

theorem run_goes (hC : C.Laws) (hx : Sound d.shared) (hr : (tunnel C).run d as = some d')
    (hk : d.shared.connections[k]? = some c) :
    ∃ c', d'.shared.connections[k]? = some c' ∧ Goes c c' := by
  induction as generalizing d c with
  | nil => exact Option.some.inj hr ▸ ⟨c, hk, .refl c⟩
  | cons a as ih =>
    obtain ⟨d₁, hact, hr⟩ := run_cons hr
    have hnext : ∃ c₁, d₁.shared.connections[k]? = some c₁ ∧ Goes c c₁ := by
      obtain ⟨t, rfl, -, rfl⟩ | ⟨i, e, t, x', t', rfl, -, hs, rfl⟩ := act_cases hact
      · exact ⟨c, hk, .refl c⟩
      · exact transition_goes hC (step_transition hs) hx hk
    obtain ⟨c₁, hk₁, hgoes⟩ := hnext
    obtain ⟨c', hk', hgoes'⟩ := ih (hx.act hC hact) hr hk₁
    exact ⟨c', hk', hgoes.trans hgoes'⟩

/-- What a connection has carried in both directions, and what its end says about it. -/
structure Carried (cancelled : Bool) (c : Connection C) : Prop where
  toSsh : C.written c.localToSsh <+: C.read c.localToSsh
  toLocal : C.written c.sshToLocal <+: C.read c.sshToLocal
  /-- Without a drop, success means that both sources were copied to their end. -/
  whole : c.forwarder = .ended (.ok ()) → cancelled = false →
    (C.eof c.localToSsh = true ∧ C.written c.localToSsh = C.read c.localToSsh) ∧
      (C.eof c.sshToLocal = true ∧ C.written c.sshToLocal = C.read c.sshToLocal)
  failed : ∀ e, c.forwarder = .ended (.error e) →
    (c.localToSsh = C.start ∧ c.sshToLocal = C.start) ∨
      C.outcome c.localToSsh = some (.error e) ∨ C.outcome c.sshToLocal = some (.error e)
  /-- While the forwarder splices, neither direction has failed and one of them is still open. -/
  halfOpen : c.forwarder = .splicing → c.joined = none

/-- However connections, copies, failures and a drop of the tunnel interleave, each connection
carries its own bytes in order in both directions, ends for a reason, and carries nothing after. -/
theorem tunnel_carries (hC : C.Laws) (hr : (tunnel C).run (opened C host port) as = some d)
    (bs : List (Action Task Event)) (d' : Config (Tunnel C) Task)
    (hr' : (tunnel C).run d bs = some d') (k : ℕ) (c : Connection C)
    (hk : d.shared.connections[k]? = some c) :
    Carried d.shared.cancelled c ∧ ∃ c', d'.shared.connections[k]? = some c' ∧ Goes c c' := by
  have hsound := run_sound hC hr
  have halive := hsound k c hk
  refine ⟨⟨hC.written_prefix _, hC.written_prefix _, fun hended hno => ?_,
    fun e hended => ?_, halive.splicing⟩, run_goes hC hsound hr' hk⟩
  · cases halive.ended _ hended with
    | finished hl hs => exact ⟨hC.ended_ok _ hl, hC.ended_ok _ hs⟩
    | dropped h =>
      rw [hno] at h
      cases h
  · cases halive.ended _ hended with
    | unopened hl hs => exact .inl ⟨hl, hs⟩
    | localFailed h => exact .inr (.inl h)
    | sshFailed h => exact .inr (.inr h)

def forward (e : Event) : Action Task Event := .advance 1 e

/-- A query goes to the server and its answer comes back while the client has closed its side. -/
def oneQuery : List (Action Task Event) :=
  [.advance 0 (.accept (some (.ok ()))), forward (.opened 0 (.ok ())),
    forward (.localToSsh 0 (.read (.ok [81, 1]))), forward (.localToSsh 0 (.wrote (.ok 2))),
    forward (.localToSsh 0 (.read (.ok []))), forward (.localToSsh 0 (.flushed (.ok ()))),
    forward (.localToSsh 0 .shut), forward (.sshToLocal 0 (.read (.ok [90])))]

def answered : List (Action Task Event) :=
  [forward (.sshToLocal 0 (.wrote (.ok 1))), forward (.sshToLocal 0 (.read (.ok []))),
    forward (.sshToLocal 0 (.flushed (.ok ()))), forward (.sshToLocal 0 .shut)]

def delivered (d : Config (Tunnel C) Task) : Option (List UInt8 × List UInt8 × Bool) :=
  d.shared.connections[0]?.map fun c =>
    (C.written c.localToSsh, C.written c.sshToLocal, c.forwarder == .splicing)

/-- The buffer of `tokio::io::copy` is of 8 KiB. -/
def tokioCopy : Copier UInt8 Text := Copy.copier UInt8 Text 8192

theorem tunnel_carries_oneQuery : ∃ d d' c c',
    (tunnel tokioCopy).run (opened tokioCopy ['h'] 5432) oneQuery = some d ∧
      (tunnel tokioCopy).run d answered = some d' ∧ d.shared.connections[0]? = some c ∧
      d'.shared.connections[0]? = some c' ∧ delivered d = some ([81, 1], [], true) ∧
        delivered d' = some ([81, 1], [90], false) ∧ Goes c c' := by
  have hrun : ∃ d, (tunnel tokioCopy).run (opened tokioCopy ['h'] 5432) oneQuery = some d ∧
      delivered d = some ([81, 1], [], true) ∧ d.shared.connections[0]?.isSome = true ∧
        ((tunnel tokioCopy).run d answered).any
          (fun d' => delivered d' = some ([81, 1], [90], false)) = true :=
    run_decided (by decide +kernel)
  obtain ⟨d, hd, hdelivered, hsome, hrest⟩ := hrun
  obtain ⟨d', hd', hdelivered'⟩ := run_decided hrest
  obtain ⟨c, hc⟩ := Option.isSome_iff_exists.mp hsome
  obtain ⟨-, c', hc', hgoes⟩ :=
    tunnel_carries (Copy.copier_laws UInt8 Text 8192) hd answered d' hd' 0 c hc
  exact ⟨d, d', c, c', hd, hd', hc, hc', hdelivered, hdelivered', hgoes⟩

end SshCommander.TunnelForwarding
