import SshCommander.IssuedIds
import SshCommander.PacketCaptures

/-!
# What captures report

Each capture reports, under its identifier, the lines of its own channel in their order, and a
finished one has reported all that its streaming task was to send, also where it was stopped.
-/

namespace SshCommander.CaptureReports
open InterleavedTasks InterleavedTasks.TaskSystem BoundedChannels RustText RemoteCommands Tcpdump
open IssuedIds PacketCaptures

variable {x x' : Captures} {t t' : Task} {e : Event}

inductive Transition (x : Captures) : Task → Captures → Task → Prop where
  | streams {k s s'} (hk : x.streams[k]? = some s) (h : StreamStep s s') :
      Transition x .runtime (x.setStream k s') .runtime
  | refused {interface filter snaplen e} : Transition x (.start interface filter snaplen) x (.failed e)
  | opened {interface filter snaplen command} :
      Transition x (.start interface filter snaplen)
        { x with streams := x.streams ++ [.new command] } (.numbering x.streams.length)
  | numbered {k} : Transition x (.numbering k) { x with nextId := x.nextId + 1 }
      (.registering k x.nextId)
  | registered {k id} : Transition x (.registering k id)
      { x with captures := x.captures.insert id k } (.forwarding k id)
  | forwarded {k id s line ch} (hk : x.streams[k]? = some s)
      (hr : Channel.Receives s.lines line ch) :
      Transition x (.forwarding k id)
        (Captures.setStream { x with events := x.events ++ forward id [line] } k
          { s with lines := ch }) (.forwarding k id)
  | closed {k id s} (hk : x.streams[k]? = some s) (hq : s.lines.queue = [])
      (he : s.task = .ended) : Transition x (.forwarding k id) x (.forgetting k id)
  | forgot {k id s} (hk : x.streams[k]? = some s) :
      Transition x (.forgetting k id)
        (Captures.setStream { x with captures := x.captures.erase id } k { s with dropped := true })
        (.ended k id)
  | stops {id k} (h : x.captures.lookup id = some k) :
      Transition x (.stop id) { x with captures := x.captures.erase id } (.cancelling id k)
  | notFound {id} (h : x.captures.lookup id = none) :
      Transition x (.stop id) x (.failed (.captureNotFound id))
  | stopped {id k s} (hk : x.streams[k]? = some s) :
      Transition x (.cancelling id k) (x.setStream k { s with cancelled := true }) (.stopped id)

theorem step_transition (h : step x t e = some (x', t')) : Transition x t x' t' := by
  cases t with
  | runtime =>
    obtain ⟨s, hk, hs⟩ := Option.bind_eq_some_iff.mp h
    obtain ⟨s', hs', hp⟩ := Option.map_eq_some_iff.mp hs
    obtain ⟨rfl, rfl⟩ := Prod.mk.inj hp
    exact .streams hk (stepStream_cases hs')
  | start interface filter snaplen =>
    simp only [PacketCaptures.step] at h
    split at h
    · obtain ⟨rfl, rfl⟩ := Prod.mk.inj (Option.some.inj h)
      exact .refused
    · split at h
      · obtain ⟨rfl, rfl⟩ := Prod.mk.inj (Option.some.inj h)
        exact .refused
      · split at h
        · obtain ⟨rfl, rfl⟩ := Prod.mk.inj (Option.some.inj h)
          exact .refused
        · obtain ⟨rfl, rfl⟩ := Prod.mk.inj (Option.some.inj h)
          exact .opened
  | numbering k =>
    obtain ⟨rfl, rfl⟩ := Prod.mk.inj (Option.some.inj h)
    exact .numbered
  | registering k id =>
    obtain ⟨rfl, rfl⟩ := Prod.mk.inj (Option.some.inj h)
    exact .registered
  | forwarding k id =>
    obtain ⟨s, hk, hs⟩ := Option.bind_eq_some_iff.mp h
    cases hrecv : s.lines.recv with
    | some r =>
      simp only [hrecv] at hs
      obtain ⟨rfl, rfl⟩ := Prod.mk.inj (Option.some.inj hs)
      exact .forwarded hk (Channel.recv_some hrecv)
    | none =>
      simp only [hrecv] at hs
      split at hs
      · rename_i he
        obtain ⟨rfl, rfl⟩ := Prod.mk.inj (Option.some.inj hs)
        exact .closed hk (Channel.recv_eq_none.mp hrecv) he
      · cases hs
  | forgetting k id =>
    obtain ⟨s, hk, hp⟩ := Option.map_eq_some_iff.mp h
    obtain ⟨rfl, rfl⟩ := Prod.mk.inj hp
    exact .forgot hk
  | stop id =>
    cases hl : x.captures.lookup id with
    | some k =>
      simp only [PacketCaptures.step, hl] at h
      obtain ⟨rfl, rfl⟩ := Prod.mk.inj (Option.some.inj h)
      exact .stops hl
    | none =>
      simp only [PacketCaptures.step, hl] at h
      obtain ⟨rfl, rfl⟩ := Prod.mk.inj (Option.some.inj h)
      exact .notFound hl
  | cancelling id k =>
    obtain ⟨s, hk, hp⟩ := Option.map_eq_some_iff.mp h
    obtain ⟨rfl, rfl⟩ := Prod.mk.inj hp
    exact .stopped hk
  | ended | stopped | failed => cases h

/-- The stream that a `start`, or the task that it has spawned, has the receiver of. -/
def receiver : Task → Option ℕ
  | .numbering k | .registering k _ | .forwarding k _ | .forgetting k _ | .ended k _ => some k
  | _ => none

def capture : Task → Option (UInt64 × ℕ)
  | .registering k id | .forwarding k id | .forgetting k id | .ended k id => some (id, k)
  | _ => none

def ident (t : Task) : Option UInt64 := (capture t).map (·.1)

/-- Identifiers are given out in their order, and every stream has one receiver. -/
structure Numbering (c : Config Captures Task) : Prop where
  ids : Issued c.shared.nextId (c.tasks.filterMap ident)
  receivers : Numbered c.shared.streams.length (c.tasks.filterMap receiver)

/-- Every stream has sent what it was to send, and its receiver is kept until it has ended and
everything was received. -/
structure Streaming (c : Config Captures Task) : Prop where
  framed : ∀ (k : ℕ) (s : Stream), c.shared.streams[k]? = some s → Framed s
  dropped : ∀ (k : ℕ) (s : Stream), c.shared.streams[k]? = some s → s.dropped = true → s.task = .ended
  drained : ∀ t ∈ c.tasks, ∀ (k : ℕ) (id : UInt64), t = .forgetting k id ∨ t = .ended k id →
    ∃ s, c.shared.streams[k]? = some s ∧ s.task = .ended ∧ s.lines.queue = []

inductive Change (s : Stream) : Task → ℕ → Stream → Prop where
  | kept {u j} : Change s u j s
  | stepped {j s'} (h : StreamStep s s') : Change s .runtime j s'
  | received {id j line ch} (hr : Channel.Receives s.lines line ch) :
      Change s (.forwarding j id) j { s with lines := ch }
  | dropped {id j} : Change s (.forgetting j id) j { s with dropped := true }
  | cancelled {id j} : Change s (.cancelling id j) j { s with cancelled := true }

variable {c c' d : Config Captures Task} {a : Action Task Event} {as : List (Action Task Event)}
  {j k : ℕ} {id : UInt64} {s s' s₀ : Stream}

theorem Numbering.act (h : Numbering c) (hact : tcpdump.act c a = some c') : Numbering c' := by
  obtain ⟨t, rfl, hs, rfl⟩ | ⟨i, e, t, s', t', rfl, hi, hs, rfl⟩ := act_cases hact
  · have hstart : starts t = true := hs
    have hnone : ident t = none ∧ receiver t = none := by
      cases t <;> first | exact ⟨rfl, rfl⟩ | cases hstart
    constructor
    · simpa [hnone.1] using h.ids
    · simpa [hnone.2] using h.receivers
  · have hnumbers : Numbered c.shared.streams.length ([] ++ c.tasks.filterMap receiver) := h.receivers
    have hsame (hid : ident t' = ident t) (hr : receiver t' = receiver t)
        (hnext : s'.nextId = c.shared.nextId) (hlen : s'.streams.length = c.shared.streams.length) :
        Numbering ⟨s', c.tasks.set i t'⟩ := by
      have hkept : (c.tasks.set i t').filterMap ident = c.tasks.filterMap ident :=
        filterMap_set_eq ident hi hid
      refine ⟨?_, ?_⟩
      · rw [hnext, hkept]
        exact h.ids
      have hkeep := hnumbers.keep hi hr
      rw [hlen]
      exact hkeep
    cases step_transition hs with
    | opened =>
      have hkept : (c.tasks.set i (.numbering c.shared.streams.length)).filterMap ident =
          c.tasks.filterMap ident := filterMap_set_eq ident hi rfl
      refine ⟨hkept ▸ h.ids, ?_⟩
      simp only [List.length_append, List.length_singleton]
      exact hnumbers.take_fresh hi rfl rfl
    | @numbered k =>
      have hnew : ((c.tasks.set i (.registering k c.shared.nextId)).filterMap ident).Perm
          (c.tasks.filterMap ident ++ [c.shared.nextId]) := filterMap_set_perm ident hi rfl rfl
      exact ⟨h.ids.take.perm hnew, hnumbers.keep hi rfl⟩
    | streams | registered | forwarded | closed | forgot | refused | stops | notFound | stopped =>
      exact hsame rfl rfl rfl (by simp [Captures.setStream])

theorem Numbering.nodup (h : Numbering c) (hcalls : c.tasks.length ≤ UInt64.size) :
    (c.tasks.filterMap ident).Nodup :=
  h.ids.nodup ((List.length_filterMap_le ident c.tasks).trans hcalls)

theorem act_length (hact : tcpdump.act c a = some c') : c.tasks.length ≤ c'.tasks.length := by
  obtain ⟨t, rfl, -, rfl⟩ | ⟨i, e, t, s', t', rfl, -, -, rfl⟩ := act_cases hact
  · simp
  · simp

theorem change_setStream (hk : x.streams[k]? = some s) (hchange : Change s t k s')
    (hj : x.streams[j]? = some s₀) :
    ∃ s₁, (x.setStream k s').streams[j]? = some s₁ ∧ Change s₀ t j s₁ := by
  rw [Captures.setStream]
  by_cases hkj : k = j
  · subst hkj
    obtain rfl := Option.some.inj (hk.symm.trans hj)
    exact ⟨s', by rw [List.getElem?_set_self', hk]; rfl, hchange⟩
  · exact ⟨s₀, by rwa [List.getElem?_set_ne hkj], .kept⟩

/-- A stream that is there stays, in its place. -/
theorem transition_change (h : Transition x t x' t') (hj : x.streams[j]? = some s) :
    ∃ s', x'.streams[j]? = some s' ∧ Change s t j s' := by
  cases h with
  | streams hk hs => exact change_setStream hk (.stepped hs) hj
  | forwarded hk hr =>
    exact change_setStream (x := { x with events := _ }) hk (.received hr) hj
  | forgot hk => exact change_setStream (x := { x with captures := _ }) hk .dropped hj
  | stopped hk => exact change_setStream hk .cancelled hj
  | opened =>
    refine ⟨s, ?_, .kept⟩
    rw [List.getElem?_append_left (List.getElem?_eq_some_iff.mp hj).1]
    exact hj
  | refused | numbered | registered | closed | stops | notFound => exact ⟨s, hj, .kept⟩

/-- A stream that is not there yet is a new one. -/
theorem transition_new (h : Transition x t x' t') (hj : x.streams[j]? = none)
    (hj' : x'.streams[j]? = some s') : ∃ command, s' = .new command := by
  have hset (x₀ : Captures) (hx : x₀.streams = x.streams) (k : ℕ) (s : Stream) :
      (x₀.setStream k s).streams[j]? = none := by
    have hlen := List.getElem?_eq_none_iff.mp hj
    rw [Captures.setStream, hx]
    exact List.getElem?_eq_none_iff.mpr (by rwa [List.length_set])
  cases h with
  | @opened interface filter snaplen command =>
    obtain h | ⟨-, rfl⟩ := getElem?_append_singleton_cases hj'
    · rw [hj] at h
      cases h
    · exact ⟨command, rfl⟩
  | streams | forwarded | forgot | stopped =>
    cases hj'.symm.trans (hset _ (by rfl) _ _)
  | refused | numbered | registered | closed | stops | notFound =>
    rw [hj] at hj'
    cases hj'

theorem Streaming.change (h : Streaming c) (hj : c.shared.streams[j]? = some s)
    (ht : t ∈ c.tasks) (hchange : Change s t j s') :
    Framed s' ∧ (s'.dropped = true → s'.task = .ended) ∧
      (s.task = .ended → s.lines.queue = [] → s'.task = .ended ∧ s'.lines.queue = []) := by
  have hframed := h.framed j s hj
  have hdropped := h.dropped j s hj
  cases hchange with
  | kept => exact ⟨hframed, hdropped, fun he hq => ⟨he, hq⟩⟩
  | stepped hs =>
    have halive : s.dropped = false := by
      rw [← Bool.not_eq_true]
      exact fun hd => hs.not_ended (hdropped hd)
    refine ⟨hframed.step halive hs, fun hd => ?_, fun he => absurd he hs.not_ended⟩
    rw [hs.receiver_side.1, halive] at hd
    cases hd
  | received hr =>
    refine ⟨hframed.receive hr, hdropped, fun _ hq => ?_⟩
    rw [hr.queue] at hq
    cases hq
  | @dropped id =>
    obtain ⟨s₀, hs₀, he, hq⟩ := h.drained _ ht j id (.inl rfl)
    obtain rfl := Option.some.inj (hs₀.symm.trans hj)
    exact ⟨hframed.drop, fun _ => he, fun _ _ => ⟨he, hq⟩⟩
  | cancelled => exact ⟨hframed.cancel, hdropped, fun he hq => ⟨he, hq⟩⟩

theorem Streaming.act (h : Streaming c) (hact : tcpdump.act c a = some c') : Streaming c' := by
  obtain ⟨t, rfl, hs, rfl⟩ | ⟨i, e, t, x', t', rfl, hi, hs, rfl⟩ := act_cases hact
  · have hstart : starts t = true := hs
    refine ⟨h.framed, h.dropped, fun u hu k id hend => ?_⟩
    rcases List.mem_append.mp hu with hu | hu
    · exact h.drained u hu k id hend
    · obtain rfl := List.mem_singleton.mp hu
      rcases hend with rfl | rfl <;> cases hstart
  · have htrans := step_transition hs
    have ht := List.mem_of_getElem? hi
    have hall (k : ℕ) (s' : Stream) (hk : x'.streams[k]? = some s') :
        Framed s' ∧ (s'.dropped = true → s'.task = .ended) := by
      cases hold : c.shared.streams[k]? with
      | none =>
        obtain ⟨command, rfl⟩ := transition_new htrans hold hk
        exact ⟨framed_new command, nofun⟩
      | some s =>
        obtain ⟨s₁, hs₁, hchange⟩ := transition_change htrans hold
        obtain rfl := Option.some.inj (hs₁.symm.trans hk)
        have hnext := h.change hold ht hchange
        exact ⟨hnext.1, hnext.2.1⟩
    have hdrained (u : Task) (hu : u ∈ c.tasks) (k : ℕ) (id : UInt64)
        (hend : u = .forgetting k id ∨ u = .ended k id) :
        ∃ s, x'.streams[k]? = some s ∧ s.task = .ended ∧ s.lines.queue = [] := by
      obtain ⟨s, hk, he, hq⟩ := h.drained u hu k id hend
      obtain ⟨s', hs', hchange⟩ := transition_change htrans hk
      exact ⟨s', hs', (h.change hk ht hchange).2.2 he hq⟩
    refine ⟨fun k s hk => (hall k s hk).1, fun k s hk => (hall k s hk).2, fun u hu k id hend => ?_⟩
    rcases List.mem_or_eq_of_mem_set hu with hu | rfl
    · exact hdrained u hu k id hend
    · cases htrans with
      | @closed k' id' s hk hq he =>
        obtain h | h := hend <;> cases h
        exact ⟨s, hk, he, hq⟩
      | @forgot k' id' s hk =>
        obtain h | h := hend <;> cases h
        exact hdrained _ ht k id (.inl rfl)
      | _ => obtain h | h := hend <;> cases h

def eventsOf (x : Captures) (id : UInt64) : List TcpdumpLine :=
  x.events.filter fun e => e.captureId = id

/-- Every capture has reported what its task has received from its stream. -/
structure Reporting (c : Config Captures Task) : Prop where
  reported : ∀ (i : ℕ) (t : Task), c.tasks[i]? = some t → ∀ id k, capture t = some (id, k) →
    ∃ s, c.shared.streams[k]? = some s ∧ eventsOf c.shared id = forward id s.lines.received
  fresh : ∀ k, .numbering k ∈ c.tasks →
    ∃ s, c.shared.streams[k]? = some s ∧ s.lines.received = []
  known : ∀ e ∈ c.shared.events, e.captureId ∈ c.tasks.filterMap ident

theorem ident_of_capture (h : capture t = some (id, k)) : ident t = some id := by
  rw [ident, h]
  rfl

theorem receiver_of_capture (h : capture t = some (id, k)) : receiver t = some k := by
  cases t <;> simp_all [capture, receiver]

theorem mem_idents (hi : c.tasks[j]? = some t) (h : capture t = some (id, k)) :
    id ∈ c.tasks.filterMap ident :=
  List.mem_filterMap.mpr ⟨t, List.mem_of_getElem? hi, ident_of_capture h⟩

theorem mem_idents_set (hi : c.tasks[j]? = some t) (hident : ident t' = ident t)
    (h : id ∈ c.tasks.filterMap ident) : id ∈ (c.tasks.set j t').filterMap ident := by
  rwa [filterMap_set_eq ident hi hident]

/-- A step changes what was received of a stream only by the task that forwards it, which reports
it. -/
theorem transition_received (h : Transition x t x' t') (hj : x.streams[j]? = some s)
    (hother : ∀ id, t ≠ .forwarding j id) :
    ∃ s', x'.streams[j]? = some s' ∧ s'.lines.received = s.lines.received := by
  obtain ⟨s', hs', hchange⟩ := transition_change h hj
  refine ⟨s', hs', ?_⟩
  cases hchange with
  | kept | dropped | cancelled => rfl
  | stepped hs => exact hs.receiver_side.2
  | @received id => exact absurd rfl (hother id)

theorem transition_eventsOf (h : Transition x t x' t') (hother : ∀ k, t ≠ .forwarding k id) :
    eventsOf x' id = eventsOf x id := by
  cases h with
  | @forwarded k id' s line ch hk hr =>
    have hne : id' ≠ id := fun heq => hother k (by rw [heq])
    simp [eventsOf, Captures.setStream, forward, hne]
  | _ => rfl

/-- The capture of another task has another identifier and another stream. -/
theorem Reporting.elsewhere (h : Reporting c) (hnum : Numbering c)
    (hnodup : (c.tasks.filterMap ident).Nodup) (hi : c.tasks[j]? = some t)
    (htrans : Transition c.shared t x' t') {i : ℕ} {u : Task} (hne : i ≠ j)
    (hu : c.tasks[i]? = some u) (hcap : capture u = some (id, k)) :
    ∃ s, x'.streams[k]? = some s ∧ eventsOf x' id = forward id s.lines.received := by
  obtain ⟨s, hk, hevents⟩ := h.reported i u hu id k hcap
  obtain ⟨s', hk', hreceived⟩ := transition_received htrans hk fun id' heq => hne
    (index_unique hnum.receivers.nodup hu hi (receiver_of_capture hcap) (by rw [heq]; rfl))
  refine ⟨s', hk', ?_⟩
  rw [transition_eventsOf htrans fun k' heq => hne
    (index_unique hnodup hu hi (ident_of_capture hcap) (by rw [heq]; rfl)), hevents, hreceived]

/-- Nothing is received from a stream before its capture has an identifier. -/
theorem Reporting.unnumbered (h : Reporting c) (hnum : Numbering c) (hi : c.tasks[j]? = some t)
    (htrans : Transition c.shared t x' t') (hk : .numbering k ∈ c.tasks) :
    ∃ s, x'.streams[k]? = some s ∧ s.lines.received = [] := by
  obtain ⟨s, hs, hempty⟩ := h.fresh k hk
  obtain ⟨i, hki⟩ := List.getElem?_of_mem hk
  have hother (id : UInt64) : t ≠ .forwarding k id := by
    rintro rfl
    have hij := index_unique hnum.receivers.nodup hki hi rfl rfl
    rw [hij, hi] at hki
    cases hki
  obtain ⟨s', hs', hreceived⟩ := transition_received htrans hs hother
  exact ⟨s', hs', hreceived.trans hempty⟩

/-- It is left to see what the task that moves has reported, and what is new. -/
theorem Reporting.advance_of (h : Reporting c) (hnum : Numbering c)
    (hnodup : (c.tasks.filterMap ident).Nodup) (hi : c.tasks[j]? = some t)
    (htrans : Transition c.shared t x' t')
    (hown : ∀ id k, capture t' = some (id, k) →
      ∃ s, x'.streams[k]? = some s ∧ eventsOf x' id = forward id s.lines.received)
    (hnew : ∀ k, t' = .numbering k → ∃ s, x'.streams[k]? = some s ∧ s.lines.received = [])
    (hknown : ∀ e ∈ x'.events, e.captureId ∈ (c.tasks.set j t').filterMap ident) :
    Reporting ⟨x', c.tasks.set j t'⟩ := by
  refine ⟨fun i u hu id k hcap => ?_, fun k hk => ?_, hknown⟩
  · obtain ⟨rfl, rfl⟩ | ⟨hne, hu⟩ := getElem?_set_cases hu
    · exact hown id k hcap
    · exact h.elsewhere hnum hnodup hi htrans hne hu hcap
  · rcases List.mem_or_eq_of_mem_set hk with hk | hk
    · exact h.unnumbered hnum hi htrans hk
    · exact hnew k hk.symm

/-- The task that moves keeps its capture and reports nothing. -/
theorem Reporting.advance_quiet (h : Reporting c) (hnum : Numbering c)
    (hnodup : (c.tasks.filterMap ident).Nodup) (hi : c.tasks[j]? = some t)
    (htrans : Transition c.shared t x' t') (hcap : capture t' = capture t)
    (hevents : x'.events = c.shared.events) (hquiet : ∀ k id, t ≠ .forwarding k id)
    (hnew : ∀ k, t' ≠ .numbering k) : Reporting ⟨x', c.tasks.set j t'⟩ := by
  refine h.advance_of hnum hnodup hi htrans (fun id k hown => ?_)
    (fun k hk => absurd hk (hnew k)) fun e he => ?_
  · obtain ⟨s, hk, hev⟩ := h.reported j t hi id k (hcap ▸ hown)
    obtain ⟨s', hk', hreceived⟩ := transition_received htrans hk (hquiet k)
    exact ⟨s', hk', by rw [eventsOf, hevents, hreceived]; exact hev⟩
  · have hident : ident t' = ident t := by rw [ident, ident, hcap]
    exact mem_idents_set hi hident (h.known e (hevents ▸ he))

theorem eventsOf_forward (id : UInt64) (line : Text) :
    eventsOf (x.setStream k s) id ++ forward id [line] =
      eventsOf (Captures.setStream { x with events := x.events ++ forward id [line] } k s') id := by
  simp [eventsOf, Captures.setStream, forward]

theorem Reporting.advance (h : Reporting c) (hnum : Numbering c) (hi : c.tasks[j]? = some t)
    (htrans : Transition c.shared t x' t') (hnodup : (c.tasks.filterMap ident).Nodup)
    (hnodup' : ((c.tasks.set j t').filterMap ident).Nodup) :
    Reporting ⟨x', c.tasks.set j t'⟩ := by
  have hmem := List.mem_of_getElem? hi
  have hof := h.advance_of hnum hnodup hi htrans
  cases htrans with
  | opened =>
    refine hof nofun (fun k hk => ?_) fun e he => ?_
    · obtain rfl := Task.numbering.inj hk
      exact ⟨_, by rw [List.getElem?_append_right (le_refl _), Nat.sub_self]; rfl, rfl⟩
    · exact mem_idents_set hi rfl (h.known e he)
  | @numbered k =>
    have hnew : ((c.tasks.set j (.registering k c.shared.nextId)).filterMap ident).Perm
        (c.tasks.filterMap ident ++ [c.shared.nextId]) := filterMap_set_perm ident hi rfl rfl
    have hunused : c.shared.nextId ∉ c.tasks.filterMap ident := fun hin =>
      (List.nodup_append.mp (hnew.nodup_iff.mp hnodup')).2.2 _ hin _ (List.mem_singleton_self _) rfl
    refine hof (fun id k' hown => ?_) nofun fun e he => ?_
    · obtain ⟨rfl, rfl⟩ := Prod.mk.inj (Option.some.inj hown)
      obtain ⟨s, hs, hempty⟩ := h.fresh _ hmem
      refine ⟨s, hs, ?_⟩
      rw [hempty]
      refine List.filter_eq_nil_iff.mpr fun e he heq => hunused ?_
      rw [← of_decide_eq_true heq]
      exact h.known e he
    · exact hnew.mem_iff.mpr (List.mem_append_left _ (h.known e he))
  | @forwarded k id s line ch hk hr =>
    refine hof (fun id' k' hown => ?_) nofun fun e he => ?_
    · obtain ⟨rfl, rfl⟩ := Prod.mk.inj (Option.some.inj hown)
      obtain ⟨s₀, hs₀, hevents⟩ := h.reported j _ hi id k rfl
      obtain rfl := Option.some.inj (hs₀.symm.trans hk)
      refine ⟨{ s₀ with lines := ch }, ?_, ?_⟩
      · rw [Captures.setStream, List.getElem?_set_self', hk]
        rfl
      · rw [← eventsOf_forward (s := s₀), hr.received]
        have happend : forward id (s₀.lines.received ++ [line]) =
            forward id s₀.lines.received ++ forward id [line] := List.map_append
        rw [happend, ← hevents]
        rfl
    · refine mem_idents_set hi rfl ?_
      rcases List.mem_append.mp he with he | he
      · exact h.known e he
      · obtain rfl := List.mem_singleton.mp he
        exact mem_idents hi rfl
  | @closed k id s =>
    exact hof (fun id' k' hown => h.reported j _ hi id' k' hown) nofun fun e he =>
      mem_idents_set hi rfl (h.known e he)
  | streams hk hs =>
    exact h.advance_quiet hnum hnodup hi (.streams hk hs) rfl rfl nofun nofun
  | registered => exact h.advance_quiet hnum hnodup hi .registered rfl rfl nofun nofun
  | forgot hk => exact h.advance_quiet hnum hnodup hi (.forgot hk) rfl rfl nofun nofun
  | refused => exact h.advance_quiet hnum hnodup hi .refused rfl rfl nofun nofun
  | stops hl => exact h.advance_quiet hnum hnodup hi (.stops hl) rfl rfl nofun nofun
  | notFound hl => exact h.advance_quiet hnum hnodup hi (.notFound hl) rfl rfl nofun nofun
  | stopped hk => exact h.advance_quiet hnum hnodup hi (.stopped hk) rfl rfl nofun nofun

/-- The invariants together. While fewer than `2 ^ 64` calls were made, the identifiers differ. -/
structure Sound (c : Config Captures Task) : Prop where
  numbering : Numbering c
  streaming : Streaming c
  reporting : c.tasks.length ≤ UInt64.size → Reporting c

theorem Sound.act (h : Sound c) (hact : tcpdump.act c a = some c') : Sound c' := by
  have hnumbering := h.numbering.act hact
  refine ⟨hnumbering, h.streaming.act hact, fun hcalls => ?_⟩
  have hcalls' := (act_length hact).trans hcalls
  have hreporting := h.reporting hcalls'
  have hnodup := hnumbering.nodup hcalls
  obtain ⟨t, rfl, hs, rfl⟩ | ⟨j, e, t, x', t', rfl, hi, hs, rfl⟩ := act_cases hact
  · have hstart : starts t = true := hs
    have hnone : capture t = none := by cases t <;> first | rfl | cases hstart
    refine ⟨fun i u hu id k hcap => ?_, fun k hk => ?_, fun e he => ?_⟩
    · obtain hu | ⟨-, rfl⟩ := getElem?_append_singleton_cases hu
      · exact hreporting.reported i u hu id k hcap
      · rw [hnone] at hcap
        cases hcap
    · rcases List.mem_append.mp hk with hk | hk
      · exact hreporting.fresh k hk
      · rw [← List.mem_singleton.mp hk] at hstart
        cases hstart
    · rw [List.filterMap_append]
      exact List.mem_append_left _ (hreporting.known e he)
  · exact hreporting.advance h.numbering hi (step_transition hs) (h.numbering.nodup hcalls') hnodup

theorem run_sound (hr : tcpdump.run idle as = some d) : Sound d := by
  have hstart : Sound idle := by
    refine ⟨⟨.start, .nil⟩, ⟨nofun, nofun, ?_⟩, fun _ => ⟨?_, ?_, nofun⟩⟩
    · intro t ht k id hend
      obtain rfl := List.mem_singleton.mp ht
      obtain h | h := hend <;> cases h
    · intro i t hi id k hcap
      obtain rfl := List.mem_singleton.mp (List.mem_of_getElem? hi)
      cases hcap
    · intro k hk
      cases List.mem_singleton.mp hk
  exact run_always Sound (fun _ _ _ hc hact => hc.act hact) hstart hr

/-- However captures, stops and the output of the channels interleave, a capture reports the lines
of its channel in their order, and a finished one has reported all that the channel had brought. -/
theorem captures_report (hr : tcpdump.run idle as = some d)
    (hcalls : d.tasks.length ≤ UInt64.size) :
    (∀ e ∈ d.shared.events, ∃ t ∈ d.tasks, ident t = some e.captureId) ∧
    ∀ t ∈ d.tasks, ∀ id k, capture t = some (id, k) → ∃ s, d.shared.streams[k]? = some s ∧
      eventsOf d.shared id <+: forward id (streamTask none s.messages [] []) ∧
      (t = .ended k id → ∃ cancelAt,
        (cancelAt = none ∨ cancelAt = some s.messages.length ∧ s.cancelled = true) ∧
          eventsOf d.shared id = forward id (streamTask cancelAt s.messages [] [])) := by
  have hsound := run_sound hr
  have hreporting := hsound.reporting hcalls
  refine ⟨fun e he => List.mem_filterMap.mp (hreporting.known e he), fun t ht id k hcap => ?_⟩
  obtain ⟨i, hi⟩ := List.getElem?_of_mem ht
  obtain ⟨s, hk, hevents⟩ := hreporting.reported i t hi id k hcap
  refine ⟨s, hk, ?_, ?_⟩
  · have hwhole := (hsound.streaming.framed k s hk).sent_whole
    rw [Stream.whole, Option.map_none, List.append_nil] at hwhole
    rw [hevents]
    exact (s.lines.received_prefix.trans hwhole).map _
  · rintro rfl
    obtain ⟨s₁, hk₁, hended, hqueue⟩ := hsound.streaming.drained _ ht k id (.inr rfl)
    obtain rfl := Option.some.inj (hk₁.symm.trans hk)
    obtain ⟨cancelAt, hcut, hsent⟩ := (hsound.streaming.framed k s₁ hk).final hended
    refine ⟨cancelAt, hcut, ?_⟩
    rw [hevents, ← hsent, ← s₁.lines.whole, hqueue, List.append_nil]

def polls (k : ℕ) (message : Option (Option ChannelMsg)) : Action Task Event :=
  .advance 0 ⟨.ok (), k, message⟩

def moves (i : ℕ) : Action Task Event := .advance i ⟨.ok (), 0, none⟩

/-- Two captures beside each other; the first is stopped within a line. -/
def twoCaptures : List (Action Task Event) :=
  [.spawn (.start "any".toList [] none), moves 1, .spawn (.start "en0".toList [] none), moves 2,
    moves 2, moves 2, moves 1, moves 1, polls 0 (some (some (.data [97, 10, 98]))),
    polls 1 (some (some (.extendedData 1 [99, 10]))), polls 1 none, polls 0 none, moves 2, moves 1,
    .spawn (.stop 2), moves 3, moves 3, polls 0 none, polls 0 none, moves 1, moves 1]

theorem captures_report_twoCaptures : ∃ d s, tcpdump.run idle twoCaptures = some d ∧
    d.shared.events = [⟨1, ['c'], true⟩, ⟨2, ['a'], false⟩] ∧ d.shared.streams[0]? = some s ∧
      eventsOf d.shared 2 <+: forward 2 (streamTask none s.messages [] []) := by
  have hrun : ∃ d, tcpdump.run idle twoCaptures = some d ∧
      d.shared.events = [⟨1, ['c'], true⟩, ⟨2, ['a'], false⟩] ∧
        .ended 0 2 ∈ d.tasks ∧ d.tasks.length ≤ UInt64.size := run_decided (by decide +kernel)
  obtain ⟨d, hd, hevents, hended, hcalls⟩ := hrun
  obtain ⟨s, hs, hprefix, -⟩ := (captures_report hd hcalls).2 _ hended 2 0 rfl
  exact ⟨d, s, hd, hevents, hs, hprefix⟩

end SshCommander.CaptureReports
