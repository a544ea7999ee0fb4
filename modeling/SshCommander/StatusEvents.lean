import SshCommander.ConnectionManager

/-!
# Status events and the map

A call changes the map under the lock and publishes after it, so the events of two calls on one id
can come the other way round than their changes. The last one agrees with the map all the same, as
long as a call that publishes something else is not the last one to publish.
-/

namespace SshCommander.StatusEvents
open InterleavedTasks InterleavedTasks.TaskSystem RustText
open ConnectionManager ConnectionManager.Manager

variable {c c' d : Config Manager ConnectionManager.Task} {m m' : Manager} {id id' : Text}
  {status : ConnectionStatus} {a : Action ConnectionManager.Task Event}
  {as : List (Action ConnectionManager.Task Event)} {i : ℕ} {e : Event}
  {t t' : ConnectionManager.Task}

def lastStatus (m : Manager) (id : Text) : Option ConnectionStatus :=
  (m.events.find? (·.1 = id)).map (·.2)

/-- `Connected` is the last status exactly when the id is in the map. -/
def Agrees (id : Text) (m : Manager) : Prop :=
  ∀ status ∈ lastStatus m id, status = .connected ↔ (m.connections.lookup id).isSome

/-- The call goes on to publish for the id, as long as disconnects succeed. -/
def owes (id : Text) : ConnectionManager.Task → Bool
  | .clearing id' _ (.ok _) | .replacing id' _ | .purgingSession id' _ _
  | .purgingGeneration id' _ _ | .disconnecting id' _ _ | .publishing id' _ | .inserting id' _
  | .announcing id' => id' = id
  | _ => false

/-- What a call publishes last is what the map says, or another call goes on to publish. -/
def publishesState (c : Config Manager ConnectionManager.Task) (i : ℕ) :
    ConnectionManager.Task → Bool
  | .publishing id none =>
    (c.shared.connections.lookup id).isNone ∨ ∃ t ∈ c.tasks.eraseIdx i, owes id t
  | .announcing id =>
    (c.shared.connections.lookup id).isSome ∨ ∃ t ∈ c.tasks.eraseIdx i, owes id t
  | _ => true

def PublishesState (c : Config Manager ConnectionManager.Task) :
    Action ConnectionManager.Task Event → Prop
  | .spawn _ => True
  | .advance i _ => ∀ t ∈ c.tasks[i]?, publishesState c i t = true

instance : ∀ a, Decidable (PublishesState c a)
  | .spawn _ => .isTrue trivial
  | .advance i _ => inferInstanceAs (Decidable (∀ t ∈ c.tasks[i]?, _))

def disconnects : Action ConnectionManager.Task Event → Bool
  | .spawn _ => true
  | .advance _ e => e.disconnect.isOk

theorem lastStatus_publish_self : lastStatus (m.publish id status) id = some status := by
  simp [lastStatus, publish]

theorem lastStatus_publish_ne (hid : id' ≠ id) :
    lastStatus (m.publish id status) id' = lastStatus m id' := by
  simp [lastStatus, publish, Ne.symm hid]

theorem agrees_publish (h : id' = id → (status = .connected ↔ (m.connections.lookup id).isSome))
    (hother : id' ≠ id → Agrees id' m) : Agrees id' (m.publish id status) := by
  intro status' hl
  by_cases hid : id' = id
  · subst hid
    rw [lastStatus_publish_self] at hl
    obtain rfl := Option.some.inj hl
    exact h rfl
  · rw [lastStatus_publish_ne hid] at hl
    exact hother hid status' hl

/-- Another call goes on to publish after the step of this one. -/
theorem owes_of_eraseIdx (h : ∃ u ∈ c.tasks.eraseIdx i, owes id u = true) :
    ∃ u ∈ c.tasks.set i t', owes id u = true := by
  obtain ⟨u, hu, howes⟩ := h
  obtain ⟨j, hj, hget⟩ := List.mem_eraseIdx_iff_getElem?.mp hu
  exact ⟨u, List.mem_of_getElem? (i := j) (by rwa [List.getElem?_set_ne (Ne.symm hj)]), howes⟩

theorem owes_disconnect (old : ManagedConnection) (next : Option ManagedConnection) :
    owes id' (disconnectManagedConnection id old next) = decide (id = id') := by
  unfold disconnectManagedConnection
  split <;> rfl

theorem agrees_congr (he : m'.events = m.events)
    (hl : m'.connections.lookup id = m.connections.lookup id) : Agrees id m' ↔ Agrees id m := by
  simp only [Agrees, lastStatus, he, hl]

/-- A call that changes the map for its id goes on to publish. -/
theorem agrees_change (h : HoldsOrDue (Agrees id) (owes id) c) (hi : c.tasks[i]? = some t)
    (hother : id ≠ id' → (Agrees id m' ↔ Agrees id c.shared))
    (ht : owes id t = true → id' = id) (ht' : id' = id → owes id t' = true) :
    HoldsOrDue (Agrees id) (owes id) ⟨m', c.tasks.set i t'⟩ := by
  refine h.advance hi (fun howes => .inr (ht' (ht howes))) fun hagrees => ?_
  by_cases hid : id' = id
  · exact .inr (ht' hid)
  · exact .inl ((hother (Ne.symm hid)).mpr hagrees)

/-- The last step of a call publishes what the map says, or leaves that to another call. -/
theorem agrees_last (h : HoldsOrDue (Agrees id) (owes id) c) (hi : c.tasks[i]? = some t)
    (ht : owes id t = true → id' = id)
    (hp : ((status = .connected ↔ (c.shared.connections.lookup id').isSome)) ∨
      ∃ u ∈ c.tasks.eraseIdx i, owes id' u = true) :
    HoldsOrDue (Agrees id) (owes id) ⟨c.shared.publish id' status, c.tasks.set i t'⟩ := by
  by_cases hid : id' = id
  · subst hid
    refine hp.imp (fun hstate => ?_) owes_of_eraseIdx
    exact agrees_publish (fun _ => hstate) fun hne => absurd rfl hne
  · refine h.advance hi (fun howes => absurd (ht howes) hid) fun hagrees => .inl ?_
    exact agrees_publish (fun heq => absurd heq.symm hid) fun _ => hagrees

theorem agrees_advance (hi : c.tasks[i]? = some t) (hs : Transition c.shared e t m' t')
    (hd : e.disconnect.isOk = true) (hp : publishesState c i t = true)
    (h : HoldsOrDue (Agrees id) (owes id) c) :
    HoldsOrDue (Agrees id) (owes id) ⟨m', c.tasks.set i t'⟩ := by
  cases hs with
  | removedPrevious =>
    refine agrees_change h hi (fun hne => agrees_congr rfl (AList.lookup_erase_ne hne)) ?_ ?_
    · simp [owes]
    · simp [owes_disconnect]
  | taken =>
    refine agrees_change h hi (fun hne => agrees_congr rfl (AList.lookup_erase_ne hne)) ?_ ?_
    · simp [owes]
    · simp [owes_disconnect]
  | inserted =>
    refine agrees_change h hi (fun hne => agrees_congr rfl (AList.lookup_insert_ne hne)) ?_ ?_ <;>
      simp [owes]
  | @previousClosed id' conn =>
    have hother (hne : id ≠ id') :
        Agrees id (c.shared.publish id' .disconnected) ↔ Agrees id c.shared := by
      simp only [Agrees, lastStatus_publish_ne hne]
      rfl
    exact agrees_change h hi hother (by simp [owes]) (by simp [owes])
  | closed =>
    refine agrees_last h hi (by simp [owes]) ?_
    simpa [publishesState] using hp
  | announced =>
    refine agrees_last h hi (by simp [owes]) ?_
    simpa [publishesState] using hp
  | disconnectFailed hk hfail => simp [hfail, Except.isOk, Except.toBool] at hd
  | cleared | nothingToReplace | purgedSession | purgedGeneration | disconnected =>
    exact h.advance hi (fun howes => .inr howes) fun hagrees => .inl hagrees
  | answered =>
    refine h.advance hi (by simp [owes]) fun hagrees => .inl ((agrees_congr ?_ ?_).mpr hagrees) <;>
      simp
  | _ => exact h.advance hi (by simp [owes]) fun hagrees => .inl hagrees

theorem agrees_act (h : ∀ id, HoldsOrDue (Agrees id) (owes id) c)
    (hcond : disconnects a = true ∧ PublishesState c a) (hact : manager.act c a = some c')
    (id : Text) : HoldsOrDue (Agrees id) (owes id) c' := by
  rcases act_cases hact with ⟨t, rfl, ht, rfl⟩ | ⟨i, e, t, m', t', rfl, hi, hs, rfl⟩
  · exact (h id).spawn t
  · exact agrees_advance hi (step_transition hs) hcond.1 (hcond.2 t hi) (h id)

theorem not_owes_of_done (ht : t.done = true) : owes id t = false := by
  cases t with
  | started | answered | finished | failed => rfl
  | _ => cases ht

/-- In a run in which no disconnect fails, and in which each call publishes last what the map says
by then or another call goes on to publish, the last status of every id agrees with the map
whenever no call is left. -/
theorem last_status_agrees (hdisc : ∀ a ∈ as, disconnects a = true)
    (hm : manager.Meets PublishesState ⟨.new, []⟩ as) (hr : manager.run ⟨.new, []⟩ as = some d)
    (hdone : ∀ t ∈ d.tasks, t.done = true) (id : Text) (status : ConnectionStatus)
    (hl : lastStatus d.shared id = some status) :
    status = .connected ↔ (d.shared.connections.lookup id).isSome := by
  have hnew (id : Text) : HoldsOrDue (Agrees id) (owes id) (⟨.new, []⟩ : Config _ _) :=
    .inl fun _ hl => by simp [lastStatus, Manager.new] at hl
  have h : ∀ id, HoldsOrDue (Agrees id) (owes id) d :=
    run_invariant (fun _ _ _ h hcond hact => agrees_act h hcond hact) hnew
      (meets_and (meets_of_forall hdisc) hm) hr
  exact (h id).holds (fun t ht => not_owes_of_done (hdone t ht)) status hl

/-- A close takes the connection while a create waits for its connect, and publishes when that one
has inserted its own. -/
def closeBesideCreate : List (Action ConnectionManager.Task Event) :=
  .spawn (.create "c".toList .sftp) :: advances 0 5 ++
    .spawn (.create "c".toList .ssh) :: (advances 1 2 ++
    .spawn (.close "c".toList .sftp) :: (advances 2 2 ++ advances 1 3 ++ advances 2 1 ++
    advances 1 1))

theorem last_status_closeBesideCreate : ∃ d, manager.run ⟨.new, []⟩ closeBesideCreate = some d ∧
    lastStatus d.shared "c".toList = some .connected ∧
      (d.shared.connections.lookup "c".toList).isSome := by
  have hrun : ∃ d, manager.run ⟨.new, []⟩ closeBesideCreate = some d ∧
      (∀ t ∈ d.tasks, t.done = true) ∧ lastStatus d.shared "c".toList = some .connected :=
    run_decided (by decide +kernel)
  obtain ⟨d, hd, hdone, hl⟩ := hrun
  exact ⟨d, hd, hl, (last_status_agrees (by decide +kernel) (by decide +kernel) hd hdone _ _ hl).mp
    rfl⟩

/-- A connection is closed between its insert and the event of that. -/
def closedBeforeAnnounced : List (Action ConnectionManager.Task Event) :=
  .spawn (.create "c".toList .sftp) :: advances 0 4 ++
    .spawn (.close "c".toList .sftp) :: (advances 1 3 ++ advances 0 1)

/-- `Connected` is the last status, and no connection is there. -/
theorem closedBeforeAnnounced_disagrees : ∃ d,
    manager.run ⟨.new, []⟩ closedBeforeAnnounced = some d ∧ (∀ t ∈ d.tasks, t.done = true) ∧
      (∀ a ∈ closedBeforeAnnounced, disconnects a = true) ∧
      lastStatus d.shared "c".toList = some .connected ∧
      d.shared.connections.lookup "c".toList = none :=
  run_decided (by decide +kernel)

end SshCommander.StatusEvents
