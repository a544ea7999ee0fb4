import SshCommander.ConnectionManager

/-!
# PTY state and its connection

A close takes the connection out of the map, and then purges its PTY state. A start that took the
client before may still bump the counter and store its session after the purge. Both are covered
while the id is connected, or while some call is sure to purge the id or to connect it.
-/

namespace SshCommander.PtyLifetimes
open InterleavedTasks InterleavedTasks.TaskSystem RustText PtyRegistry PtyRegistry.Registry
open ConnectionManager ConnectionManager.Manager

variable {c c' d : Config Manager ConnectionManager.Task} {m m' : Manager} {id id' : Text}
  {a : Action ConnectionManager.Task Event} {as : List (Action ConnectionManager.Task Event)}
  {i : ℕ} {e : Event} {t t' : ConnectionManager.Task}

def Registered (m : Manager) (id : Text) : Prop := (m.getConnection id).isSome

def HasSession (m : Manager) (id : Text) : Prop := (m.ptys.sessions.lookup id).isSome

def HasCounter (m : Manager) (id : Text) : Prop := (m.ptys.generations.lookup id).isSome

instance : Decidable (Registered m id) := inferInstanceAs (Decidable (_ = true))

instance : Decidable (HasSession m id) := inferInstanceAs (Decidable (_ = true))

instance : Decidable (HasCounter m id) := inferInstanceAs (Decidable (_ = true))

/-- The call is sure to take the session of the id, or to connect the id. -/
def settles (id : Text) : ConnectionManager.Task → Bool
  | .clearing id' _ (.ok _) | .replacing id' _ | .purgingSession id' _ _
  | .publishing id' (some _) | .inserting id' _ => id' = id
  | _ => false

def forgets (id : Text) : ConnectionManager.Task → Bool
  | .purgingGeneration id' _ _ => id' = id
  | t => settles id t

def Guarded (sees : Text → ConnectionManager.Task → Bool)
    (c : Config Manager ConnectionManager.Task) (id : Text) : Prop :=
  HoldsOrDue (Registered · id) (sees id) c

instance (sees : Text → ConnectionManager.Task → Bool) : Decidable (Guarded sees c id) :=
  inferInstanceAs (Decidable ((c.shared.getConnection id).isSome = true ∨ ∃ t ∈ c.tasks, _))

/-- Where `insert` bumps the counter and stores its session, the id is connected, or some call is
sure to forget the counter and to take the session, or to connect the id. -/
def insertGuarded (c : Config Manager ConnectionManager.Task) : ConnectionManager.Task → Bool
  | .bumping id _ => Guarded forgets c id
  | .storing id _ _ => Guarded settles c id
  | _ => true

def InsertsGuarded (c : Config Manager ConnectionManager.Task) :
    Action ConnectionManager.Task Event → Prop
  | .spawn _ => True
  | .advance i _ => ∀ t ∈ c.tasks[i]?, insertGuarded c t = true

instance : ∀ a, Decidable (InsertsGuarded c a)
  | .spawn _ => .isTrue trivial
  | .advance i _ => inferInstanceAs (Decidable (∀ t ∈ c.tasks[i]?, _))

def opensSsh : Action ConnectionManager.Task Event → Bool
  | .spawn (.create _ kind) => kind = .ssh
  | _ => true

def kinds : ConnectionManager.Task → List ProtocolKind
  | .create _ kind | .selecting _ kind _ | .opening _ kind => [kind]
  | .clearing _ _ (.ok conn) | .replacing _ conn | .inserting _ conn => [conn.kind]
  | .purgingSession _ old next | .purgingGeneration _ old next | .disconnecting _ old next =>
    old.kind :: next.toList.map (·.kind)
  | .publishing _ next => next.toList.map (·.kind)
  | _ => []

structure AllSsh (c : Config Manager ConnectionManager.Task) : Prop where
  registered : ∀ id conn, c.shared.connections.lookup id = some conn → conn.kind = .ssh
  held : ∀ t ∈ c.tasks, ∀ kind ∈ kinds t, kind = .ssh

theorem AllSsh.lookup (h : AllSsh c) (hid : (c.shared.connections.lookup id).isSome) :
    Registered c.shared id := by
  obtain ⟨conn, hconn⟩ := Option.isSome_iff_exists.mp hid
  simp [Registered, getConnection, hconn, h.registered id conn hconn]

theorem kinds_disconnect (old : ManagedConnection) (next : Option ManagedConnection) :
    kinds (disconnectManagedConnection id old next) = old.kind :: next.toList.map (·.kind) := by
  unfold disconnectManagedConnection
  split <;> rfl

theorem AllSsh.advance (h : AllSsh c) (hi : c.tasks[i]? = some t)
    (hs : Transition c.shared e t m' t') : AllSsh ⟨m', c.tasks.set i t'⟩ := by
  have ht := h.held t (List.mem_of_getElem? hi)
  have hrest (hk : ∀ kind ∈ kinds t', kind = .ssh) :
      ∀ u ∈ c.tasks.set i t', ∀ kind ∈ kinds u, kind = .ssh := by
    intro u hu
    rcases List.mem_or_eq_of_mem_set hu with hu | rfl
    · exact h.held u hu
    · exact hk
  have hquiet (hm : m'.connections = c.shared.connections) (hk : kinds t' ⊆ kinds t) :
      AllSsh ⟨m', c.tasks.set i t'⟩ :=
    ⟨hm ▸ h.registered, hrest fun kind hkind => ht kind (hk hkind)⟩
  have hremove {id : Text} {old : ManagedConnection} {next : Option ManagedConnection}
      (hm : m'.connections = c.shared.connections.erase id)
      (hold : c.shared.connections.lookup id = some old) (hk : ∀ conn ∈ next, conn.kind = .ssh)
      (hd : t' = disconnectManagedConnection id old next) : AllSsh ⟨m', c.tasks.set i t'⟩ := by
    refine ⟨fun id' conn hl => ?_, hrest ?_⟩
    · rw [hm] at hl
      by_cases hid : id' = id
      · subst hid
        cases (AList.lookup_erase _ _).symm.trans hl
      · exact h.registered id' conn ((AList.lookup_erase_ne hid).symm.trans hl)
    · rw [hd, kinds_disconnect]
      simpa [h.registered id old hold] using hk
  cases hs with
  | removedPrevious hold => exact hremove rfl hold (by simpa [kinds] using ht) rfl
  | taken hold => exact hremove rfl hold (by simp) rfl
  | @inserted id conn =>
    refine ⟨fun id' conn' hl => ?_, hrest (by simp [kinds])⟩
    by_cases hid : id' = id
    · subst hid
      obtain rfl := Option.some.inj ((AList.lookup_insert _).symm.trans hl)
      exact ht _ (by simp [kinds])
    · exact h.registered id' conn' ((AList.lookup_insert_ne hid).symm.trans hl)
  | answered => exact hquiet (cancelPendingConnection_connections _ _) (by simp [kinds])
  | _ => exact hquiet rfl (by simp [kinds, openConnection])

variable {sees : Text → ConnectionManager.Task → Bool}

theorem registered_remove (hid : id' ≠ id) (h : Registered m id') :
    Registered (m.removeConnection id) id' := by
  simpa [Registered, getConnection, removeConnection, AList.lookup_erase_ne hid] using h

theorem registered_insert {conn : ManagedConnection} (hk : conn.kind = .ssh)
    (h : id' = id ∨ Registered m id') : Registered (m.insertConnection id conn) id' := by
  by_cases hid : id' = id
  · subst hid
    simp [Registered, getConnection, insertConnection, hk]
  · simpa [Registered, getConnection, insertConnection, AList.lookup_insert_ne hid] using
      h.resolve_left hid

/-- A step that removes the connection goes on to purge its PTY state. -/
theorem Guarded.remove {old : ManagedConnection} {next : Option ManagedConnection}
    (h : Guarded sees c id') (hi : c.tasks[i]? = some t) (hk : old.kind = .ssh)
    (ht : ∀ id', sees id' t = true → id' = id)
    (hpurge : sees id (.purgingSession id old next) = true) :
    Guarded sees ⟨c.shared.removeConnection id,
      c.tasks.set i (disconnectManagedConnection id old next)⟩ id' := by
  have ht' : disconnectManagedConnection id old next = .purgingSession id old next := by
    simp [disconnectManagedConnection, hk]
  rw [ht']
  by_cases hid : id' = id
  · subst hid
    exact HoldsOrDue.advance h hi (fun _ => .inr hpurge) fun _ => .inr hpurge
  · exact HoldsOrDue.advance h hi (fun hsees => absurd (ht id' hsees) hid) fun hreg =>
      .inl (registered_remove hid hreg)

/-- Only the two steps of a purge give up an id they have seen to. -/
theorem guarded_advance (hsees : sees = settles ∨ sees = forgets) (hssh : AllSsh c)
    (hi : c.tasks[i]? = some t) (hs : Transition c.shared e t m' t') (h : Guarded sees c id)
    (hpurge : ∀ id' old next,
      t = .purgingSession id' old next ∨ t = .purgingGeneration id' old next →
      sees id t = true → sees id t' = true) : Guarded sees ⟨m', c.tasks.set i t'⟩ id := by
  have hheld := hssh.held t (List.mem_of_getElem? hi)
  cases hs with
  | removedPrevious hold =>
    refine h.remove hi (hssh.registered _ _ hold) ?_ ?_ <;>
      rcases hsees with rfl | rfl <;> simp [forgets, settles, eq_comm]
  | taken hold =>
    refine h.remove hi (hssh.registered _ _ hold) ?_ ?_ <;>
      rcases hsees with rfl | rfl <;> simp [forgets, settles]
  | @inserted id' conn =>
    have hk : conn.kind = .ssh := hheld _ (by simp [kinds])
    refine HoldsOrDue.advance h hi (fun hown => .inl ?_) fun hreg =>
      .inl (registered_insert hk (.inr hreg))
    refine registered_insert hk (.inl ?_)
    rcases hsees with rfl | rfl <;> simpa [forgets, settles, eq_comm] using hown
  | purgedSession =>
    exact HoldsOrDue.advance h hi (fun hown => .inr (hpurge _ _ _ (.inl rfl) hown)) fun hreg =>
      .inl hreg
  | purgedGeneration =>
    exact HoldsOrDue.advance h hi (fun hown => .inr (hpurge _ _ _ (.inr rfl) hown)) fun hreg =>
      .inl hreg
  | cleared | nothingToReplace | previousClosed =>
    refine HoldsOrDue.advance h hi (fun hown => .inr ?_) fun hreg => .inl hreg
    rcases hsees with rfl | rfl <;> exact hown
  | answered =>
    refine HoldsOrDue.advance h hi ?_ fun hreg => .inl ?_
    · rcases hsees with rfl | rfl <;> simp [forgets, settles]
    · simpa [Registered, getConnection] using hreg
  | _ =>
    refine HoldsOrDue.advance h hi ?_ fun hreg => .inl hreg
    rcases hsees with rfl | rfl <;> simp [forgets, settles]

theorem settles_advance (hssh : AllSsh c) (hi : c.tasks[i]? = some t)
    (hs : Transition c.shared e t m' t') (h : Guarded settles c id) (hhas : HasSession m' id) :
    Guarded settles ⟨m', c.tasks.set i t'⟩ id := by
  refine guarded_advance (.inl rfl) hssh hi hs h ?_
  rintro id' old next (rfl | rfl) hown
  · cases hs
    obtain rfl : id' = id := by simpa [settles] using hown
    simp [HasSession, setPtys, lookup_take_self] at hhas
  · simp [settles] at hown

theorem forgets_advance (hssh : AllSsh c) (hi : c.tasks[i]? = some t)
    (hs : Transition c.shared e t m' t') (h : Guarded forgets c id) (hhas : HasCounter m' id) :
    Guarded forgets ⟨m', c.tasks.set i t'⟩ id := by
  refine guarded_advance (.inr rfl) hssh hi hs h ?_
  rintro id' old next (rfl | rfl) hown
  · cases hs
    exact hown
  · cases hs
    obtain rfl : id' = id := by simpa [forgets] using hown
    simp [HasCounter, setPtys, forget] at hhas

theorem HasSession.before (hs : Transition m e t m' t') (h : HasSession m' id) :
    HasSession m id ∨ ∃ s g, t = .storing id s g := by
  cases hs with
  | @stored id' s g =>
    by_cases hid : id = id'
    · exact .inr ⟨s, g, hid ▸ rfl⟩
    · exact .inl (by simpa [HasSession, setPtys, lookup_store_ne hid] using h)
  | purgedSession | ptyCancelled | ptyRemoved | ptyTaken =>
    obtain ⟨s, hl⟩ := Option.isSome_iff_exists.mp h
    exact .inl (Option.isSome_iff_exists.mpr ⟨s, lookup_of_take hl⟩)
  | answered => exact .inl (by simpa [HasSession] using h)
  | _ => exact .inl h

theorem HasCounter.before (hs : Transition m e t m' t') (h : HasCounter m' id) :
    HasCounter m id ∨ ∃ s, t = .bumping id s := by
  cases hs with
  | @bumped id' s =>
    by_cases hid : id = id'
    · exact .inr ⟨s, hid ▸ rfl⟩
    · exact .inl (by simpa [HasCounter, setPtys, bump, AList.lookup_insert_ne hid] using h)
  | @purgedGeneration id' =>
    by_cases hid : id = id'
    · subst hid
      simp [HasCounter, setPtys, forget] at h
    · exact .inl (by simpa [HasCounter, setPtys, forget, AList.lookup_erase_ne hid] using h)
  | purgedSession | ptyCancelled | ptyRemoved | ptyTaken | answered =>
    exact .inl (by simpa [HasCounter, setPtys, cancelExisting] using h)
  | _ => exact .inl h

structure Covered (c : Config Manager ConnectionManager.Task) : Prop where
  ssh : AllSsh c
  session : ∀ id, HasSession c.shared id → Guarded settles c id
  counter : ∀ id, HasCounter c.shared id → Guarded forgets c id

theorem covered_new : Covered ⟨.new, []⟩ :=
  ⟨⟨fun _ _ hl => by simp [Manager.new] at hl, by simp⟩,
    fun _ h => by simp [HasSession, Manager.new, Registry.new] at h,
    fun _ h => by simp [HasCounter, Manager.new, Registry.new] at h⟩

theorem Covered.advance (h : Covered c) (hi : c.tasks[i]? = some t)
    (hs : Transition c.shared e t m' t') (hins : InsertsGuarded c (.advance i e)) :
    Covered ⟨m', c.tasks.set i t'⟩ := by
  have hguarded : insertGuarded c t = true := hins t hi
  refine ⟨h.ssh.advance hi hs, fun id hhas => ?_, fun id hhas => ?_⟩
  · refine settles_advance h.ssh hi hs ?_ hhas
    rcases HasSession.before hs hhas with hb | ⟨s, g, rfl⟩
    · exact h.session id hb
    · exact of_decide_eq_true hguarded
  · refine forgets_advance h.ssh hi hs ?_ hhas
    rcases HasCounter.before hs hhas with hb | ⟨s, rfl⟩
    · exact h.counter id hb
    · exact of_decide_eq_true hguarded

theorem covered_act (h : Covered c) (hcond : opensSsh a = true ∧ InsertsGuarded c a)
    (hact : manager.act c a = some c') : Covered c' := by
  rcases act_cases hact with ⟨t, rfl, ht, rfl⟩ | ⟨i, e, t, m', t', rfl, hi, hs, rfl⟩
  · refine ⟨⟨h.ssh.registered, fun u hu => ?_⟩,
      fun id hhas => HoldsOrDue.spawn (h.session id hhas) t,
      fun id hhas => HoldsOrDue.spawn (h.counter id hhas) t⟩
    rcases List.mem_append.mp hu with hu | hu
    · exact h.ssh.held u hu
    · obtain rfl := List.mem_singleton.mp hu
      cases u with
      | create id kind => simpa [kinds, opensSsh] using hcond.1
      | close | startPty | closePty | cancelPending => simp [kinds]
      | _ => cases ht
  · exact h.advance hi (step_transition hs) hcond.2

theorem not_sees_of_done (hsees : sees = settles ∨ sees = forgets) (ht : t.done = true) :
    sees id t = false := by
  cases t with
  | started | answered | finished | failed => rcases hsees with rfl | rfl <;> rfl
  | _ => cases ht

/-- In a run that opens SSH connections only, and in which every `insert` is guarded when it bumps
and when it stores, every id with PTY state is connected over SSH whenever no call is left. -/
theorem pty_state_within_connection (hssh : ∀ a ∈ as, opensSsh a = true)
    (hm : manager.Meets InsertsGuarded ⟨.new, []⟩ as) (hr : manager.run ⟨.new, []⟩ as = some d)
    (hdone : ∀ t ∈ d.tasks, t.done = true) (id : Text)
    (hstate : HasSession d.shared id ∨ HasCounter d.shared id) : Registered d.shared id := by
  have h : Covered d := run_invariant (fun _ _ _ h hcond hact => covered_act h hcond hact)
    covered_new (meets_and (meets_of_forall hssh) hm) hr
  rcases hstate with hhas | hhas
  · exact (h.session id hhas).holds fun t ht => not_sees_of_done (.inl rfl) (hdone t ht)
  · exact (h.counter id hhas).holds fun t ht => not_sees_of_done (.inr rfl) (hdone t ht)

/-- A shell is stored between the close and its purge, and another one after the connection is
opened again. -/
def shellAfterReopen : List (Action ConnectionManager.Task Event) :=
  .spawn (.create "c".toList .ssh) :: advances 0 6 ++
    .spawn (.startPty "c".toList) :: advances 1 3 ++
    .spawn (.close "c".toList .ssh) :: (advances 2 1 ++ advances 1 2 ++ advances 2 4) ++
    .spawn (.create "c".toList .ssh) :: advances 3 6 ++
    .spawn (.startPty "c".toList) :: advances 4 5

theorem pty_state_shellAfterReopen : ∃ d, manager.run ⟨.new, []⟩ shellAfterReopen = some d ∧
    HasSession d.shared "c".toList ∧ Registered d.shared "c".toList := by
  have hrun : ∃ d, manager.run ⟨.new, []⟩ shellAfterReopen = some d ∧
      (∀ t ∈ d.tasks, t.done = true) ∧ HasSession d.shared "c".toList :=
    run_decided (by decide +kernel)
  obtain ⟨d, hd, hdone, hhas⟩ := hrun
  exact ⟨d, hd, hhas, pty_state_within_connection (by decide +kernel) (by decide +kernel) hd hdone _
    (.inl hhas)⟩

/-- A start has opened its channel when a close takes the connection and purges it. -/
def shellAfterClose : List (Action ConnectionManager.Task Event) :=
  .spawn (.create "c".toList .ssh) :: advances 0 6 ++
    .spawn (.startPty "c".toList) :: advances 1 3 ++
    .spawn (.close "c".toList .ssh) :: (advances 2 5 ++ advances 1 2)

/-- The session and its counter stay, and the connection is gone. -/
theorem shellAfterClose_outlives : ∃ d, manager.run ⟨.new, []⟩ shellAfterClose = some d ∧
    (∀ t ∈ d.tasks, t.done = true) ∧ HasSession d.shared "c".toList ∧
      HasCounter d.shared "c".toList ∧ ¬Registered d.shared "c".toList :=
  run_decided (by decide +kernel)

end SshCommander.PtyLifetimes
