import SshCommander.ConnectionManager

/-!
# Orphaned PTY sessions

`start_pty_connection` cancels the session that is there, opens a channel, and stores the new
session over whatever is there by then. A session that is overwritten keeps its token, which no
later call can reach.
-/

namespace SshCommander.OrphanedSessions
open InterleavedTasks InterleavedTasks.TaskSystem RustText PtyRegistry PtyRegistry.Registry
open ConnectionManager ConnectionManager.Manager

variable {r : Registry} {pending : List PtySession} {id : Text} {s : PtySession} {g : ℕ}

/-- Every session ever stored is registered under its id, or its token is cancelled. -/
def NoOrphan (r : Registry) : Prop := ∀ x ∈ r.inserted,
  r.sessions.lookup x.connectionId = some x.session ∨ x.session ∈ r.cancelled

instance : Decidable (NoOrphan r) := inferInstanceAs (Decidable (∀ x ∈ r.inserted, _))

/-- `insert` stores its session while none is registered under the id. -/
def StoresOverNothing (c : Config Manager ConnectionManager.Task)
    (a : Action ConnectionManager.Task Event) : Prop :=
  ∀ i e id s g, a = .advance i e → c.tasks[i]? = some (.storing id s g) →
    c.shared.ptys.sessions.lookup id = none

theorem noOrphan_congr {r' : Registry} (hs : r'.sessions = r.sessions)
    (hc : r'.cancelled = r.cancelled) (hi : r'.inserted = r.inserted) :
    NoOrphan r' ↔ NoOrphan r := by
  simp only [NoOrphan, hs, hc, hi]

theorem noOrphan_take_iff (h : Sound r pending) : NoOrphan (r.take id) ↔ NoOrphan r := by
  simp only [NoOrphan, take_inserted, mem_cancelled_take]
  refine forall₂_congr fun x hx => ⟨?_, ?_⟩
  · rintro (hl | hc | htaken)
    · exact .inl (lookup_of_take hl)
    · exact .inr hc
    · obtain ⟨g, hg⟩ := h.registered htaken
      have hown : x = ⟨id, x.session, g⟩ := h.unique hx hg rfl
      rw [hown]
      exact .inl htaken
  · rintro (hl | hc)
    · by_cases hid : x.connectionId = id
      · exact .inr (.inr (hid ▸ hl))
      · exact .inl ((lookup_take_ne hid).trans hl)
    · exact .inr (.inl hc)

/-- The session that is overwritten is the orphan. -/
theorem noOrphan_store_iff (h : Sound r pending) (hnew : s ∉ r.inserted.map (·.session)) :
    NoOrphan (r.store id s g) ↔ NoOrphan r ∧ r.sessions.lookup id = none := by
  have hother : ∀ x ∈ r.inserted, x.session ≠ s := fun x hx hs => hnew (hs ▸ List.mem_map_of_mem hx)
  constructor
  · intro hstored
    constructor
    · intro x hx
      refine (hstored x (List.mem_cons_of_mem _ hx)).imp_left fun hl => ?_
      by_cases hid : x.connectionId = id
      · rw [hid] at hl
        exact absurd (Option.some.inj (lookup_store_self.symm.trans hl)).symm (hother x hx)
      · exact (lookup_store_ne hid).symm.trans hl
    · by_contra hsome
      obtain ⟨old, hold⟩ := Option.ne_none_iff_exists'.mp hsome
      obtain ⟨g', hmem⟩ := h.registered hold
      rcases hstored _ (List.mem_cons_of_mem _ hmem) with hl | hc
      · exact hother _ hmem (Option.some.inj (lookup_store_self.symm.trans hl)).symm
      · exact h.live id old hold hc
  · rintro ⟨hkept, hnone⟩ x hx
    rcases List.mem_cons.mp hx with rfl | hx
    · exact .inl lookup_store_self
    · refine (hkept x hx).imp_left fun hl => ?_
      have hid : x.connectionId ≠ id := fun hid => by cases (hid ▸ hl).symm.trans hnone
      exact (lookup_store_ne hid).trans hl

def unstored : ConnectionManager.Task → Option PtySession
  | .bumping _ s | .storing _ s _ => some s
  | _ => none

def Kept (c : Config Manager ConnectionManager.Task) : Prop :=
  Sound c.shared.ptys (c.tasks.filterMap unstored)

theorem kept_new : Kept ⟨.new, []⟩ := sound_new

variable {c c' : Config Manager ConnectionManager.Task} {a : Action ConnectionManager.Task Event}
  {i : ℕ} {e : Event} {t t' : ConnectionManager.Task} {m m' : Manager}

theorem unstored_disconnect (old : ManagedConnection) (next : Option ManagedConnection) :
    unstored (disconnectManagedConnection id old next) = none := by
  unfold disconnectManagedConnection
  split <;> rfl

/-- Only a step of `insert` can violate the condition. -/
theorem storesOverNothing_of_ne (hi : c.tasks[i]? = some t) (ht : ∀ id s g, t ≠ .storing id s g) :
    StoresOverNothing c (.advance i e) := by
  rintro j e' id s g heq hj
  obtain ⟨rfl, rfl⟩ := Action.advance.inj heq
  exact absurd (Option.some.inj (hi.symm.trans hj)) (ht id s g)

theorem storesOverNothing_storing (hi : c.tasks[i]? = some (.storing id s g)) :
    StoresOverNothing c (.advance i e) ↔ c.shared.ptys.sessions.lookup id = none := by
  constructor
  · intro hcond
    exact hcond i e id s g rfl hi
  · rintro hnone j e' id' s' g' heq hj
    obtain ⟨rfl, rfl⟩ := Action.advance.inj heq
    obtain ⟨rfl, rfl, rfl⟩ := Task.storing.inj (Option.some.inj (hi.symm.trans hj))
    exact hnone

/-- A step keeps the registry sound, and leaves an orphan that was not there exactly when it stores
a session over another one. -/
theorem advance_kept (h : Kept c) (hi : c.tasks[i]? = some t) (hs : Transition c.shared e t m' t') :
    Kept ⟨m', c.tasks.set i t'⟩ ∧
      (NoOrphan m'.ptys ↔ NoOrphan c.shared.ptys ∧ StoresOverNothing c (.advance i e)) := by
  have hother (ht : ∀ id s g, t ≠ .storing id s g)
      (hno : NoOrphan m'.ptys ↔ NoOrphan c.shared.ptys) :
      NoOrphan m'.ptys ↔ NoOrphan c.shared.ptys ∧ StoresOverNothing c (.advance i e) :=
    hno.trans (and_iff_left (storesOverNothing_of_ne hi ht)).symm
  have hquiet (hp : m'.ptys = c.shared.ptys) (hu : unstored t' = unstored t)
      (ht : ∀ id s g, t ≠ .storing id s g) : Kept ⟨m', c.tasks.set i t'⟩ ∧
        (NoOrphan m'.ptys ↔ NoOrphan c.shared.ptys ∧ StoresOverNothing c (.advance i e)) := by
    have hn := h.numbered.keep hi hu
    rw [← hp] at hn
    refine ⟨h.congr (by rw [hp]) (by rw [hp]) (by rw [hp]) hn, ?_⟩
    exact hother ht (by rw [hp])
  have htake (id : Text) (hp : m'.ptys = c.shared.ptys.take id) (hu : unstored t' = unstored t)
      (ht : ∀ id s g, t ≠ .storing id s g) : Kept ⟨m', c.tasks.set i t'⟩ ∧
        (NoOrphan m'.ptys ↔ NoOrphan c.shared.ptys ∧ StoresOverNothing c (.advance i e)) := by
    have hkept : Kept ⟨c.shared, c.tasks.set i t'⟩ := h.congr rfl rfl rfl (h.numbered.keep hi hu)
    refine ⟨?_, hother ht ?_⟩
    · simpa only [Kept, hp] using Sound.take hkept id
    · rw [hp]
      exact noOrphan_take_iff h
  cases hs with
  | purgedSession | ptyCancelled | ptyRemoved | ptyTaken =>
    exact htake _ rfl rfl (by rintro _ _ _ ⟨⟩)
  | purgedGeneration | bumped =>
    refine ⟨h.congr rfl rfl rfl (h.numbered.keep hi rfl), hother (by rintro _ _ _ ⟨⟩) ?_⟩
    exact noOrphan_congr rfl rfl rfl
  | ptyCreated =>
    refine ⟨h.congr rfl rfl rfl (h.numbered.take_fresh hi rfl rfl), hother (by rintro _ _ _ ⟨⟩) ?_⟩
    exact noOrphan_congr rfl rfl rfl
  | @stored id s g =>
    have hn : Numbered c.shared.ptys.created (s :: c.shared.ptys.inserted.map (·.session) ++
        (c.tasks.set i (.started g)).filterMap unstored) := h.numbered.hand_over hi rfl rfl
    refine ⟨Sound.store h hn, ?_⟩
    rw [storesOverNothing_storing hi]
    exact noOrphan_store_iff h (List.nodup_cons.mp (List.nodup_append.mp hn.nodup).1).1
  | removedPrevious | taken =>
    exact hquiet rfl (unstored_disconnect _ _) (by rintro _ _ _ ⟨⟩)
  | answered => exact hquiet (cancelPendingConnection_ptys _ _) rfl (by rintro _ _ _ ⟨⟩)
  | _ => exact hquiet rfl rfl (by rintro _ _ _ ⟨⟩)

theorem act_kept (h : Kept c) (hact : manager.act c a = some c') :
    Kept c' ∧ (NoOrphan c'.shared.ptys ↔ NoOrphan c.shared.ptys ∧ StoresOverNothing c a) := by
  rcases act_cases hact with ⟨t, rfl, ht, rfl⟩ | ⟨i, e, t, m', t', rfl, hi, hs, rfl⟩
  · have hnone : unstored t = none := by
      cases t <;> first | rfl | cases ht
    refine ⟨by simpa [Kept, List.filterMap_append, hnone] using h, ?_⟩
    exact (and_iff_left (by rintro i e id s g ⟨⟩)).symm
  · exact advance_kept h hi (step_transition hs)

/-- After a run every session ever stored is registered or cancelled, exactly when every `insert`
of the run stored its session while none was registered under the id. -/
theorem no_orphan_iff {as : List (Action ConnectionManager.Task Event)}
    {d : Config Manager ConnectionManager.Task} (hr : manager.run ⟨.new, []⟩ as = some d) :
    NoOrphan d.shared.ptys ↔ manager.Meets StoresOverNothing ⟨.new, []⟩ as := by
  rw [run_iff (J := fun c => NoOrphan c.shared.ptys) (fun c a c' h hact => (act_kept h hact).1)
    (fun c a c' h hact => (act_kept h hact).2) kept_new hr]
  exact and_iff_right (by rintro x ⟨⟩)

def shellAfterShell : List (Action ConnectionManager.Task Event) :=
  .spawn (.create "c".toList .ssh) :: advances 0 6 ++
    .spawn (.startPty "c".toList) :: advances 1 5 ++
    .spawn (.startPty "c".toList) :: advances 2 5

theorem no_orphan_shellAfterShell : ∃ d, manager.run ⟨.new, []⟩ shellAfterShell = some d ∧
    d.shared.ptys.inserted.length = 2 ∧
      manager.Meets StoresOverNothing ⟨.new, []⟩ shellAfterShell := by
  have hrun : ∃ d, manager.run ⟨.new, []⟩ shellAfterShell = some d ∧
      d.shared.ptys.inserted.length = 2 ∧ NoOrphan d.shared.ptys := run_decided (by decide +kernel)
  obtain ⟨d, hd, hlen, hno⟩ := hrun
  exact ⟨d, hd, hlen, (no_orphan_iff hd).mp hno⟩

/-- Two shells are opened on the connection at once. -/
def shellBesideShell : List (Action ConnectionManager.Task Event) :=
  .spawn (.create "c".toList .ssh) :: advances 0 6 ++
    .spawn (.startPty "c".toList) :: .spawn (.startPty "c".toList) ::
    (advances 1 3 ++ advances 2 3 ++ advances 1 2 ++ advances 2 2)

/-- The first session is neither registered nor cancelled, and no call is left. -/
theorem shellBesideShell_orphans : ∃ d, manager.run ⟨.new, []⟩ shellBesideShell = some d ∧
    (∀ t ∈ d.tasks, t.done = true) ∧ ¬NoOrphan d.shared.ptys := run_decided (by decide +kernel)

end SshCommander.OrphanedSessions
