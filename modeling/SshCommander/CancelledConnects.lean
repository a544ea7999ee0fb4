import SshCommander.PendingConnects

/-!
# Cancelled connects

The token of an attempt stays in the map until the attempt clears it, which is after `select!` has
taken its branch. So a cancel can be answered with true when the connection is there already, and
`select!` can take a connection when the token is cancelled.
-/

namespace SshCommander.CancelledConnects
open InterleavedTasks InterleavedTasks.TaskSystem RustText
open ConnectionManager ConnectionManager.Manager PendingConnects

variable {c c' d : Config Manager ConnectionManager.Task} {m m' : Manager} {id : Text}
  {token : Token} {a : Action ConnectionManager.Task Event}
  {as bs : List (Action ConnectionManager.Task Event)} {i k : ℕ} {e : Event}
  {t t' : ConnectionManager.Task}

/-- The attempt has a connection, and has not cleared the entry of its id. -/
def connectedWith (token : Token) : ConnectionManager.Task → Bool
  | .clearing _ token' (.ok _) => token' = token
  | _ => false

/-- A cancel takes no token whose attempt has its connection, and `select!` takes no connection of
an attempt whose token is cancelled. -/
def cancelInTime (c : Config Manager ConnectionManager.Task) (e : Event) :
    ConnectionManager.Task → Bool
  | .cancelPending id => ∀ token ∈ c.shared.pendingConnections.lookup id,
    ∀ t ∈ c.tasks, connectedWith token t = false
  | .selecting _ _ token => token ∈ c.shared.cancelled → e.choosesCancel ∨ ¬e.connect.isOk
  | _ => true

def CancelInTime (c : Config Manager ConnectionManager.Task) :
    Action ConnectionManager.Task Event → Prop
  | .spawn _ => True
  | .advance i e => ∀ t ∈ c.tasks[i]?, cancelInTime c e t = true

instance : ∀ a, Decidable (CancelInTime c a)
  | .spawn _ => .isTrue trivial
  | .advance i _ => inferInstanceAs (Decidable (∀ t ∈ c.tasks[i]?, _))

/-- The attempt waits, or has no connection, or has failed. -/
def givesUp (token : Token) : ConnectionManager.Task → Bool
  | .selecting _ _ token' | .clearing _ token' (.error _) => token' = token
  | .failed _ => true
  | _ => false

/-- The token is cancelled, and the call at the position is an attempt that gives up. -/
def Doomed (token : Token) (i : ℕ) (c : Config Manager ConnectionManager.Task) : Prop :=
  token ∈ c.shared.cancelled ∧ ∃ t, c.tasks[i]? = some t ∧ givesUp token t = true

theorem cancelled_kept (hs : Transition m e t m' t') (h : token ∈ m.cancelled) :
    token ∈ m'.cancelled := by
  cases hs with
  | @answered id =>
    cases hl : m.pendingConnections.lookup id with
    | none => rwa [cancelPendingConnection_none hl]
    | some token' =>
      rw [cancelPendingConnection_some hl]
      exact List.mem_cons_of_mem _ h
  | _ => exact h

/-- A step of the attempt itself. -/
theorem givesUp_advance (hs : Transition c.shared e t m' t') (h : givesUp token t = true)
    (hc : token ∈ c.shared.cancelled) (hcond : cancelInTime c e t = true) :
    givesUp token t' = true ∧ m'.connections = c.shared.connections ∧
      m'.events = c.shared.events := by
  cases hs with
  | sawCancel | connectFailed => exact ⟨h, rfl, rfl⟩
  | clearedFailure => exact ⟨rfl, rfl, rfl⟩
  | connected hchoose hok =>
    obtain rfl := of_decide_eq_true h
    simp [cancelInTime, hc, hchoose, hok, Except.isOk, Except.toBool] at hcond
  | _ => simp [givesUp] at h

theorem doomed_act (h : Doomed token i c) (hcond : CancelInTime c a)
    (hact : manager.act c a = some c') : Doomed token i c' := by
  obtain ⟨hc, t, ht, hup⟩ := h
  rcases act_cases hact with ⟨u, rfl, hu, rfl⟩ | ⟨j, e, u, m', u', rfl, hj, hs, rfl⟩
  · exact ⟨hc, t, by rw [List.getElem?_append_left (List.getElem?_eq_some_iff.mp ht).1, ht], hup⟩
  · refine ⟨cancelled_kept (step_transition hs) hc, ?_⟩
    by_cases hji : j = i
    · subst hji
      obtain rfl := Option.some.inj (hj.symm.trans ht)
      have hlt := (List.getElem?_eq_some_iff.mp hj).1
      have hnext := givesUp_advance (step_transition hs) hup hc (hcond u hj)
      exact ⟨u', List.getElem?_set_self hlt, hnext.1⟩
    · exact ⟨t, (List.getElem?_set_ne hji).trans ht, hup⟩

/-- A cancel that is answered with true has cancelled an attempt for the id, which gives up if it
has no connection. -/
theorem doomed_cancel (h : Registered c) (hk : c.tasks[k]? = some (.cancelPending id))
    (hanswer : (c.shared.cancelPendingConnection id).2 = some token)
    (hact : manager.act c (.advance k e) = some c')
    (hcond : CancelInTime c (.advance k e)) :
    ∃ i t, c.tasks[i]? = some t ∧ attempt t = some (id, token) ∧ Doomed token i c' := by
  cases hl : c.shared.pendingConnections.lookup id with
  | none =>
    rw [cancelPendingConnection_none hl] at hanswer
    cases hanswer
  | some token' =>
    rw [cancelPendingConnection_some hl] at hanswer
    obtain rfl := Option.some.inj hanswer
    obtain ⟨t, ht, hown⟩ := h.attempted id token' hl
    obtain ⟨i, hi⟩ := List.getElem?_of_mem ht
    have hne : k ≠ i := by
      rintro rfl
      obtain rfl := Option.some.inj (hk.symm.trans hi)
      cases hown
    have hfree : ∀ u ∈ c.tasks, connectedWith token' u = false := by
      have hcancel := of_decide_eq_true (hcond _ hk)
      exact hcancel token' hl
    refine ⟨i, t, hi, hown, ?_⟩
    have hc' : c' = ⟨(c.shared.cancelPendingConnection id).1,
        c.tasks.set k (.answered (c.shared.cancelPendingConnection id).2)⟩ := by
      simp only [act, hk, manager, ConnectionManager.step, Option.map_some,
        Option.some.injEq] at hact
      exact hact.symm
    rw [hc', cancelPendingConnection_some hl]
    refine ⟨List.mem_cons_self, t, (List.getElem?_set_ne hne).trans hi, ?_⟩
    have hnot := hfree t ht
    cases t with
    | selecting id' kind token => exact decide_eq_true (congrArg Prod.snd (Option.some.inj hown))
    | clearing id' token result =>
      obtain ⟨rfl, rfl⟩ := Prod.mk.inj (Option.some.inj hown)
      cases result with
      | error message => simp [givesUp]
      | ok conn => simp [connectedWith] at hnot
    | _ => cases hown

/-- After a cancel that was answered with true, in every continuation in which cancels come in
time and `select!` heeds them, the attempt that was cancelled changes neither the map nor the
events, and when it is done it has failed. -/
theorem cancelled_attempt_fails (hr : manager.run ⟨.new, []⟩ as = some c)
    (hk : c.tasks[k]? = some (.cancelPending id))
    (hanswer : (c.shared.cancelPendingConnection id).2 = some token)
    (hact : manager.act c (.advance k e) = some c')
    (hcond : CancelInTime c (.advance k e)) :
    ∃ i t, c.tasks[i]? = some t ∧ attempt t = some (id, token) ∧
      ∀ bs d, manager.Meets CancelInTime c' bs → manager.run c' bs = some d →
        (∀ e d', CancelInTime d (.advance i e) → manager.act d (.advance i e) = some d' →
          d'.shared.connections = d.shared.connections ∧ d'.shared.events = d.shared.events) ∧
        ∃ u, d.tasks[i]? = some u ∧ (u.done = true → ∃ message, u = .failed message) := by
  have hreg : Registered c :=
    run_invariant (fun _ _ _ h _ hact => registered_act h hact) registered_new
      (meets_of_forall (p := fun _ => True) fun _ _ => trivial) hr
  obtain ⟨i, t, hi, hown, hdoomed⟩ := doomed_cancel hreg hk hanswer hact hcond
  refine ⟨i, t, hi, hown, fun bs d hm hrun => ?_⟩
  obtain ⟨hc, u, hu, hup⟩ : Doomed token i d :=
    run_invariant (fun _ _ _ h hcond hact => doomed_act h hcond hact) hdoomed hm hrun
  refine ⟨fun e d' hcond hact => ?_, u, hu, fun hdone => ?_⟩
  · rcases act_cases hact with ⟨v, ⟨⟩, -, -⟩ | ⟨j, e, v, m', v', heq, hj, hs, rfl⟩
    obtain ⟨rfl, rfl⟩ := Action.advance.inj heq
    obtain rfl := Option.some.inj (hj.symm.trans hu)
    exact (givesUp_advance (step_transition hs) hup hc (hcond v hj)).2
  · cases u with
    | failed message => exact ⟨message, rfl⟩
    | started | answered | finished => cases hup
    | _ => cases hdone

def waitingAttempt : List (Action ConnectionManager.Task Event) :=
  .spawn (.create "c".toList .ssh) :: advances 0 1 ++ [.spawn (.cancelPending "c".toList)]

/-- `select!` takes the branch of the token, though the connect has succeeded as well. -/
def heedsCancel : List (Action ConnectionManager.Task Event) :=
  [.advance 0 ⟨.ok (), true, .ok (), .ok ()⟩] ++ advances 0 1

theorem cancelled_attempt_fails_waitingAttempt : ∃ c c' d u,
    manager.run ⟨.new, []⟩ waitingAttempt = some c ∧
      manager.act c (.advance 1 .fine) = some c' ∧ manager.run c' heedsCancel = some d ∧
      d.tasks[0]? = some u ∧ ∃ message, u = .failed message := by
  have hstart : ∃ c, manager.run ⟨.new, []⟩ waitingAttempt = some c ∧
      c.tasks = [.selecting "c".toList .ssh 0, .cancelPending "c".toList] ∧
      (c.shared.cancelPendingConnection "c".toList).2 = some 0 ∧
      CancelInTime c (.advance 1 .fine) ∧
      (manager.act c (.advance 1 .fine)).any (fun c' => manager.Meets CancelInTime c' heedsCancel ∧
        (manager.run c' heedsCancel).any fun d => ∀ t ∈ d.tasks, t.done = true) :=
    run_decided (by decide +kernel)
  obtain ⟨c, hr, htasks, hanswer, hcond, hrest⟩ := hstart
  obtain ⟨c', hact, hrest⟩ := (Option.any_eq_true _ _).mp hrest
  obtain ⟨hm, hrest⟩ := of_decide_eq_true hrest
  obtain ⟨d, hrun, hdone⟩ := run_decided hrest
  obtain ⟨i, t, hi, hown, hlater⟩ :=
    cancelled_attempt_fails hr (by rw [htasks]; rfl) hanswer hact hcond
  obtain ⟨-, u, hu, hfailed⟩ := hlater _ d hm hrun
  obtain rfl : i = 0 := by
    rw [htasks] at hi
    match i, hi with
    | 0, _ => rfl
    | 1, rfl => cases hown
  exact ⟨c, c', d, u, hr, hact, hrun, hu, hfailed
    (hdone u (List.mem_of_getElem? hu))⟩

/-- A cancel comes when the connect has succeeded and the entry is not cleared. -/
def connectedAttempt : List (Action ConnectionManager.Task Event) :=
  .spawn (.create "c".toList .ssh) :: (advances 0 2 ++
    .spawn (.cancelPending "c".toList) :: (advances 1 1 ++ advances 0 4))

/-- The cancel is answered with true, and the attempt it cancelled connects all the same. -/
theorem connectedAttempt_connects : ∃ d, manager.run ⟨.new, []⟩ connectedAttempt = some d ∧
    d.tasks = [.finished, .answered (some 0)] ∧ d.shared.cancelled = [0] ∧
      (d.shared.connections.lookup "c".toList).isSome ∧
      d.shared.events = [("c".toList, .connected)] :=
  run_decided (by decide +kernel)

end SshCommander.CancelledConnects
