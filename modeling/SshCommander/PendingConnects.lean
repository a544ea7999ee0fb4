import SshCommander.ConnectionManager
import SshCommander.MapWeights

/-!
# Pending connects

The map of pending connects has one token for an id. Each attempt registers its own token there,
over that of another attempt, and clears whatever is there when its connect has ended.
-/

namespace SshCommander.PendingConnects
open InterleavedTasks InterleavedTasks.TaskSystem RustText MapWeights
open ConnectionManager ConnectionManager.Manager

variable {c c' d : Config Manager ConnectionManager.Task} {m m' : Manager} {id id' : Text}
  {token token' : Token} {kind : ProtocolKind} {a : Action ConnectionManager.Task Event}
  {as : List (Action ConnectionManager.Task Event)} {i j : ℕ} {e : Event}
  {t t' : ConnectionManager.Task}

/-- The token of an attempt for the id that waits for its connect, and is not cancelled. -/
def waits (m : Manager) (id : Text) : ConnectionManager.Task → Option Token
  | .selecting id' _ token => if id' = id ∧ token ∉ m.cancelled then some token else none
  | _ => none

def waiting (c : Config Manager ConnectionManager.Task) (id : Text) : List Token :=
  c.tasks.filterMap (waits c.shared id)

/-- If some attempt for the id waits, a cancel returns true and cancels one that waits. -/
def CancelReaches (c : Config Manager ConnectionManager.Task) : Prop :=
  ∀ id, waiting c id ≠ [] → ∃ token ∈ waiting c id,
    (c.shared.cancelPendingConnection id).2 = some token ∧
      token ∈ (c.shared.cancelPendingConnection id).1.cancelled

/-- No other attempt for the id waits where the one that is in the map ends its wait, where an
attempt clears the entry, and where a cancel takes it. -/
def keepsReach (c : Config Manager ConnectionManager.Task) : ConnectionManager.Task → Bool
  | .selecting id _ token =>
    c.shared.pendingConnections.lookup id = some token → ∀ token' ∈ waiting c id, token' = token
  | .clearing id _ _ => waiting c id = []
  | .cancelPending id =>
    ∀ token ∈ waiting c id, c.shared.pendingConnections.lookup id = some token
  | _ => true

def KeepsReach (c : Config Manager ConnectionManager.Task) :
    Action ConnectionManager.Task Event → Prop
  | .spawn _ => True
  | .advance i _ => ∀ t ∈ c.tasks[i]?, keepsReach c t = true

instance : ∀ a, Decidable (KeepsReach c a)
  | .spawn _ => .isTrue trivial
  | .advance i _ => inferInstanceAs (Decidable (∀ t ∈ c.tasks[i]?, _))

def attempt : ConnectionManager.Task → Option (Text × Token)
  | .selecting id _ token | .clearing id token _ => some (id, token)
  | _ => none

/-- Each attempt has its own token, and what is registered is the token of an attempt that nobody
has cancelled. -/
structure Registered (c : Config Manager ConnectionManager.Task) : Prop where
  numbered : Numbered c.shared.tokens (c.tasks.filterMap fun t => (attempt t).map (·.2))
  below : ∀ token ∈ c.shared.cancelled, token < c.shared.tokens
  live : ∀ id token, c.shared.pendingConnections.lookup id = some token →
    token ∉ c.shared.cancelled
  attempted : ∀ id token, c.shared.pendingConnections.lookup id = some token →
    ∃ t ∈ c.tasks, attempt t = some (id, token)

def selects : ConnectionManager.Task → Bool
  | .selecting .. => true
  | _ => false

theorem mem_waiting : token ∈ waiting c id ↔
    (∃ kind, .selecting id kind token ∈ c.tasks) ∧ token ∉ c.shared.cancelled := by
  simp only [waiting, List.mem_filterMap]
  constructor
  · rintro ⟨t, ht, hw⟩
    cases t with
    | selecting id' kind token' =>
      obtain ⟨⟨rfl, hc⟩, rfl⟩ := by simpa [waits] using hw
      exact ⟨⟨kind, ht⟩, hc⟩
    | _ => cases hw
  · rintro ⟨⟨kind, ht⟩, hc⟩
    exact ⟨_, ht, by simp [waits, hc]⟩

theorem Registered.unique (h : Registered c) (hi : c.tasks[i]? = some t) (hj : c.tasks[j]? = some t')
    (ht : attempt t = some (id, token)) (ht' : attempt t' = some (id', token)) : i = j := by
  have hown : (attempt t).map (·.2) = some token := by simp [ht]
  have hown' : (attempt t').map (·.2) = some token := by simp [ht']
  exact index_unique h.numbered.nodup hi hj hown hown'

/-- An attempt with the token of an attempt for the id is one for the id. -/
theorem Registered.same_id (h : Registered c) (ht : t ∈ c.tasks) (ht' : t' ∈ c.tasks)
    (hown : attempt t = some (id, token)) (hown' : attempt t' = some (id', token)) : id = id' := by
  obtain ⟨i, hi⟩ := List.getElem?_of_mem ht
  obtain ⟨j, hj⟩ := List.getElem?_of_mem ht'
  obtain rfl := h.unique hi hj hown hown'
  obtain rfl := Option.some.inj (hi.symm.trans hj)
  exact congrArg Prod.fst (Option.some.inj (hown.symm.trans hown'))

theorem cancelPendingConnection_none (h : m.pendingConnections.lookup id = none) :
    m.cancelPendingConnection id = (m, none) := by simp [cancelPendingConnection, h]

theorem cancelPendingConnection_some (h : m.pendingConnections.lookup id = some token) :
    m.cancelPendingConnection id =
      ({ m with pendingConnections := m.pendingConnections.erase id,
                cancelled := token :: m.cancelled }, some token) := by
  simp [cancelPendingConnection, h]

/-- A cancel reaches an attempt when the entry of the id is one that waits. -/
theorem cancelReaches_iff : CancelReaches c ↔ ∀ id, waiting c id ≠ [] →
    ∃ token ∈ waiting c id, c.shared.pendingConnections.lookup id = some token := by
  refine forall₂_congr fun id _ => exists_congr fun token => and_congr_right fun _ => ?_
  cases hl : c.shared.pendingConnections.lookup id with
  | none => simp [cancelPendingConnection_none hl]
  | some token' =>
    rw [cancelPendingConnection_some hl]
    simp only [Option.some.injEq, List.mem_cons, and_iff_left_iff_imp]
    exact fun heq => .inl heq.symm

theorem attempted_set (hi : c.tasks[i]? = some t) {x : Text × Token}
    (hkeep : attempt t = some x → attempt t' = some x) (h : ∃ u ∈ c.tasks, attempt u = some x) :
    ∃ u ∈ c.tasks.set i t', attempt u = some x := by
  obtain ⟨u, hu, hx⟩ := h
  rcases mem_set_or_eq hi hu t' with hu | rfl
  · exact ⟨u, hu, hx⟩
  · exact ⟨t', mem_set_self hi t', hkeep hx⟩

theorem attempt_disconnect (old : ManagedConnection) (next : Option ManagedConnection) :
    attempt (disconnectManagedConnection id old next) = none := by
  unfold disconnectManagedConnection
  split <;> rfl

theorem selects_disconnect (old : ManagedConnection) (next : Option ManagedConnection) :
    selects (disconnectManagedConnection id old next) = false := by
  unfold disconnectManagedConnection
  split <;> rfl

theorem Registered.quiet (h : Registered c) (hi : c.tasks[i]? = some t)
    (hp : m'.pendingConnections = c.shared.pendingConnections) (hn : m'.tokens = c.shared.tokens)
    (hc : m'.cancelled = c.shared.cancelled) (ht : attempt t' = attempt t) :
    Registered ⟨m', c.tasks.set i t'⟩ := by
  have hnum : Numbered c.shared.tokens ([] ++ c.tasks.filterMap fun t => (attempt t).map (·.2)) :=
    h.numbered
  refine ⟨hn ▸ hnum.keep hi (congrArg _ ht), ?_, ?_, fun id token hl => ?_⟩
  · simpa only [hn, hc] using h.below
  · simpa only [hp, hc] using h.live
  · exact attempted_set hi (fun hx => ht.trans hx) (h.attempted id token (hp ▸ hl))

/-- An attempt clears the entry of its id. -/
theorem Registered.clear (h : Registered c) (hi : c.tasks[i]? = some t)
    (ht : attempt t = some (id, token)) (ht' : attempt t' = none)
    (hp : m'.pendingConnections = c.shared.pendingConnections.erase id)
    (hn : m'.tokens = c.shared.tokens) (hc : m'.cancelled = c.shared.cancelled) :
    Registered ⟨m', c.tasks.set i t'⟩ := by
  have hnum : Numbered c.shared.tokens ([] ++ c.tasks.filterMap fun t => (attempt t).map (·.2)) :=
    h.numbered
  have hbefore {id' : Text} {token' : Token} (hl : m'.pendingConnections.lookup id' = some token') :
      id' ≠ id ∧ c.shared.pendingConnections.lookup id' = some token' := lookup_of_erase (hp ▸ hl)
  refine ⟨hn ▸ hnum.drop hi (by simp [ht']), ?_, fun id' token' hl => ?_, fun id' token' hl => ?_⟩
  · simpa only [hn, hc] using h.below
  · simpa only [hc] using h.live id' token' (hbefore hl).2
  · refine attempted_set hi (fun hx => ?_) (h.attempted id' token' (hbefore hl).2)
    exact absurd (congrArg Prod.fst (Option.some.inj (hx.symm.trans ht))) (hbefore hl).1

theorem Registered.register (h : Registered c) (hi : c.tasks[i]? = some (.create id kind)) :
    Registered ⟨(c.shared.registerPendingConnection id).1,
      c.tasks.set i (.selecting id kind c.shared.tokens)⟩ := by
  have hnum : Numbered c.shared.tokens ([] ++ c.tasks.filterMap fun t => (attempt t).map (·.2)) :=
    h.numbered
  refine ⟨hnum.take_fresh hi rfl rfl, fun token' hc => Nat.lt_succ_of_lt (h.below token' hc),
    fun id' token' hl => ?_, fun id' token' hl => ?_⟩
  · by_cases hid : id' = id
    · subst hid
      obtain rfl := Option.some.inj ((AList.lookup_insert _).symm.trans hl)
      exact fun hc => Nat.lt_irrefl _ (h.below _ hc)
    · exact h.live id' token' ((AList.lookup_insert_ne hid).symm.trans hl)
  · by_cases hid : id' = id
    · subst hid
      obtain rfl := Option.some.inj ((AList.lookup_insert _).symm.trans hl)
      exact ⟨_, mem_set_self hi _, rfl⟩
    · have hbefore := (AList.lookup_insert_ne hid).symm.trans hl
      exact attempted_set hi nofun (h.attempted id' token' hbefore)

/-- A cancel takes the entry of the id, and its token with it. -/
theorem Registered.cancel (h : Registered c) (hi : c.tasks[i]? = some (.cancelPending id)) :
    Registered ⟨(c.shared.cancelPendingConnection id).1,
      c.tasks.set i (.answered (c.shared.cancelPendingConnection id).2)⟩ := by
  cases hl : c.shared.pendingConnections.lookup id with
  | none =>
    rw [cancelPendingConnection_none hl]
    exact h.quiet hi rfl rfl rfl rfl
  | some token =>
    rw [cancelPendingConnection_some hl]
    have hnum : Numbered c.shared.tokens ([] ++ c.tasks.filterMap fun t => (attempt t).map (·.2)) :=
      h.numbered
    obtain ⟨u, hu, hown⟩ := h.attempted id token hl
    have hlt : token < c.shared.tokens :=
      h.numbered.below token (List.mem_filterMap.mpr ⟨u, hu, by simp [hown]⟩)
    refine ⟨hnum.keep hi rfl, ?_, fun id' token' hl' => ?_, fun id' token' hl' => ?_⟩
    · exact List.forall_mem_cons.mpr ⟨hlt, h.below⟩
    · obtain ⟨hid, hold⟩ := lookup_of_erase hl'
      obtain ⟨u', hu', hown'⟩ := h.attempted id' token' hold
      intro hc
      rcases List.mem_cons.mp hc with rfl | hc
      · exact hid (h.same_id hu' hu hown' hown)
      · exact h.live id' token' hold hc
    · exact attempted_set hi nofun (h.attempted id' token' (lookup_of_erase hl').2)

theorem Registered.advance (h : Registered c) (hi : c.tasks[i]? = some t)
    (hs : Transition c.shared e t m' t') : Registered ⟨m', c.tasks.set i t'⟩ := by
  cases hs with
  | registered => exact h.register hi
  | clearedFailure | cleared => exact h.clear hi rfl rfl rfl rfl rfl
  | answered => exact h.cancel hi
  | removedPrevious | taken => exact h.quiet hi rfl rfl rfl (attempt_disconnect _ _)
  | _ => exact h.quiet hi rfl rfl rfl rfl

theorem registered_act (h : Registered c) (hact : manager.act c a = some c') : Registered c' := by
  rcases act_cases hact with ⟨t, rfl, ht, rfl⟩ | ⟨i, e, t, m', t', rfl, hi, hs, rfl⟩
  · have hnone : attempt t = none := by
      cases t <;> first | rfl | cases ht
    refine ⟨?_, h.below, h.live, fun id token hl => ?_⟩
    · simpa [List.filterMap_append, hnone] using h.numbered
    · obtain ⟨u, hu, hx⟩ := h.attempted id token hl
      exact ⟨u, List.mem_append_left _ hu, hx⟩
  · exact h.advance hi (step_transition hs)

theorem registered_new : Registered ⟨.new, []⟩ :=
  ⟨.nil, by simp [Manager.new], by simp [Manager.new], by simp [Manager.new]⟩

/-- A step of something else leaves them waiting. -/
theorem mem_waiting_quiet (hi : c.tasks[i]? = some t) (hc : m'.cancelled = c.shared.cancelled)
    (ht : selects t = false) (ht' : selects t' = false) :
    token ∈ waiting ⟨m', c.tasks.set i t'⟩ id ↔ token ∈ waiting c id := by
  simp only [mem_waiting, hc]
  refine and_congr_left' (exists_congr fun kind => ⟨fun h => ?_, fun h => ?_⟩)
  · refine (List.mem_or_eq_of_mem_set h).resolve_right ?_
    rintro rfl
    cases ht'
  · refine (mem_set_or_eq hi h t').resolve_right ?_
    rintro rfl
    cases ht

/-- An attempt whose connect has ended, or that has seen its cancel, waits no more. -/
theorem mem_waiting_end (h : Registered c) (hi : c.tasks[i]? = some (.selecting id kind token))
    (hc : m'.cancelled = c.shared.cancelled) {result : Except Text ManagedConnection} :
    token' ∈ waiting ⟨m', c.tasks.set i (.clearing id token result)⟩ id' ↔
      token' ∈ waiting c id' ∧ token' ≠ token := by
  simp only [mem_waiting, hc]
  constructor
  · rintro ⟨⟨kind', hmem⟩, hnot⟩
    obtain ⟨j, hj⟩ := List.getElem?_of_mem hmem
    obtain ⟨hji, hbefore⟩ := (getElem?_set_cases hj).resolve_left fun heq => by cases heq.2
    refine ⟨⟨⟨kind', List.mem_of_getElem? hbefore⟩, hnot⟩, ?_⟩
    rintro rfl
    exact hji (h.unique hbefore hi rfl rfl)
  · rintro ⟨⟨⟨kind', hmem⟩, hnot⟩, hne⟩
    refine ⟨⟨kind', (mem_set_or_eq hi hmem _).resolve_right ?_⟩, hnot⟩
    rintro ⟨⟩
    exact hne rfl

theorem mem_waiting_register (h : Registered c) (hi : c.tasks[i]? = some (.create id kind)) :
    token ∈ waiting ⟨(c.shared.registerPendingConnection id).1,
        c.tasks.set i (.selecting id kind c.shared.tokens)⟩ id' ↔
      token ∈ waiting c id' ∨ id' = id ∧ token = c.shared.tokens := by
  simp only [mem_waiting]
  constructor
  · rintro ⟨⟨kind', hmem⟩, hnot⟩
    rcases List.mem_or_eq_of_mem_set hmem with hmem | heq
    · exact .inl ⟨⟨kind', hmem⟩, hnot⟩
    · obtain ⟨rfl, rfl, rfl⟩ := Task.selecting.inj heq
      exact .inr ⟨rfl, rfl⟩
  · rintro (⟨⟨kind', hmem⟩, hnot⟩ | ⟨rfl, rfl⟩)
    · exact ⟨⟨kind', (mem_set_or_eq hi hmem _).resolve_right nofun⟩, hnot⟩
    · exact ⟨⟨kind, mem_set_self hi _⟩, fun hc => Nat.lt_irrefl _ (h.below _ hc)⟩

theorem mem_waiting_cancel (hi : c.tasks[i]? = some (.cancelPending id))
    (hl : c.shared.pendingConnections.lookup id = some token) :
    token' ∈ waiting ⟨(c.shared.cancelPendingConnection id).1,
        c.tasks.set i (.answered (c.shared.cancelPendingConnection id).2)⟩ id' ↔
      token' ∈ waiting c id' ∧ token' ≠ token := by
  rw [cancelPendingConnection_some hl]
  simp only [mem_waiting, List.mem_cons, not_or]
  constructor
  · rintro ⟨⟨kind', hmem⟩, hne, hnot⟩
    exact ⟨⟨⟨kind', (List.mem_or_eq_of_mem_set hmem).resolve_right nofun⟩, hnot⟩, hne⟩
  · rintro ⟨⟨⟨kind', hmem⟩, hnot⟩, hne⟩
    exact ⟨⟨kind', (mem_set_or_eq hi hmem _).resolve_right nofun⟩, hne, hnot⟩

/-- The entry of every id for which an attempt waits is one that waits. -/
theorem cancelReaches_iff' : CancelReaches c ↔ ∀ id token, token ∈ waiting c id →
    ∃ token' ∈ waiting c id, c.shared.pendingConnections.lookup id = some token' := by
  rw [cancelReaches_iff]
  constructor
  · intro h id token hw
    exact h id (List.ne_nil_of_mem hw)
  · intro h id hne
    obtain ⟨token, hw⟩ := List.exists_mem_of_ne_nil _ hne
    exact h id token hw

theorem reaches_quiet (hi : c.tasks[i]? = some t) (hc : m'.cancelled = c.shared.cancelled)
    (hp : m'.pendingConnections = c.shared.pendingConnections)
    (ht : selects t = false) (ht' : selects t' = false) :
    CancelReaches ⟨m', c.tasks.set i t'⟩ ↔ CancelReaches c := by
  simp only [cancelReaches_iff', mem_waiting_quiet hi hc ht ht', hp]

theorem reaches_end (m' : Manager) (h : Registered c) (hreach : CancelReaches c)
    (hi : c.tasks[i]? = some (.selecting id kind token)) (hc : m'.cancelled = c.shared.cancelled)
    (hp : m'.pendingConnections = c.shared.pendingConnections)
    {result : Except Text ManagedConnection} :
    CancelReaches ⟨m', c.tasks.set i (.clearing id token result)⟩ ↔
      keepsReach c (.selecting id kind token) = true := by
  rw [cancelReaches_iff'] at hreach ⊢
  simp only [mem_waiting_end h hi hc, hp, keepsReach, decide_eq_true_eq]
  constructor
  · intro hafter hl token' hw
    by_contra hne
    obtain ⟨token'', ⟨-, hne'⟩, hl'⟩ := hafter id token' ⟨hw, hne⟩
    exact hne' (Option.some.inj (hl'.symm.trans hl))
  · rintro hcond id' token' ⟨hw, hne⟩
    obtain ⟨token'', hw', hl⟩ := hreach id' token' hw
    refine ⟨token'', ⟨hw', ?_⟩, hl⟩
    rintro rfl
    obtain ⟨⟨kind', hmem⟩, -⟩ := mem_waiting.mp hw'
    obtain rfl := h.same_id hmem (List.mem_of_getElem? hi) rfl rfl
    exact hne (hcond hl token' hw)

theorem reaches_clear (m' : Manager) (hreach : CancelReaches c) (hi : c.tasks[i]? = some t)
    (ht : selects t = false) (ht' : selects t' = false)
    (hc : m'.cancelled = c.shared.cancelled)
    (hp : m'.pendingConnections = c.shared.pendingConnections.erase id) :
    CancelReaches ⟨m', c.tasks.set i t'⟩ ↔ waiting c id = [] := by
  rw [cancelReaches_iff'] at hreach ⊢
  simp only [mem_waiting_quiet hi hc ht ht', hp]
  constructor
  · intro hafter
    refine List.eq_nil_iff_forall_not_mem.mpr fun token hw => ?_
    obtain ⟨token', -, hl⟩ := hafter id token hw
    cases (AList.lookup_erase _ _).symm.trans hl
  · intro hnil id' token hw
    have hid : id' ≠ id := by
      rintro rfl
      rw [hnil] at hw
      cases hw
    rw [AList.lookup_erase_ne hid]
    exact hreach id' token hw

theorem reaches_register (h : Registered c) (hreach : CancelReaches c)
    (hi : c.tasks[i]? = some (.create id kind)) :
    CancelReaches ⟨(c.shared.registerPendingConnection id).1,
      c.tasks.set i (.selecting id kind c.shared.tokens)⟩ := by
  rw [cancelReaches_iff'] at hreach ⊢
  simp only [mem_waiting_register h hi]
  intro id' token hw
  by_cases hid : id' = id
  · subst hid
    exact ⟨c.shared.tokens, .inr ⟨rfl, rfl⟩, AList.lookup_insert _⟩
  · obtain ⟨token', hw', hl⟩ := hreach id' token (hw.resolve_right fun heq => hid heq.1)
    exact ⟨token', .inl hw', (AList.lookup_insert_ne hid).trans hl⟩

theorem reaches_cancel (h : Registered c) (hreach : CancelReaches c)
    (hi : c.tasks[i]? = some (.cancelPending id)) :
    CancelReaches ⟨(c.shared.cancelPendingConnection id).1,
        c.tasks.set i (.answered (c.shared.cancelPendingConnection id).2)⟩ ↔
      keepsReach c (.cancelPending id) = true := by
  simp only [keepsReach, decide_eq_true_eq]
  cases hl : c.shared.pendingConnections.lookup id with
  | none =>
    rw [cancelPendingConnection_none hl]
    refine iff_of_true ((reaches_quiet hi rfl rfl rfl rfl).mpr hreach) fun token hw => ?_
    obtain ⟨token', -, hl'⟩ := cancelReaches_iff'.mp hreach id token hw
    cases hl.symm.trans hl'
  | some token =>
    have hentry : (c.shared.cancelPendingConnection id).1.pendingConnections =
        c.shared.pendingConnections.erase id := by rw [cancelPendingConnection_some hl]
    rw [cancelReaches_iff'] at hreach ⊢
    simp only [mem_waiting_cancel hi hl, hentry]
    constructor
    · intro hafter token' hw
      by_contra hne
      obtain ⟨token'', -, hl'⟩ := hafter id token' ⟨hw, fun heq => hne (heq ▸ rfl)⟩
      cases (AList.lookup_erase _ _).symm.trans hl'
    · rintro hcond id' token' ⟨hw, hne⟩
      have hid : id' ≠ id := by
        rintro rfl
        exact hne (Option.some.inj (hcond token' hw)).symm
      obtain ⟨token'', hw', hl'⟩ := hreach id' token' hw
      refine ⟨token'', ⟨hw', ?_⟩, (AList.lookup_erase_ne hid).trans hl'⟩
      rintro rfl
      obtain ⟨u, hu, hown⟩ := h.attempted id token'' hl
      obtain ⟨u', hu', hown'⟩ := h.attempted id' token'' hl'
      exact hid (h.same_id hu' hu hown' hown)

theorem reaches_advance (h : Registered c) (hreach : CancelReaches c) (hi : c.tasks[i]? = some t)
    (hs : Transition c.shared e t m' t') :
    CancelReaches ⟨m', c.tasks.set i t'⟩ ↔ keepsReach c t = true := by
  have hquiet (hk : keepsReach c t = true) (hc : m'.cancelled = c.shared.cancelled)
      (hp : m'.pendingConnections = c.shared.pendingConnections)
      (ht : selects t = false) (ht' : selects t' = false) :
      CancelReaches ⟨m', c.tasks.set i t'⟩ ↔ keepsReach c t = true :=
    iff_of_true ((reaches_quiet hi hc hp ht ht').mpr hreach) hk
  cases hs with
  | registered => exact iff_of_true (reaches_register h hreach hi) rfl
  | sawCancel | connectFailed => exact reaches_end c.shared h hreach hi rfl rfl
  | @connected id kind token =>
    exact reaches_end (c.shared.openConnection kind).1 h hreach hi rfl rfl
  | @clearedFailure id =>
    refine (reaches_clear (c.shared.clearPendingConnection id) hreach hi rfl rfl rfl rfl).trans ?_
    simp [keepsReach]
  | @cleared id token conn =>
    refine (reaches_clear ((c.shared.clearPendingConnection id).hand id conn) hreach hi rfl rfl rfl
      rfl).trans ?_
    simp [keepsReach]
  | answered => exact reaches_cancel h hreach hi
  | removedPrevious | taken => exact hquiet rfl rfl rfl rfl (selects_disconnect _ _)
  | _ => exact hquiet rfl rfl rfl rfl rfl

theorem reaches_act (h : Registered c) (hreach : CancelReaches c)
    (hact : manager.act c a = some c') : CancelReaches c' ↔ KeepsReach c a := by
  rcases act_cases hact with ⟨t, rfl, ht, rfl⟩ | ⟨i, e, t, m', t', rfl, hi, hs, rfl⟩
  · refine iff_of_true ?_ trivial
    have hnone (id : Text) : waits c.shared id t = none := by
      cases t <;> first | rfl | cases ht
    simpa [cancelReaches_iff', waiting, List.filterMap_append, hnone] using
      cancelReaches_iff'.mp hreach
  · rw [reaches_advance h hreach hi (step_transition hs)]
    simp [KeepsReach, hi]

/-- In every configuration of a run a cancel reaches an attempt that waits, if one does, exactly
when no other attempt for the id waits wherever the run ends the wait of the registered one, clears
the entry or takes it. -/
theorem cancel_reaches_iff (hr : manager.run ⟨.new, []⟩ as = some d) :
    (∀ bs c, bs <+: as → manager.run ⟨.new, []⟩ bs = some c → CancelReaches c) ↔
      manager.Meets KeepsReach ⟨.new, []⟩ as :=
  always_iff (fun _ _ _ h hact => registered_act h hact)
    (fun _ _ _ h hreach hact => reaches_act h hreach hact) registered_new
    (fun _ hne => absurd rfl hne) hr

def twoIds : List (Action ConnectionManager.Task Event) :=
  .spawn (.create "c".toList .ssh) :: .spawn (.create "d".toList .postgres) ::
    (advances 0 1 ++ advances 1 1 ++ .spawn (.cancelPending "c".toList) :: (advances 2 1 ++
    [.advance 0 ⟨.ok (), true, .ok (), .ok ()⟩] ++ advances 0 1))

theorem cancel_reaches_twoIds : ∃ d, manager.run ⟨.new, []⟩ twoIds = some d ∧
    waiting d "d".toList = [1] ∧ CancelReaches d := by
  have hrun : ∃ d, manager.run ⟨.new, []⟩ twoIds = some d ∧ waiting d "d".toList = [1] :=
    run_decided (by decide +kernel)
  obtain ⟨d, hd, hw⟩ := hrun
  exact ⟨d, hd, hw, (cancel_reaches_iff hd).mpr (by decide +kernel) _ d (List.prefix_refl _) hd⟩

/-- The second attempt for an id clears the entry while the first one waits. -/
def twoAttempts : List (Action ConnectionManager.Task Event) :=
  .spawn (.create "c".toList .ssh) :: .spawn (.create "c".toList .ssh) ::
    (advances 0 1 ++ advances 1 3)

/-- The first attempt waits, nobody has cancelled it, and a cancel for the id returns false. -/
theorem twoAttempts_unreachable : ∃ d, manager.run ⟨.new, []⟩ twoAttempts = some d ∧
    d.shared.cancelled = [] ∧ waiting d "c".toList = [0] ∧
      (d.shared.cancelPendingConnection "c".toList).2 = none ∧ ¬CancelReaches d := by
  have hrun : ∃ d, manager.run ⟨.new, []⟩ twoAttempts = some d ∧ d.shared.cancelled = [] ∧
      waiting d "c".toList = [0] ∧ (d.shared.cancelPendingConnection "c".toList).2 = none :=
    run_decided (by decide +kernel)
  obtain ⟨d, hd, hc, hw, hnone⟩ := hrun
  refine ⟨d, hd, hc, hw, hnone, fun hreach => ?_⟩
  have hne : waiting d "c".toList ≠ [] := by
    rw [hw]
    nofun
  obtain ⟨token, -, hsome, -⟩ := hreach _ hne
  cases hnone.symm.trans hsome

end SshCommander.PendingConnects
