import SshCommander.ConnectionOwnership

/-!
# Isolation of the sessions

An operation looks its connection up and waits for it later, so a release can hand the connection
on in between. As long as no release puts a connection back that an operation still has, every
operation works on the connection of its own session, and the cursor it meets there is its own.
-/

namespace SshCommander.SessionIsolation
open InterleavedTasks InterleavedTasks.TaskSystem MapWeights ConnectionPool ConnectionPool.Pool
  PooledConnection SessionCalls PoolLedger PoolAccounting ConnectionOwnership

variable {g : PostgresWire.Grammar} {cfg : PgConfig} {c c' d : Config Pool Task}
  {a : Action Task Event} {as : List (Action Task Event)} {p p' : Pool} {t t' u : Task} {e : Event}
  {s s' : SessionId} {k j : ConnId}

/-- The session and the connection of an operation that runs statements, takes the active cursor
or cancels in its next section. -/
def worker : Task → Option (SessionId × ConnId)
  | .running s k .. | .releasing s k _ | .cancelling s k => some (s, k)
  | _ => none

def setsCursor : Task → Option (SessionId × ConnId)
  | .running s k _ (.ask (.setCursor (some _)) _) _ => some (s, k)
  | .releasing s k (.ask (.setCursor (some _)) _) => some (s, k)
  | _ => none

def cursorOf (p : Pool) (k : ConnId) : Option ActiveCursor :=
  (p.conns[k]?).bind (·.conn.activeCursor)

theorem cursorOf_modify {f : ConnectionPool.PooledConnection → ConnectionPool.PooledConnection}
    (hp : p'.conns = p.conns.modify k f)
    (hf : ∀ pc, (f pc).conn.activeCursor = pc.conn.activeCursor) (j : ConnId) :
    cursorOf p' j = cursorOf p j := by
  simp only [cursorOf, hp, List.getElem?_modify]
  cases p.conns[j]? with
  | none => rfl
  | some pc =>
    by_cases hk : k = j
    · simp [hk, hf]
    · simp [hk]

@[simp] theorem cursorOf_abort (p : Pool) (k j : ConnId) :
    cursorOf (p.abort k) j = cursorOf p j :=
  cursorOf_modify rfl (by intro _; rfl) j

@[simp] theorem cursorOf_hold (p : Pool) (k j : ConnId) : cursorOf (p.hold k) j = cursorOf p j :=
  cursorOf_modify rfl (by intro _; rfl) j

@[simp] theorem cursorOf_unhold (p : Pool) (k j : ConnId) :
    cursorOf (p.unhold k) j = cursorOf p j :=
  cursorOf_modify rfl (by intro _; rfl) j

@[simp] theorem cursorOf_setLocked (p : Pool) (k j : ConnId) (b : Bool) :
    cursorOf (p.setLocked k b) j = cursorOf p j :=
  cursorOf_modify rfl (by intro _; rfl) j

@[simp] theorem cursorOf_reap (p : Pool) (k j : ConnId) : cursorOf (p.reap k) j = cursorOf p j := by
  unfold reap
  split
  · rfl
  · exact cursorOf_abort p k j

@[simp] theorem cursorOf_letGo (p : Pool) (k j : ConnId) :
    cursorOf (p.letGo k) j = cursorOf p j := by
  rw [letGo, cursorOf_reap, cursorOf_unhold]

@[simp] theorem cursorOf_abortAll (p : Pool) (ks : List ConnId) (j : ConnId) :
    cursorOf (p.abortAll ks) j = cursorOf p j := by
  unfold abortAll
  induction ks generalizing p with
  | nil => rfl
  | cons k ks ih => simp [ih]

@[simp] theorem cursorOf_holdAll (p : Pool) (ks : List ConnId) (j : ConnId) :
    cursorOf (p.holdAll ks) j = cursorOf p j := by
  unfold holdAll
  induction ks generalizing p with
  | nil => rfl
  | cons k ks ih => simp [ih]

@[simp] theorem cursorOf_assignLease (p : Pool) (s : SessionId) (k j : ConnId) :
    cursorOf (p.assignLease s k) j = cursorOf p j := by
  unfold assignLease
  split
  · rfl
  · exact cursorOf_reap _ _ _

theorem cursorOf_add (p : Pool) (j : ConnId) : cursorOf p.add.1 j = cursorOf p j := by
  simp only [cursorOf, add]
  rcases Nat.lt_trichotomy j p.conns.length with hj | rfl | hj
  · rw [List.getElem?_append_left hj]
  · simp [Conn.fresh]
  · rw [List.getElem?_eq_none hj.le, List.getElem?_eq_none (by simpa using Nat.succ_le_of_lt hj)]

theorem cursorOf_setConn {pc : ConnectionPool.PooledConnection} (h : p.conns[k]? = some pc)
    (conn : Conn) (j : ConnId) :
    cursorOf (p.setConn k conn) j = if j = k then conn.activeCursor else cursorOf p j := by
  simp only [cursorOf, setConn, List.getElem?_modify]
  by_cases hj : j = k
  · subst hj
    simp [h]
  · have hne : ¬k = j := fun heq => hj heq.symm
    cases p.conns[j]? <;> simp [hj, hne]

theorem serve_cursor {conn : Conn} {q : Request} {ch : PostgresWire.Choice} {cur : ActiveCursor}
    (h : (Conn.serve g conn q ch).1.activeCursor = some cur) :
    conn.activeCursor = some cur ∨ ∃ cur', q = .setCursor (some cur') := by
  cases q with
  | takeCursor => cases h
  | takeCursorIf id =>
    simp only [Conn.serve, Conn.takeIf] at h
    split at h
    · split at h
      · cases h
      · exact .inl h
    · exact .inl h
  | readCursor => exact .inl h
  | setCursor cur' => exact .inr ⟨cur, by rw [show cur' = some cur from h]⟩
  | send cmd => exact .inl h

theorem cursor_of_served {pc : ConnectionPool.PooledConnection} {q : Request}
    {ch : PostgresWire.Choice} {cur : ActiveCursor} (h : p.conns[k]? = some pc)
    (hc : cursorOf (p.setConn k (Conn.serve g pc.conn q ch).1) j = some cur) :
    cursorOf p j = some cur ∨ j = k ∧ ∃ cur', q = .setCursor (some cur') := by
  rw [cursorOf_setConn h] at hc
  split at hc
  · rename_i hj
    rcases serve_cursor hc with hold | hset
    · exact .inl (by simpa [cursorOf, hj, h] using hold)
    · exact .inr ⟨hj, hset⟩
  · exact .inl hc

/-- A cursor was there before, or the section sets it. -/
theorem transition_cursors (h : Transition g cfg p e t p' t') (ht : sessionTask t = true)
    {cur : ActiveCursor} (hc : cursorOf p' k = some cur) :
    cursorOf p k = some cur ∨ ∃ s, setsCursor t = some (s, k) := by
  cases h with
  | popped h =>
    obtain ⟨entry, -, -, rfl⟩ := popIdle_some h
    rw [cursorOf_hold] at hc
    exact .inl hc
  | reserved h =>
    obtain ⟨-, rfl⟩ := reserveConnectionSlot_ok h
    exact .inl hc
  | opened => exact .inl (cursorOf_add p k ▸ hc)
  | served h =>
    rcases cursor_of_served h hc with hold | ⟨rfl, cur', rfl⟩
    · exact .inl hold
    · exact .inr ⟨_, rfl⟩
  | cleaned h =>
    rcases cursor_of_served h hc with hold | ⟨rfl, cur', rfl⟩
    · exact .inl hold
    · exact .inr ⟨_, rfl⟩
  | idleEvicted | noSecondary | secondaryEvicted =>
    simp only [evictIdle, evictSecondary, cursorOf_holdAll] at hc
    exact .inl hc
  | taken | pushed | leaseHit | assigned | found | cancelHit | returned | cancelled | locked
  | releaseLocked | released | idleAborted =>
    simp only [cursorOf_hold, cursorOf_unhold, cursorOf_setLocked, cursorOf_letGo,
      cursorOf_assignLease, cursorOf_abortAll] at hc
    exact .inl hc
  | browserHit | browserMiss | browserReserved | browserNotReserved | browserOpened
  | browserNotOpened | raced | inserted | duplicateDropped | browsed | secondaryCounted
  | secondaryAborted | innerDrained | secondaryDrained | shutDown => cases ht
  | _ => exact .inl hc

inductive Handover (p : Pool) (t : Task) (p' : Pool) (t' : Task) : Prop where
  | same (leased : p'.inner.leased = p.inner.leased) (released : releaser t' = releaser t)
  | assigned (s : SessionId) (use : Purpose) (k : ConnId) (old : t = .leaseAssign s use k)
      (leased : p'.inner.leased = p.inner.leased.insert s k) (released : releaser t' = none)
  | taken (s : SessionId) (k : ConnId) (found : p.inner.leased.lookup s = some k)
      (leased : p'.inner.leased = p.inner.leased.erase s) (old : releaser t = none)
      (released : releaser t' = some (s, k))
  | returned (s : SessionId) (k : ConnId) (old : t = .returning s k)
      (leased : p'.inner.leased = p.inner.leased) (released : releaser t' = none)

theorem assignLease_leased (p : Pool) (s : SessionId) (k : ConnId) :
    (p.assignLease s k).inner.leased = p.inner.leased.insert s k := by
  unfold assignLease
  split
  · rfl
  · rw [reap_inner]
    rfl

theorem releaser_next (use : Purpose) (s : SessionId) (k : ConnId) :
    releaser (use.next s k) = none := by
  cases use <;> rfl

theorem transition_handover (h : Transition g cfg p e t p' t') (ht : sessionTask t = true)
    (hp : p.secondaryBrowsers = ∅) : Handover p t p' t' := by
  cases h with
  | leaseHit => exact .same rfl (releaser_next _ _ _)
  | popped h =>
    obtain ⟨entry, -, -, rfl⟩ := popIdle_some h
    exact .same rfl rfl
  | assigned => exact .assigned _ _ _ rfl (assignLease_leased _ _ _) (releaser_next _ _ _)
  | reserved h =>
    obtain ⟨-, rfl⟩ := reserveConnectionSlot_ok h
    exact .same rfl rfl
  | taken h => exact .taken _ _ h rfl rfl rfl
  | pushed => exact .returned _ _ rfl rfl rfl
  | returned | cancelled => exact .same (by simp) rfl
  | idleEvicted => exact .same (by simp [evictIdle, setTotal, setIdle]) rfl
  | idleAborted => exact .same (by simp) rfl
  | noSecondary => exact .same (by rw [(evictSecondary_of_empty hp _ _).2.1]) rfl
  | secondaryEvicted h => exact absurd (evictSecondary_of_empty hp _ _).1 h
  | browserHit | browserMiss | browserReserved | browserNotReserved | browserOpened
  | browserNotOpened | raced | inserted | duplicateDropped | browsed | secondaryCounted
  | secondaryAborted | innerDrained | secondaryDrained | shutDown => cases ht
  | _ => exact .same rfl rfl

theorem evictLoop_mem (cfg : PgConfig) (now : ℕ) (rest keep : List IdleEntry)
    (drop : List ConnId) :
    (∀ x ∈ (evictLoop cfg now rest keep drop).1, x ∈ rest ∨ x ∈ keep) ∧
      ∀ k ∈ (evictLoop cfg now rest keep drop).2, (∃ x ∈ rest, x.conn = k) ∨ k ∈ drop := by
  induction rest generalizing keep drop with
  | nil => exact ⟨fun x hx => .inr hx, fun k hk => .inr hk⟩
  | cons entry rest ih =>
    simp only [evictLoop]
    split
    · obtain ⟨hkeep, hdrop⟩ := ih (keep ++ [entry]) drop
      refine ⟨fun x hx => ?_, fun k hk => ?_⟩
      · have := hkeep x hx
        grind
      · have := hdrop k hk
        grind
    · obtain ⟨hkeep, hdrop⟩ := ih keep (drop ++ [entry.conn])
      refine ⟨fun x hx => ?_, fun k hk => ?_⟩
      · have := hkeep x hx
        grind
      · have := hdrop k hk
        grind

structure Loosened (p : Pool) (t : Task) (p' : Pool) (t' : Task) : Prop where
  idle : ∀ x ∈ p'.inner.idle, x ∈ p.inner.idle ∨ ∃ s, t = .returning s x.conn
  loose : ∀ k ∈ between t', k ∈ between t ∨ (∃ entry ∈ p.inner.idle, entry.conn = k) ∨
    k = p.conns.length

theorem Loosened.quiet (hi : p'.inner = p.inner) (hb : ∀ k ∈ between t', k ∈ between t) :
    Loosened p t p' t' :=
  ⟨fun _ hx => .inl (hi ▸ hx), fun k hk => .inl (hb k hk)⟩

theorem between_next (use : Purpose) (s : SessionId) (k : ConnId) : between (use.next s k) = [] := by
  cases use <;> rfl

theorem transition_loosened (h : Transition g cfg p e t p' t') (ht : sessionTask t = true)
    (hp : p.secondaryBrowsers = ∅) : Loosened p t p' t' := by
  cases h with
  | leaseHit => exact .quiet rfl (by simp [between_next])
  | popped h =>
    obtain ⟨entry, hidle, rfl, rfl⟩ := popIdle_some h
    have hmem : entry ∈ p.inner.idle := by
      rw [hidle]
      exact List.mem_append_right _ List.mem_cons_self
    refine ⟨fun x hx => .inl (List.dropLast_subset _ hx), fun k hk => .inr (.inl ⟨entry, hmem, ?_⟩)⟩
    exact (List.mem_singleton.mp hk).symm
  | @assigned s use k =>
    refine ⟨fun x hx => .inl ?_, by simp [between_next]⟩
    unfold assignLease at hx
    split at hx
    · exact hx
    · rw [reap_inner] at hx
      exact hx
  | reserved h =>
    obtain ⟨-, rfl⟩ := reserveConnectionSlot_ok h
    exact ⟨fun x hx => .inl hx, fun k hk => .inl hk⟩
  | rolledBack => exact ⟨fun x hx => .inl hx, fun k hk => .inl hk⟩
  | opened => exact ⟨fun x hx => .inl hx, fun k hk => .inr (.inr (List.mem_singleton.mp hk))⟩
  | taken => exact ⟨fun x hx => .inl hx, fun k hk => .inl hk⟩
  | @pushed s k =>
    refine ⟨fun x hx => ?_, fun k hk => .inl hk⟩
    rcases List.mem_append.mp hx with hx | hx
    · exact .inl hx
    · obtain rfl := List.mem_singleton.mp hx
      exact .inr ⟨s, rfl⟩
  | @idleEvicted now =>
    obtain ⟨hkeep, hdrop⟩ := evictLoop_mem cfg now p.inner.idle [] []
    refine ⟨fun x hx => ?_, fun k hk => ?_⟩
    · simp only [evictIdle, holdAll_inner] at hx
      exact (hkeep x hx).elim .inl fun h => absurd h List.not_mem_nil
    · exact (hdrop k hk).elim (fun h => .inr (.inl h)) fun h => absurd h List.not_mem_nil
  | returned | cancelled => exact .quiet (by simp) (by simp [between])
  | idleAborted => exact .quiet (by simp) (by simp [between])
  | noSecondary => exact .quiet (evictSecondary_of_empty hp _ _).2.1 (by simp [between])
  | secondaryEvicted h => exact absurd (evictSecondary_of_empty hp _ _).1 h
  | browserHit | browserMiss | browserReserved | browserNotReserved | browserOpened
  | browserNotOpened | raced | inserted | duplicateDropped | browsed | secondaryCounted
  | secondaryAborted | innerDrained | secondaryDrained | shutDown => cases ht
  | _ => exact .quiet rfl (by simp [between])

/-- An operation that has looked a connection up found it leased. -/
theorem transition_users (h : Transition g cfg p e t p' t') (hu : user t' = some (s, k)) :
    user t = some (s, k) ∨ p'.inner.leased.lookup s = some k := by
  cases h with
  | @leaseHit s' use k' h =>
    cases use with
    | browse => cases hu
    | call =>
      cases hu
      exact .inr h
  | @assigned s' use k' =>
    cases use with
    | browse => cases hu
    | call =>
      cases hu
      rw [assignLease_leased]
      exact .inr (AList.lookup_insert _)
  | found h | cancelHit h =>
    cases hu
    exact .inr h
  | locked | served =>
    cases hu
    exact .inl rfl
  | _ => cases hu

variable {i : ℕ}

theorem has_back (hand : Handover c.shared t p' t') (hi : c.tasks[i]? = some t)
    (h : Has ⟨p', c.tasks.set i t'⟩ s k) : Has c s k ∨ ∃ use, t = .leaseAssign s use k := by
  have hmem := List.mem_of_getElem? hi
  rcases h with hl | ⟨u, hu, hr⟩
  · dsimp only at hl
    cases hand with
    | same leased | returned _ _ _ leased => exact .inl (.inl (leased ▸ hl))
    | assigned s' use k' old leased =>
      rw [leased] at hl
      by_cases hs : s = s'
      · subst hs
        rw [AList.lookup_insert, Option.some.injEq] at hl
        exact .inr ⟨use, hl ▸ old⟩
      · rw [AList.lookup_insert_ne hs] at hl
        exact .inl (.inl hl)
    | taken s' k' found leased =>
      rw [leased] at hl
      by_cases hs : s = s'
      · subst hs
        rw [AList.lookup_erase] at hl
        cases hl
      · rw [AList.lookup_erase_ne hs] at hl
        exact .inl (.inl hl)
  · rcases List.mem_or_eq_of_mem_set hu with hu | rfl
    · exact .inl (.inr ⟨u, hu, hr⟩)
    · cases hand with
      | same _ released => exact .inl (.inr ⟨t, hmem, released ▸ hr⟩)
      | assigned _ _ _ _ _ released | returned _ _ _ _ released =>
        rw [released] at hr
        cases hr
      | taken s' k' found _ _ released =>
        obtain ⟨rfl, rfl⟩ := Prod.mk.inj (Option.some.inj (released.symm.trans hr))
        exact .inl (.inl found)

theorem has_forward (hand : Handover c.shared t p' t') (hi : c.tasks[i]? = some t)
    (h : Has c s k)
    (hassign : ∀ use k', t = .leaseAssign s use k' → c.shared.inner.leased.lookup s ≠ some k)
    (hreturn : t ≠ .returning s k) : Has ⟨p', c.tasks.set i t'⟩ s k := by
  rcases h with hl | ⟨u, hu, hr⟩
  · cases hand with
    | same leased | returned _ _ _ leased => exact .inl (leased ▸ hl)
    | assigned s' use k' old leased =>
      by_cases hs : s = s'
      · subst hs
        exact absurd hl (hassign use k' old)
      · exact .inl (by rw [leased, AList.lookup_insert_ne hs, hl])
    | taken s' k' found leased old released =>
      by_cases hs : s = s'
      · subst hs
        obtain rfl := Option.some.inj (found.symm.trans hl)
        exact .inr ⟨t', mem_set_self hi t', released⟩
      · exact .inl (by rw [leased, AList.lookup_erase_ne hs, hl])
  · rcases mem_set_or_eq hi hu t' with hmem | rfl
    · exact .inr ⟨u, hmem, hr⟩
    · cases hand with
      | same _ released => exact .inr ⟨t', mem_set_self hi t', released.trans hr⟩
      | assigned _ _ _ old =>
        subst old
        cases hr
      | taken _ _ _ _ old =>
        rw [old] at hr
        cases hr
      | returned s' k' old =>
        subst old
        obtain ⟨rfl, rfl⟩ := Prod.mk.inj (Option.some.inj hr)
        exact absurd rfl hreturn

theorem loose_back (hl : Loosened c.shared t p' t') (hi : c.tasks[i]? = some t)
    (h : Loose ⟨p', c.tasks.set i t'⟩ k) :
    Loose c k ∨ (∃ s, t = .returning s k) ∨ k = c.shared.conns.length := by
  have hmem := List.mem_of_getElem? hi
  rcases h with ⟨x, hx, rfl⟩ | ⟨u, hu, hb⟩
  · rcases hl.idle x hx with hx | hs
    · exact .inl (.inl ⟨x, hx, rfl⟩)
    · exact .inr (.inl hs)
  · rcases List.mem_or_eq_of_mem_set hu with hu | rfl
    · exact .inl (.inr ⟨u, hu, hb⟩)
    · rcases hl.loose k hb with hb | hidle | hnew
      · exact .inl (.inr ⟨t, hmem, hb⟩)
      · exact .inl (.inl hidle)
      · exact .inr (.inr hnew)

/-- Who opened the active cursor of each connection. -/
def noteOpener (c : Config Pool Task) :
    Action Task Event → (ConnId → Option SessionId) → ConnId → Option SessionId
  | .spawn _, opener => opener
  | .advance i _, opener =>
    match c.tasks[i]?.bind setsCursor with
    | none => opener
    | some (s, k) => Function.update opener k (some s)

def assigns : Task → Option SessionId
  | .leaseAssign s _ _ => some s
  | _ => none

def putsBack : Task → Option ConnId
  | .returning _ k => some k
  | _ => none

/-- No lease is replaced and no connection goes back to idle while an operation still has it, and
it goes back without an active cursor. -/
def Undisturbed (c : Config Pool Task) : Action Task Event → Prop
  | .spawn _ => True
  | .advance i _ => ∀ t ∈ c.tasks[i]?,
    (∀ s ∈ assigns t, ∀ u ∈ c.tasks, ∀ x ∈ user u, x.1 = s →
      c.shared.inner.leased.lookup s ≠ some x.2) ∧
    ∀ k ∈ putsBack t, cursorOf c.shared k = none ∧ ∀ u ∈ c.tasks, ∀ x ∈ user u, x.2 ≠ k

instance : ∀ c a, Decidable (Undisturbed c a)
  | _, .spawn _ => inferInstanceAs (Decidable True)
  | c, .advance i _ => inferInstanceAs (Decidable (∀ t ∈ c.tasks[i]?,
      (∀ s ∈ assigns t, ∀ u ∈ c.tasks, ∀ x ∈ user u, x.1 = s →
        c.shared.inner.leased.lookup s ≠ some x.2) ∧
      ∀ k ∈ putsBack t, cursorOf c.shared k = none ∧ ∀ u ∈ c.tasks, ∀ x ∈ user u, x.2 ≠ k))

/-- Every operation works on a connection of its own session, which no other session has, and the
active cursor there is its session's; and no operation has a connection that is evicted. -/
structure Isolated (c : Config Pool Task) (opener : ConnId → Option SessionId) : Prop where
  own : ∀ t ∈ c.tasks, ∀ s k, worker t = some (s, k) → Has c s k
  alone : ∀ t ∈ c.tasks, ∀ s k, worker t = some (s, k) → ∀ s', Has c s' k → s' = s
  ownCursor : ∀ t ∈ c.tasks, ∀ s k, worker t = some (s, k) →
    ∀ cur, cursorOf c.shared k = some cur → opener k = some s
  notEvicted : ∀ now ks, .evictAbort now ks ∈ c.tasks → ∀ k ∈ ks, ∀ t ∈ c.tasks, ∀ s,
    user t ≠ some (s, k) ∧ releaser t ≠ some (s, k)

structure Safe (c : Config Pool Task) (opener : ConnId → Option SessionId) : Prop where
  owned : Owned c
  users : ∀ t ∈ c.tasks, ∀ s k, user t = some (s, k) → Has c s k
  openers : ∀ s k cur, Has c s k → cursorOf c.shared k = some cur → opener k = some s
  loose : ∀ k, Loose c k → cursorOf c.shared k = none

variable {opener : ConnId → Option SessionId}

theorem user_or_releaser (h : worker t = some (s, k)) :
    user t = some (s, k) ∨ releaser t = some (s, k) := by
  cases t with
  | running | cancelling => exact .inl h
  | releasing => exact .inr h
  | _ => cases h

theorem setter_works (h : setsCursor t = some (s, k)) : worker t = some (s, k) := by
  unfold setsCursor at h
  split at h <;> first | exact h | cases h

theorem Safe.worker_has (h : Safe c opener) (ht : t ∈ c.tasks) (hw : worker t = some (s, k)) :
    Has c s k := by
  rcases user_or_releaser hw with hu | hr
  · exact h.users t ht s k hu
  · exact .inr ⟨t, ht, hr⟩

theorem Safe.isolated (h : Safe c opener) : Isolated c opener where
  own t ht s k hw := h.worker_has ht hw
  alone t ht s k hw s' hs' := has_unique h.owned hs' (h.worker_has ht hw)
  ownCursor t ht s k hw cur hcur := h.openers s k cur (h.worker_has ht hw) hcur
  notEvicted now ks he k hk t ht s := by
    have hloose : Loose c k := .inr ⟨_, he, hk⟩
    exact ⟨fun hu => not_loose_of_has h.owned (h.users t ht s k hu) hloose,
      fun hr => not_loose_of_has h.owned (.inr ⟨t, ht, hr⟩) hloose⟩

theorem cursorOf_unborn (p : Pool) : cursorOf p p.conns.length = none := by
  simp [cursorOf]

theorem Undisturbed.has (hu : Undisturbed c (.advance i e)) (hi : c.tasks[i]? = some t)
    (hand : Handover c.shared t p' t') (hmem : u ∈ c.tasks) (huser : user u = some (s, k))
    (h : Has c s k) : Has ⟨p', c.tasks.set i t'⟩ s k := by
  obtain ⟨hassign, hreturn⟩ := hu t hi
  refine has_forward hand hi h (fun use k' heq => ?_) fun heq => ?_
  · subst heq
    exact hassign s rfl u hmem (s, k) huser rfl
  · subst heq
    exact (hreturn k rfl).2 u hmem (s, k) huser rfl

theorem noteOpener_none {e : Event} (hi : c.tasks[i]? = some t) (hk : ∀ s, setsCursor t ≠ some (s, k)) :
    noteOpener c (.advance i e) opener k = opener k := by
  simp only [noteOpener, hi, Option.bind_some]
  cases h : setsCursor t with
  | none => rfl
  | some x =>
    have hne : k ≠ x.2 := by
      rintro rfl
      exact hk x.1 h
    exact Function.update_of_ne hne _ _

theorem noteOpener_some {e : Event} (hi : c.tasks[i]? = some t) (hk : setsCursor t = some (s, k)) :
    noteOpener c (.advance i e) opener k = some s := by
  simp [noteOpener, hi, hk]

theorem safe_step (h : Safe c opener) (hu : Undisturbed c (.advance i e))
    (hi : c.tasks[i]? = some t)
    (hs : ConnectionPool.step g cfg c.shared t e = some (p', t')) :
    Safe ⟨p', c.tasks.set i t'⟩ (noteOpener c (.advance i e) opener) := by
  have hmem := List.mem_of_getElem? hi
  have htrans := step_transition hs
  have hsession := h.owned.session t hmem
  have hand := transition_handover htrans hsession h.owned.noSecondary
  have hloosened := transition_loosened htrans hsession h.owned.noSecondary
  refine ⟨owned_step h.owned hi hs, fun u hmem' s k huser => ?_, fun s k cur hhas hcur => ?_,
    fun k hloose => ?_⟩
  · rcases List.mem_or_eq_of_mem_set hmem' with hmem' | rfl
    · exact hu.has hi hand hmem' huser (h.users u hmem' s k huser)
    · rcases transition_users htrans huser with hold | hleased
      · exact hu.has hi hand hmem hold (h.users t hmem s k hold)
      · exact .inl hleased
  · by_cases hset : ∃ s₀, setsCursor t = some (s₀, k)
    · obtain ⟨s₀, hset⟩ := hset
      have hhas₀ := h.worker_has hmem (setter_works hset)
      rcases has_back hand hi hhas with hhas | ⟨use, rfl⟩
      · rw [noteOpener_some hi hset, has_unique h.owned hhas₀ hhas]
      · cases hset
    · have hnone (s₀ : SessionId) : setsCursor t ≠ some (s₀, k) := fun heq => hset ⟨s₀, heq⟩
      have hcur := (transition_cursors htrans hsession hcur).resolve_right hset
      rw [noteOpener_none hi hnone]
      rcases has_back hand hi hhas with hhas | ⟨use, rfl⟩
      · exact h.openers s k cur hhas hcur
      · have hloose : Loose c k := .inr ⟨_, hmem, List.mem_cons_self⟩
        cases (h.loose k hloose).symm.trans hcur
  · by_contra hcur
    obtain ⟨cur, hcur⟩ := Option.ne_none_iff_exists'.mp hcur
    rcases loose_back hloosened hi hloose with hold | ⟨s, rfl⟩ | rfl
    · rcases transition_cursors htrans hsession hcur with hcur | ⟨s, hset⟩
      · cases (h.loose k hold).symm.trans hcur
      · exact not_loose_of_has h.owned (h.worker_has hmem (setter_works hset)) hold
    · rcases transition_cursors htrans hsession hcur with hcur | ⟨s', hset⟩
      · cases ((hu _ hi).2 k rfl).1.symm.trans hcur
      · cases hset
    · rcases transition_cursors htrans hsession hcur with hcur | ⟨s, hset⟩
      · cases (cursorOf_unborn c.shared).symm.trans hcur
      · exact absurd (has_born h.owned (h.worker_has hmem (setter_works hset))) (lt_irrefl _)

theorem safe_spawn (h : Safe c opener) (ht : starts cfg t = true) (hsession : sessionTask t = true) :
    Safe ⟨c.shared, c.tasks ++ [t]⟩ opener := by
  have hquiet : user t = none ∧ releaser t = none ∧ between t = [] := by
    cases t <;> first | exact ⟨rfl, rfl, rfl⟩ | cases ht
  have hback {s : SessionId} {k : ConnId} (hh : Has ⟨c.shared, c.tasks ++ [t]⟩ s k) : Has c s k := by
    rcases hh with hl | ⟨u, hu, hr⟩
    · exact .inl hl
    · rcases List.mem_append.mp hu with hu | hu
      · exact .inr ⟨u, hu, hr⟩
      · rw [List.mem_singleton.mp hu, hquiet.2.1] at hr
        cases hr
  refine ⟨owned_spawn h.owned ht hsession, fun u hu s k huser => ?_,
    fun s k cur hhas => h.openers s k cur (hback hhas), fun k hloose => h.loose k ?_⟩
  · rcases List.mem_append.mp hu with hu | hu
    · rcases h.users u hu s k huser with hl | ⟨x, hx, hr⟩
      · exact .inl hl
      · exact .inr ⟨x, List.mem_append_left _ hx, hr⟩
    · rw [List.mem_singleton.mp hu, hquiet.1] at huser
      cases huser
  · rcases hloose with hidle | ⟨u, hu, hb⟩
    · exact .inl hidle
    · rcases List.mem_append.mp hu with hu | hu
      · exact .inr ⟨u, hu, hb⟩
      · rw [List.mem_singleton.mp hu, hquiet.2.2] at hb
        cases hb

theorem safe_connect (now : ℕ) (opener : ConnId → Option SessionId) : Safe (connect now) opener := by
  have hcursor (k : ConnId) : cursorOf (connect now).shared k = none := by
    cases k <;> rfl
  refine ⟨owned_connect now, fun t ht => absurd ht List.not_mem_nil, fun s k cur _ hc => ?_,
    fun k _ => hcursor k⟩
  cases (hcursor k).symm.trans hc

/-- In every run of session operations and evictions in which no connection is handed on while an
operation still has it, the sessions are isolated in every configuration. -/
theorem sessions_isolated (g : PostgresWire.Grammar) (cfg : PgConfig) (now : ℕ)
    (as : List (Action Task Event)) (d : Config Pool Task)
    (hops : ∀ t, .spawn t ∈ as → sessionTask t = true)
    (hm : (system g cfg).Meets Undisturbed (connect now) as)
    (hr : (system g cfg).run (connect now) as = some d) :
    Isolated d ((system g cfg).noted noteOpener (connect now) (fun _ => none) as) := by
  have hspawn : (system g cfg).Meets (fun _ a => ∀ t, a = .spawn t → sessionTask t = true)
      (connect now) as := meets_of_forall fun a ha t heq => hops t (heq ▸ ha)
  have hstep (c : Config Pool Task) (opener : ConnId → Option SessionId) (a : Action Task Event)
      (c' : Config Pool Task) (h : Safe c opener)
      (ha : Undisturbed c a ∧ ∀ t, a = .spawn t → sessionTask t = true)
      (hact : (system g cfg).act c a = some c') : Safe c' (noteOpener c a opener) := by
    rcases act_cases hact with ⟨t, rfl, ht, rfl⟩ | ⟨i, e, t, p', t', rfl, hi, hs, rfl⟩
    · exact safe_spawn h ht (ha.2 t rfl)
    · exact safe_step h ha.1 hi hs
  exact (run_noted hstep (safe_connect now _) (meets_and hm hspawn) hr).isolated

def openedThenReleased : List (Action Task Event) :=
  selectFor "a".toList :: pages [0, 0, 0, 0, 0, 0, 0, 0, 0, 0] ++
    .spawn (.releaseTake "a".toList) :: pages [1, 1, 1, 1, 1, 1]

theorem sessions_isolated_openedThenReleased :
    ∃ d, (system smallServer defaultPool).run (connect 0) openedThenReleased = some d ∧
      (∀ t ∈ d.tasks, t.done = true) ∧
      Isolated d ((system smallServer defaultPool).noted noteOpener (connect 0) (fun _ => none)
        openedThenReleased) := by
  obtain ⟨d, hd, hdone⟩ := (Option.any_eq_true _ _).mp
    (show ((system smallServer defaultPool).run (connect 0) openedThenReleased).any
      (·.tasks.all (·.done)) by decide +kernel)
  refine ⟨d, hd, List.all_eq_true.mp hdone, sessions_isolated smallServer defaultPool 0
    openedThenReleased d (fun t ht => ?_) (by decide +kernel) hd⟩
  simp only [openedThenReleased, selectFor, List.cons_append, List.mem_cons, List.mem_append,
    spawn_notMem_pages, Action.spawn.injEq, false_or, or_false] at ht
  rcases ht with rfl | rfl <;> rfl

/-- `a` looks its connection up, is released, and `b` opens a cursor on the connection before the
call of `a` takes the `operation_lock`. -/
def staleHandle : List (Action Task Event) :=
  selectFor "a".toList :: pages [0, 0, 0] ++ .spawn (.releaseTake "a".toList) ::
    pages [1, 1, 1, 1, 1] ++ selectFor "b".toList :: pages [2, 2, 2, 2, 2, 2, 2, 2, 2, 2, 0]

/-- The call of `a` runs on the connection leased to `b`, where the cursor of `b` is active. -/
theorem staleHandle_not_isolated :
    (∀ t, .spawn t ∈ staleHandle → sessionTask t = true) ∧
      ∃ d, (system smallServer defaultPool).run (connect 0) staleHandle = some d ∧
        d.shared.inner.leased.lookup "b".toList = some 0 ∧
        cursorOf d.shared 0 = some ⟨"c_u".toList, 1⟩ ∧
        ¬Isolated d ((system smallServer defaultPool).noted noteOpener (connect 0) (fun _ => none)
          staleHandle) := by
  refine ⟨fun t ht => ?_, ?_⟩
  · simp only [staleHandle, selectFor, List.cons_append, List.mem_cons, List.mem_append,
      spawn_notMem_pages, Action.spawn.injEq, false_or, or_false] at ht
    rcases ht with rfl | rfl | rfl <;> rfl
  · obtain ⟨d, hd, h⟩ := (Option.any_eq_true _ _).mp
      (show ((system smallServer defaultPool).run (connect 0) staleHandle).any (fun d =>
        d.tasks.any (worker · == some ("a".toList, 0)) &&
          d.shared.inner.leased.lookup "b".toList == some 0 &&
          cursorOf d.shared 0 == some ⟨"c_u".toList, 1⟩) by decide +kernel)
    simp only [Bool.and_eq_true, beq_iff_eq, List.any_eq_true] at h
    obtain ⟨⟨⟨t, ht, hw⟩, hb⟩, hcur⟩ := h
    refine ⟨d, hd, hb, hcur, fun hiso => ?_⟩
    exact absurd (hiso.alone t ht _ _ hw _ (.inl hb)) (by decide +kernel)

end SshCommander.SessionIsolation
