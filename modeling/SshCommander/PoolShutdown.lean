import SshCommander.PoolAccounting

/-!
# Shutdown against the operations in flight

`shutdown` empties `inner`, then `secondary_browsers`, and the operations that were in flight go
on in between. The pool ends empty exactly when none of them puts a connection into a part that
was emptied before, and none parks a slot that `total` counts again.
-/

namespace SshCommander.PoolShutdown
open InterleavedTasks InterleavedTasks.TaskSystem MapWeights ConnectionPool ConnectionPool.Pool
  SessionCalls PoolLedger PoolAccounting

variable {g : PostgresWire.Grammar} {cfg : PgConfig} {c c' d : Config Pool Task}
  {as : List (Action Task Event)} {p p' : Pool} {t t' : Task} {e : Event} {n i : ℕ}

def evicts : Task → Bool
  | .evict | .evictIdle _ | .evictAbort .. | .evictSecondary _ | .evictSecondaryTotal _
  | .evictSecondaryAbort _ => true
  | _ => false

/-- The next section puts a connection into idle or into a lease. -/
def storesInner : Task → Bool
  | .leaseAssign .. | .returning .. => true
  | _ => false

/-- The next section puts a new connection into `secondary_browsers`. -/
def storesBrowser (p : Pool) : Task → Bool
  | .browserStore database _ => (p.secondaryBrowsers.lookup database).isNone
  | _ => false

def innerStored (p : Pool) : ℕ := p.inner.idle.length + p.inner.leased.entries.length

def browsers (p : Pool) : ℕ := p.secondaryBrowsers.entries.length

/-- One for an operation whose connection comes from `inner` or goes there. -/
def innerHeld : Task → ℕ
  | .leaseAssign .. | .releaseWaiting .. | .releasing .. | .returning .. => 1
  | _ => 0

inductive Shift (p : Pool) (t : Task) (p' : Pool) (t' : Task) : Prop where
  | steady (total : p'.inner.total = p.inner.total) (claimed : claims t' = claims t)
      (stored : innerStored p' = innerStored p) (kept : innerHeld t ≤ innerHeld t')
      (side : browsers p' = browsers p)
  | reserved (total : p'.inner.total = p.inner.total + 1) (claimed : claims t' = claims t + 1)
      (stored : innerStored p' = innerStored p) (kept : innerHeld t = 0)
      (side : browsers p' = browsers p)
  | rolledBack (total : p'.inner.total = p.inner.total - 1) (claimed : claims t = claims t' + 1)
      (stored : innerStored p' = innerStored p) (kept : innerHeld t = 0)
      (side : browsers p' = browsers p)
  | takenOut (found : 0 < innerStored p) (kept : 0 < innerHeld t') (side : browsers p' = browsers p)
  | putBack (stores : storesInner t = true) (stored : 0 < innerStored p')
      (side : browsers p' = browsers p)
  | inserted (stores : storesBrowser p t = true) (total : p'.inner.total = p.inner.total)
      (claimed : claims t = claims t' + 1) (stored : innerStored p' = innerStored p)
      (kept : innerHeld t = 0) (side : 0 < browsers p')

theorem Shift.quiet (hi : p'.inner = p.inner) (hs : p'.secondaryBrowsers = p.secondaryBrowsers)
    (hc : claims t' = claims t) (hk : innerHeld t ≤ innerHeld t') : Shift p t p' t' :=
  .steady (by rw [hi]) hc (by simp only [innerStored, hi]) hk (by simp only [browsers, hs])

theorem innerStored_assignLease (p : Pool) (s : SessionId) (k : ConnId) :
    0 < innerStored (p.assignLease s k) ∧ browsers (p.assignLease s k) = browsers p := by
  have hpos : 0 < innerStored (p.setLeased (p.inner.leased.insert s k)) := by
    simp [innerStored, setLeased, AList.entries_insert]
  unfold assignLease
  cases p.inner.leased.lookup s with
  | none => exact ⟨hpos, rfl⟩
  | some old =>
    refine ⟨?_, ?_⟩
    · simpa only [innerStored, reap_inner] using hpos
    · simp only [browsers, reap_secondary]
      rfl

theorem transition_shift (h : Transition g cfg p e t p' t') (hs : isShutdown t = false)
    (he : evicts t = false) : Shift p t p' t' := by
  cases h with
  | leaseHit => exact .quiet rfl rfl (claims_next _ _ _) (Nat.zero_le _)
  | popped h =>
    obtain ⟨entry, hidle, -, rfl⟩ := popIdle_some h
    refine .takenOut ?_ Nat.one_pos rfl
    simp only [innerStored]
    rw [hidle, List.length_append, List.length_singleton]
    omega
  | @assigned s use k =>
    exact .putBack rfl (innerStored_assignLease p s k).1 (innerStored_assignLease p s k).2
  | reserved h | browserReserved h =>
    obtain ⟨-, rfl⟩ := reserveConnectionSlot_ok h
    exact .reserved rfl rfl rfl rfl rfl
  | rolledBack => exact .rolledBack rfl rfl rfl rfl rfl
  | taken h =>
    refine .takenOut ?_ Nat.one_pos rfl
    exact Nat.add_pos_right _ (length_pos_of_lookup h)
  | pushed => exact .putBack rfl (by simp [innerStored, setIdle]) rfl
  | browserHit h =>
    exact .steady rfl rfl rfl (Nat.le_refl _) (length_insert_some h _)
  | raced h =>
    exact .steady rfl rfl rfl (Nat.le_refl _) (length_insert_some h _)
  | inserted h =>
    refine .inserted (by simp [storesBrowser, h]) rfl rfl rfl rfl ?_
    simp [browsers, AList.entries_insert]
  | @duplicateDropped own existing =>
    have hi : (p.releaseConnectionSlot.letGo own).inner = p.releaseConnectionSlot.inner := by simp
    refine .rolledBack (by rw [hi]; rfl) rfl (by simp only [innerStored, hi]; rfl) rfl ?_
    simp only [browsers, letGo_secondary]
    rfl
  | innerDrained | secondaryDrained | shutDown => cases hs
  | clockRead | idleEvicted | idleAborted | noSecondary | secondaryEvicted | secondaryCounted
  | secondaryAborted => cases he
  | returned | cancelled | browsed => exact .quiet (by simp) (by simp) rfl (Nat.le_refl _)
  | _ => exact .quiet rfl rfl rfl (by simp [innerHeld])

/-- An operation that finds no entry in `secondary_browsers` puts its connection there. -/
theorem storesBrowser_inserts (h : ConnectionPool.step g cfg p t e = some (p', t'))
    (hs : storesBrowser p t = true) :
    p'.inner = p.inner ∧ claims t = claims t' + 1 ∧ 0 < browsers p' := by
  cases t with
  | browserStore database k =>
    have hl : p.secondaryBrowsers.lookup database = none := by simpa [storesBrowser] using hs
    simp only [ConnectionPool.step, hl, Option.some.injEq, Prod.mk.injEq] at h
    obtain ⟨rfl, rfl⟩ := h
    exact ⟨rfl, rfl, by simp [browsers, setSecondary, AList.entries_insert]⟩
  | _ => cases hs

def closes : Task → Bool
  | .shutdownInner | .shutdownSecondary _ | .shutdownAbort _ | .finished => true
  | _ => false

def innerEmptied : Task → Bool
  | .shutdownInner => false
  | _ => true

def bothEmptied : Task → Bool
  | .shutdownInner | .shutdownSecondary _ => false
  | _ => true

def Past (point : Task → Bool) (n : ℕ) (c : Config Pool Task) : Prop :=
  ∃ t, c.tasks[n]? = some t ∧ point t = true

structure Closing (n : ℕ) (c : Config Pool Task) : Prop where
  closer : ∃ t, c.tasks[n]? = some t ∧ closes t = true
  others : ∀ j t, j ≠ n → c.tasks[j]? = some t → isShutdown t = false ∧ evicts t = false

theorem evicts_next (use : Purpose) (s : SessionId) (k : ConnId) :
    evicts (use.next s k) = false := by
  cases use <;> rfl

/-- No operation turns into an eviction or a shutdown. -/
theorem transition_others (h : Transition g cfg p e t p' t') (hs : isShutdown t = false)
    (he : evicts t = false) : isShutdown t' = false ∧ evicts t' = false := by
  cases h with
  | leaseHit | assigned => exact ⟨isShutdown_next _ _ _, evicts_next _ _ _⟩
  | innerDrained | secondaryDrained => cases hs
  | clockRead | idleEvicted | idleAborted | secondaryEvicted | secondaryCounted => cases he
  | _ => exact ⟨rfl, rfl⟩

/-- One action while the shutdown goes on. -/
theorem closing_cases (h : Closing n c) (hact : (system g cfg).act c (.advance i e) = some c') :
    Closing n c' ∧
      ((i = n ∧ c.tasks[n]? = some .shutdownInner ∧ c' = ⟨c.shared.drainInner.1,
          c.tasks.set n (.shutdownSecondary c.shared.drainInner.2)⟩) ∨
      (∃ ks, i = n ∧ c.tasks[n]? = some (.shutdownSecondary ks) ∧
          c' = ⟨c.shared.drainSecondary.1,
            c.tasks.set n (.shutdownAbort (ks ++ c.shared.drainSecondary.2))⟩) ∨
      (∃ ks, i = n ∧ c.tasks[n]? = some (.shutdownAbort ks) ∧
          c' = ⟨c.shared.abortAll ks, c.tasks.set n .finished⟩) ∨
      ∃ t p' t', i ≠ n ∧ c.tasks[i]? = some t ∧ ConnectionPool.step g cfg c.shared t e = some (p', t') ∧
        Shift c.shared t p' t' ∧ c' = ⟨p', c.tasks.set i t'⟩) := by
  obtain ⟨u, hu, hcloses⟩ := h.closer
  rcases act_cases hact with ⟨_, h, _⟩ | ⟨j, e', t, p', t', heq, hj, hs, rfl⟩
  · cases h
  obtain ⟨rfl, rfl⟩ := Action.advance.inj heq
  by_cases hin : i = n
  · subst hin
    obtain rfl := Option.some.inj (hu.symm.trans hj)
    have hothers (x : Task) (j : ℕ) (t : Task) (hne : j ≠ i) (ht : (c.tasks.set i x)[j]? = some t) :
        isShutdown t = false ∧ evicts t = false := by
      rcases getElem?_set_cases ht with ⟨rfl, -⟩ | ⟨-, hj⟩
      · exact absurd rfl hne
      · exact h.others j t hne hj
    have hset (x : Task) : (c.tasks.set i x)[i]? = some x := by
      rw [List.getElem?_set_self']
      simp [hj]
    cases u with
    | shutdownInner =>
      obtain ⟨rfl, rfl⟩ := hs
      exact ⟨⟨⟨_, hset _, rfl⟩, hothers _⟩, .inl ⟨rfl, hj, rfl⟩⟩
    | shutdownSecondary ks =>
      obtain ⟨rfl, rfl⟩ := hs
      exact ⟨⟨⟨_, hset _, rfl⟩, hothers _⟩, .inr (.inl ⟨ks, rfl, hj, rfl⟩)⟩
    | shutdownAbort ks =>
      obtain ⟨rfl, rfl⟩ := hs
      exact ⟨⟨⟨_, hset _, rfl⟩, hothers _⟩, .inr (.inr (.inl ⟨ks, rfl, hj, rfl⟩))⟩
    | finished => cases hs
    | _ => cases hcloses
  · obtain ⟨hshut, hevict⟩ := h.others i t hin hj
    have htrans := step_transition hs
    refine ⟨⟨⟨u, ?_, hcloses⟩, fun j x hne hx => ?_⟩, .inr (.inr (.inr ⟨t, p', t', hin, hj, hs,
      transition_shift htrans hshut hevict, rfl⟩))⟩
    · rwa [List.getElem?_set_ne hin]
    · rcases getElem?_set_cases hx with ⟨rfl, rfl⟩ | ⟨-, hj⟩
      · exact transition_others htrans hshut hevict
      · exact h.others j x hne hj

theorem past_set_ne {point : Task → Bool} (p : Pool) (h : i ≠ n) (t' : Task) :
    Past point n ⟨p, c.tasks.set i t'⟩ ↔ Past point n c := by
  simp only [Past, List.getElem?_set_ne h]

theorem past_set_self {point : Task → Bool} (p : Pool) (ht : c.tasks[n]? = some t) (t' : Task) :
    Past point n ⟨p, c.tasks.set n t'⟩ ↔ point t' = true := by
  simp [Past, List.getElem?_set_self', ht]

theorem past_iff {point : Task → Bool} (ht : c.tasks[n]? = some t) :
    Past point n c ↔ point t = true := by
  simp [Past, ht]

theorem past_inner_of_both (h : Past bothEmptied n c) : Past innerEmptied n c := by
  obtain ⟨t, ht, hb⟩ := h
  refine ⟨t, ht, ?_⟩
  cases t <;> first | rfl | cases hb

def innerOut (ts : List Task) : ℕ := (ts.map innerHeld).sum

/-- The action puts no connection where the shutdown has been, and parks no slot that `total`
still counts. -/
def KeepsEmpty (n : ℕ) (c : Config Pool Task) : Action Task Event → Prop
  | .spawn _ => True
  | .advance i _ => ∀ t, c.tasks[i]? = some t →
    (Past innerEmptied n c → storesInner t = false ∧
      (storesBrowser c.shared t = true → c.shared.inner.total < outstanding c.tasks)) ∧
    (Past bothEmptied n c → storesBrowser c.shared t = false)

structure Emptied (n : ℕ) (c : Config Pool Task) : Prop where
  inner : Past innerEmptied n c →
    innerStored c.shared = 0 ∧ c.shared.inner.total ≤ outstanding c.tasks
  side : Past bothEmptied n c → browsers c.shared = 0

/-- Something is left that no operation in flight will clear. -/
inductive Spoiled (n : ℕ) (c : Config Pool Task) : Prop where
  | inner (past : Past innerEmptied n c) (h : 0 < innerStored c.shared + innerOut c.tasks)
  | total (past : Past innerEmptied n c) (h : outstanding c.tasks < c.shared.inner.total)
  | side (past : Past bothEmptied n c) (h : 0 < browsers c.shared)

theorem innerStored_drainInner (p : Pool) : innerStored p.drainInner.1 = 0 := by
  simp [innerStored, drainInner]

theorem total_drainInner (p : Pool) : p.drainInner.1.inner.total = 0 := by simp [drainInner]

theorem drainSecondary_inner (p : Pool) : p.drainSecondary.1.inner = p.inner := by
  simp [drainSecondary]

theorem browsers_drainSecondary (p : Pool) : browsers p.drainSecondary.1 = 0 := by
  simp [browsers, drainSecondary]

theorem outstanding_set (h : c.tasks[i]? = some t) (t' : Task) :
    outstanding (c.tasks.set i t') + claims t = outstanding c.tasks + claims t' :=
  sum_map_set claims h t'

theorem innerOut_set (h : c.tasks[i]? = some t) (t' : Task) :
    innerOut (c.tasks.set i t') + innerHeld t = innerOut c.tasks + innerHeld t' :=
  sum_map_set innerHeld h t'

theorem emptied_act (h : Closing n c) (he : Emptied n c)
    (hk : KeepsEmpty n c (.advance i e)) (hact : (system g cfg).act c (.advance i e) = some c') :
    Emptied n c' := by
  rcases (closing_cases h hact).2 with ⟨-, hn, rfl⟩ | ⟨ks, -, hn, rfl⟩ | ⟨ks, -, hn, rfl⟩ |
    ⟨t, p', t', hin, hi, hs, hshift, rfl⟩
  · refine ⟨fun _ => ⟨innerStored_drainInner _, ?_⟩, fun hp => ?_⟩
    · rw [total_drainInner]
      exact Nat.zero_le _
    · rw [past_set_self _ hn] at hp
      cases hp
  · obtain ⟨hi, ht⟩ := he.inner ((past_iff hn).mpr rfl)
    refine ⟨fun _ => ⟨by rwa [innerStored, drainSecondary_inner], ?_⟩, fun _ =>
      browsers_drainSecondary _⟩
    have hset := outstanding_set hn (.shutdownAbort (ks ++ c.shared.drainSecondary.2))
    simp only [claims, held, reserved] at hset
    simp only [drainSecondary_inner]
    omega
  · obtain ⟨hi, ht⟩ := he.inner ((past_iff hn).mpr rfl)
    have hb := he.side ((past_iff hn).mpr rfl)
    refine ⟨fun _ => ⟨by rwa [innerStored, abortAll_inner], ?_⟩, fun _ => by
      rwa [browsers, abortAll_secondary]⟩
    have hset := outstanding_set hn .finished
    simp only [claims, held, reserved] at hset
    simp only [abortAll_inner]
    omega
  · obtain ⟨hopen, hclosed⟩ := hk t hi
    have hset := outstanding_set hi t'
    have hle : claims t ≤ outstanding c.tasks := le_sum_map claims hi
    refine ⟨fun hp => ?_, fun hp => ?_⟩
    · rw [past_set_ne _ hin] at hp
      obtain ⟨hstored, htotal⟩ := he.inner hp
      obtain ⟨hno, hroom⟩ := hopen hp
      cases hshift with
      | takenOut found => omega
      | putBack stores => simp [hno] at stores
      | inserted stores total claimed stored =>
        have := hroom stores
        exact ⟨by simp only [stored, hstored], by simp only; omega⟩
      | steady total claimed stored | reserved total claimed stored
      | rolledBack total claimed stored =>
        exact ⟨by simp only [stored, hstored], by simp only; omega⟩
    · rw [past_set_ne _ hin] at hp
      have hb := he.side hp
      obtain ⟨hstored, -⟩ := he.inner (past_inner_of_both hp)
      cases hshift with
      | inserted stores => simp [hclosed hp] at stores
      | steady _ _ _ _ side | reserved _ _ _ _ side | rolledBack _ _ _ _ side
      | takenOut _ _ side | putBack _ _ side => simp only [side, hb]

theorem spoiled_act (h : Closing n c) (hsp : Spoiled n c)
    (hact : (system g cfg).act c (.advance i e) = some c') : Spoiled n c' := by
  rcases (closing_cases h hact).2 with ⟨-, hn, rfl⟩ | ⟨ks, -, hn, rfl⟩ | ⟨ks, -, hn, rfl⟩ |
    ⟨t, p', t', hin, hi, hs, hshift, rfl⟩
  · cases hsp with
    | inner past | total past | side past => cases (past_iff hn).mp past
  · have hout := outstanding_set hn (.shutdownAbort (ks ++ c.shared.drainSecondary.2))
    have hinner := innerOut_set hn (.shutdownAbort (ks ++ c.shared.drainSecondary.2))
    simp only [claims, held, reserved] at hout
    simp only [innerHeld] at hinner
    have hpast : Past innerEmptied n ⟨c.shared.drainSecondary.1,
        c.tasks.set n (.shutdownAbort (ks ++ c.shared.drainSecondary.2))⟩ :=
      (past_set_self _ hn _).mpr rfl
    cases hsp with
    | inner past h =>
      refine .inner hpast ?_
      simp only [innerStored, drainSecondary_inner] at h ⊢
      omega
    | total past h =>
      refine .total hpast ?_
      simp only [drainSecondary_inner]
      omega
    | side past => cases (past_iff hn).mp past
  · have hout := outstanding_set hn .finished
    have hinner := innerOut_set hn .finished
    simp only [claims, held, reserved] at hout
    simp only [innerHeld] at hinner
    cases hsp with
    | inner past h =>
      refine .inner ((past_set_self _ hn _).mpr rfl) ?_
      simp only [innerStored, abortAll_inner] at h ⊢
      omega
    | total past h =>
      refine .total ((past_set_self _ hn _).mpr rfl) ?_
      simp only [abortAll_inner]
      omega
    | side past h =>
      refine .side ((past_set_self _ hn _).mpr rfl) ?_
      simpa only [browsers, abortAll_secondary] using h
  · have hout := outstanding_set hi t'
    have hinner := innerOut_set hi t'
    have hle : claims t ≤ outstanding c.tasks := le_sum_map claims hi
    have hle' : innerHeld t ≤ innerOut c.tasks := le_sum_map innerHeld hi
    cases hsp with
    | inner past h =>
      refine .inner ((past_set_ne _ hin _).mpr past) ?_
      cases hshift with
      | steady _ _ stored kept | reserved _ _ stored kept | rolledBack _ _ stored kept
      | inserted _ _ _ stored kept =>
        simp only [stored]
        omega
      | takenOut _ kept => simp only; omega
      | putBack _ stored => exact Nat.add_pos_left stored _
    | total past h =>
      have hpast : Past innerEmptied n ⟨p', c.tasks.set i t'⟩ := (past_set_ne _ hin _).mpr past
      cases hshift with
      | steady total claimed | reserved total claimed | rolledBack total claimed
      | inserted _ total claimed => exact .total hpast (by simp only; omega)
      | takenOut _ kept => exact .inner hpast (by simp only; omega)
      | putBack _ stored => exact .inner hpast (Nat.add_pos_left stored _)
    | side past h =>
      refine .side ((past_set_ne _ hin _).mpr past) ?_
      cases hshift with
      | inserted _ _ _ _ _ side => exact side
      | steady _ _ _ _ side | reserved _ _ _ _ side | rolledBack _ _ _ _ side
      | takenOut _ _ side | putBack _ _ side => simpa only [side] using h

theorem innerHeld_of_stores (h : storesInner t = true) : innerHeld t = 1 := by
  cases t <;> first | rfl | cases h

theorem insert_act (h : Closing n c) (ht : c.tasks[i]? = some t)
    (hstores : storesBrowser c.shared t = true)
    (hact : (system g cfg).act c (.advance i e) = some c') :
    0 < browsers c'.shared ∧ c'.shared.inner.total = c.shared.inner.total ∧
      outstanding c.tasks = outstanding c'.tasks + 1 ∧
      ∀ point, Past point n c' ↔ Past point n c := by
  rcases (closing_cases h hact).2 with ⟨rfl, hn, -⟩ | ⟨ks, rfl, hn, -⟩ | ⟨ks, rfl, hn, -⟩ |
    ⟨u, p', t', hin, hi, hs, -, rfl⟩
  · obtain rfl := Option.some.inj (hn.symm.trans ht)
    cases hstores
  · obtain rfl := Option.some.inj (hn.symm.trans ht)
    cases hstores
  · obtain rfl := Option.some.inj (hn.symm.trans ht)
    cases hstores
  · obtain rfl := Option.some.inj (hi.symm.trans ht)
    obtain ⟨hinner, hclaims, hside⟩ := storesBrowser_inserts hs hstores
    have hset := outstanding_set hi t'
    exact ⟨hside, by rw [hinner], by simp only; omega, fun point => past_set_ne _ hin _⟩

/-- Whatever puts a connection where the shutdown has been spoils the pool. -/
theorem spoiled_of_violated (h : Closing n c) (hk : ¬KeepsEmpty n c (.advance i e))
    (hact : (system g cfg).act c (.advance i e) = some c') : Spoiled n c' := by
  simp only [KeepsEmpty, not_forall, not_and_or, Bool.not_eq_false, not_lt] at hk
  obtain ⟨t, hi, ⟨past, hstores | ⟨hstores, hfull⟩⟩ | ⟨past, hstores⟩⟩ := hk
  · have hle : innerHeld t ≤ innerOut c.tasks := le_sum_map innerHeld hi
    rw [innerHeld_of_stores hstores] at hle
    exact spoiled_act h (.inner past (by omega)) hact
  · obtain ⟨-, htotal, hout, hpast⟩ := insert_act h hi hstores hact
    exact .total ((hpast _).mpr past) (by omega)
  · obtain ⟨hside, -, -, hpast⟩ := insert_act h hi hstores hact
    exact .side ((hpast _).mpr past) hside

def begun (c : Config Pool Task) : Config Pool Task := ⟨c.shared, c.tasks ++ [.shutdownInner]⟩

theorem closing_begun (hns : ∀ t ∈ c.tasks, isShutdown t = false)
    (hev : ∀ t ∈ c.tasks, evicts t = false) : Closing c.tasks.length (begun c) := by
  refine ⟨⟨.shutdownInner, by simp [begun], rfl⟩, fun j t hne ht => ?_⟩
  rcases getElem?_append_singleton_cases ht with ht | ⟨rfl, -⟩
  · exact ⟨hns t (List.mem_of_getElem? ht), hev t (List.mem_of_getElem? ht)⟩
  · exact absurd rfl hne

theorem emptied_begun (c : Config Pool Task) : Emptied c.tasks.length (begun c) := by
  have hn : (begun c).tasks[c.tasks.length]? = some .shutdownInner := by simp [begun]
  refine ⟨fun hp => ?_, fun hp => ?_⟩
  · rw [past_iff hn] at hp
    cases hp
  · rw [past_iff hn] at hp
    cases hp

structure Empty (p : Pool) : Prop where
  idle : p.inner.idle = []
  leased : p.inner.leased = ∅
  secondaryBrowsers : p.secondaryBrowsers = ∅
  total : p.inner.total = 0

theorem empty_iff (p : Pool) : Empty p ↔ innerStored p = 0 ∧ browsers p = 0 ∧ p.inner.total = 0 := by
  simp only [innerStored, browsers, Nat.add_eq_zero_iff, List.length_eq_zero_iff]
  constructor
  · rintro ⟨hi, hl, hs, ht⟩
    exact ⟨⟨hi, hl ▸ rfl⟩, hs ▸ rfl, ht⟩
  · rintro ⟨⟨hi, hl⟩, hs, ht⟩
    exact ⟨hi, AList.ext hl, AList.ext hs, ht⟩

theorem past_both_of_done (h : Closing n c) (hdone : ∀ t ∈ c.tasks, t.done = true) :
    Past bothEmptied n c := by
  obtain ⟨t, ht, -⟩ := h.closer
  refine ⟨t, ht, ?_⟩
  have hd := hdone t (List.mem_of_getElem? ht)
  cases t <;> first | rfl | cases hd

theorem quiet_of_done (hdone : ∀ t ∈ c.tasks, t.done = true) :
    outstanding c.tasks = 0 ∧ innerOut c.tasks = 0 := by
  refine ⟨outstanding_of_done hdone, sum_map_eq_zero innerHeld fun t ht => ?_⟩
  have hd := hdone t ht
  cases t <;> first | rfl | cases hd

/-- Once the shutdown and all operations in flight when it began have returned, the pool is empty
exactly when none of them put anything where the shutdown had been. -/
theorem shutdown_final_iff (g : PostgresWire.Grammar) (cfg : PgConfig) (now : ℕ)
    (before after : List (Action Task Event)) (c d : Config Pool Task)
    (hns : Action.spawn .shutdownInner ∉ before)
    (hbefore : (system g cfg).run (connect now) before = some c)
    (hev : ∀ t ∈ c.tasks, evicts t = false) (hnew : ∀ t, Action.spawn t ∉ after)
    (hafter : (system g cfg).run (begun c) after = some d) (hdone : ∀ t ∈ d.tasks, t.done = true) :
    Empty d.shared ↔ (system g cfg).Meets (KeepsEmpty c.tasks.length) (begun c) after := by
  have hclosing := closing_begun (run_accounted hns hbefore).1.noShutdown hev
  have hadvance : (system g cfg).Meets (fun _ a => ∃ i e, a = .advance i e) (begun c) after := by
    refine meets_of_forall fun a ha => ?_
    cases a with
    | spawn t => exact absurd ha (hnew t)
    | advance i e => exact ⟨i, e, rfl⟩
  have hkeep (x : Config Pool Task) (a : Action Task Event) (y : Config Pool Task)
      (h : Closing c.tasks.length x) (ha : ∃ i e, a = .advance i e)
      (hact : (system g cfg).act x a = some y) : Closing c.tasks.length y := by
    obtain ⟨i, e, rfl⟩ := ha
    exact (closing_cases h hact).1
  have hd := run_invariant hkeep hclosing hadvance hafter
  have hpast := past_both_of_done hd hdone
  obtain ⟨hout, hinner⟩ := quiet_of_done hdone
  rw [empty_iff]
  constructor
  · rintro ⟨hstored, hside, htotal⟩
    by_contra hm
    have hspoiled : Spoiled c.tasks.length d := by
      refine run_violated hkeep ?_ ?_ hclosing hadvance hafter hm
      · rintro x a y h ⟨i, e, rfl⟩ hk hact
        exact spoiled_of_violated h hk hact
      · rintro x a y h ⟨i, e, rfl⟩ hsp hact
        exact spoiled_act h hsp hact
    cases hspoiled <;> omega
  · intro hm
    have hstep (x : Config Pool Task) (a : Action Task Event) (y : Config Pool Task)
        (h : Closing c.tasks.length x ∧ Emptied c.tasks.length x)
        (ha : KeepsEmpty c.tasks.length x a ∧ ∃ i e, a = .advance i e)
        (hact : (system g cfg).act x a = some y) :
        Closing c.tasks.length y ∧ Emptied c.tasks.length y := by
      obtain ⟨hk, i, e, rfl⟩ := ha
      exact ⟨(closing_cases h.1 hact).1, emptied_act h.1 h.2 hk hact⟩
    have hend := (run_invariant hstep ⟨hclosing, emptied_begun c⟩ (meets_and hm hadvance) hafter).2
    obtain ⟨hstored, htotal⟩ := hend.inner (past_inner_of_both hpast)
    exact ⟨hstored, hend.side hpast, by omega⟩

/-- A browser operation has taken the idle connection and has not leased it yet. -/
def leaseInFlight : List (Action Task Event) := browse :: sections [0, 0]

/-- The shutdown runs, then the operation stores its lease and returns. -/
def shutdownThenAssign : List (Action Task Event) := sections [1, 1, 1, 0, 0]

theorem shutdownThenAssign_runs :
    ∃ c d, (system smallServer defaultPool).run (connect 0) leaseInFlight = some c ∧
      (∀ t ∈ c.tasks, evicts t = false) ∧
      (system smallServer defaultPool).run (begun c) shutdownThenAssign = some d ∧
      (∀ t ∈ d.tasks, t.done = true) ∧ innerStored d.shared = 1 := by
  have hrun : ∃ c, (system smallServer defaultPool).run (connect 0) leaseInFlight = some c ∧
      (∀ t ∈ c.tasks, evicts t = false) ∧
      ((system smallServer defaultPool).run (begun c) shutdownThenAssign).any fun d =>
        (∀ t ∈ d.tasks, t.done = true) ∧ innerStored d.shared = 1 :=
    run_decided (by decide +kernel)
  obtain ⟨c, hc, hev, hafter⟩ := hrun
  obtain ⟨d, hd, hdone, hstored⟩ := run_decided hafter
  exact ⟨c, d, hc, hev, hd, hdone, hstored⟩

theorem shutdown_notMem_leaseInFlight : Action.spawn Task.shutdownInner ∉ leaseInFlight := by
  simp [leaseInFlight, browse, spawn_notMem_sections]

theorem shutdown_final_iff_leaseInFlight :
    ∃ c d, (system smallServer defaultPool).run (connect 0) leaseInFlight = some c ∧
      (system smallServer defaultPool).run (begun c) shutdownThenAssign = some d ∧
      (Empty d.shared ↔ (system smallServer defaultPool).Meets (KeepsEmpty c.tasks.length)
        (begun c) shutdownThenAssign) := by
  obtain ⟨c, d, hc, hev, hd, hdone, -⟩ := shutdownThenAssign_runs
  exact ⟨c, d, hc, hd, shutdown_final_iff smallServer defaultPool 0 leaseInFlight
    shutdownThenAssign c d shutdown_notMem_leaseInFlight hc hev
    (fun _ => spawn_notMem_sections) hd hdone⟩

/-- Every operation has returned, and a connection is still leased. -/
theorem leaseInFlight_outlives_shutdown :
    ∃ c d, (system smallServer defaultPool).run (connect 0) leaseInFlight = some c ∧
      (∀ t ∈ c.tasks, evicts t = false) ∧
      (system smallServer defaultPool).run (begun c) shutdownThenAssign = some d ∧
      (∀ t ∈ d.tasks, t.done = true) ∧ ¬Empty d.shared := by
  obtain ⟨c, d, hc, hev, hd, hdone, hstored⟩ := shutdownThenAssign_runs
  refine ⟨c, d, hc, hev, hd, hdone, fun h => ?_⟩
  have hzero := ((empty_iff _).mp h).1
  omega

end SshCommander.PoolShutdown
