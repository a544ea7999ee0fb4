import Mathlib.Data.List.Basic
import Mathlib.Order.Nat

/-!
# Versions of rows

A place holds one version of a row at a time. Transactions fill unused places and delete versions,
and end in a commit or an abort; what is dead then may be vacuumed, and its place filled again.
-/

namespace SshCommander.RowVersions

variable {P R : Type}

/-- Its number tells a version from every other. -/
structure Version (R : Type) where
  number : ℕ
  row : R
  deriving DecidableEq

/-- What a place holds, and the transaction that is still open, if it came or goes with one. -/
inductive Slot (R : Type) where
  | unused
  | inserted (owner : ℕ) (v : Version R)
  | live (v : Version R)
  | deleted (owner : ℕ) (v : Version R)
  | dead
  deriving DecidableEq

namespace Slot

def version? : Slot R → Option (Version R)
  | .inserted _ v | .live v | .deleted _ v => some v
  | .unused | .dead => none

/-- What a statement of the transaction sees. -/
def visible (tx : ℕ) : Slot R → Option (Version R)
  | .live v => some v
  | .inserted owner v => if owner = tx then some v else none
  | .deleted owner v => if owner = tx then none else some v
  | .unused | .dead => none

/-- What it can still change. -/
def present (tx : ℕ) : Slot R → Option (Version R)
  | .live v => some v
  | .inserted owner v => if owner = tx then some v else none
  | .deleted _ _ | .unused | .dead => none

def remove (tx : ℕ) : Slot R → Option (Slot R)
  | .live v => some (.deleted tx v)
  | .inserted owner _ => if owner = tx then some .dead else none
  | .deleted _ _ | .unused | .dead => none

def commit (tx : ℕ) : Slot R → Slot R
  | .inserted owner v => if owner = tx then .live v else .inserted owner v
  | .deleted owner v => if owner = tx then .dead else .deleted owner v
  | slot => slot

def abort (tx : ℕ) : Slot R → Slot R
  | .inserted owner v => if owner = tx then .dead else .inserted owner v
  | .deleted owner v => if owner = tx then .live v else .deleted owner v
  | slot => slot

def vacuum : Slot R → Slot R
  | .dead => .unused
  | slot => slot

theorem version?_of_visible {tx : ℕ} {slot : Slot R} {v : Version R}
    (h : slot.visible tx = some v) : slot.version? = some v := by
  cases slot with
  | live w => exact h
  | inserted owner w =>
    rw [visible] at h
    split_ifs at h
    exact h
  | deleted owner w =>
    rw [visible] at h
    split_ifs at h
    exact h
  | unused => cases h
  | dead => cases h

/-- What is removed was there; it is no longer, and its place is not free. -/
theorem remove_cases {tx : ℕ} {slot slot' : Slot R} (h : slot.remove tx = some slot') :
    (∃ v, slot.present tx = some v) ∧ slot'.present tx = none ∧ slot' ≠ .unused ∧
      (slot'.version? = slot.version? ∨ slot'.version? = none) := by
  cases slot with
  | live v =>
    obtain rfl := Option.some.inj h
    exact ⟨⟨v, rfl⟩, rfl, by simp, .inl rfl⟩
  | inserted owner v =>
    rw [remove] at h
    split_ifs at h with howner
    obtain rfl := Option.some.inj h
    exact ⟨⟨v, if_pos howner⟩, rfl, by simp, .inr rfl⟩
  | deleted owner v => cases h
  | unused => cases h
  | dead => cases h

theorem version?_commit (tx : ℕ) (slot : Slot R) {w : Version R}
    (h : (slot.commit tx).version? = some w) : slot.version? = some w := by
  cases slot with
  | inserted owner v =>
    rw [commit] at h
    split_ifs at h
    all_goals exact h
  | deleted owner v =>
    rw [commit] at h
    split_ifs at h
    · cases h
    · exact h
  | _ => exact h

theorem version?_abort (tx : ℕ) (slot : Slot R) {w : Version R}
    (h : (slot.abort tx).version? = some w) : slot.version? = some w := by
  cases slot with
  | inserted owner v =>
    rw [abort] at h
    split_ifs at h
    · cases h
    · exact h
  | deleted owner v =>
    rw [abort] at h
    split_ifs at h
    all_goals exact h
  | _ => exact h

theorem version?_vacuum (slot : Slot R) : slot.vacuum.version? = slot.version? := by
  cases slot with
  | dead => rfl
  | _ => rfl

end Slot

/-- `next` is the number of the next version. -/
structure Store (P R : Type) where
  slots : P → Slot R
  next : ℕ

def Store.empty : Store P R := ⟨fun _ => .unused, 0⟩

inductive RowAction (P R : Type) where
  | insert (tx : ℕ) (p : P) (row : R)
  | delete (tx : ℕ) (p : P)
  | update (tx : ℕ) (p p' : P) (row : R)
  | commit (tx : ℕ)
  | abort (tx : ℕ)
  | vacuum (p : P)

def RowAction.fills : RowAction P R → Option P
  | .insert _ p _ | .update _ _ p _ => some p
  | .delete _ _ | .commit _ | .abort _ | .vacuum _ => none

namespace Store

variable {s s' : Store P R}

/-- Every version is an old one or the one version that fills a place that was free. -/
structure Changed (s s' : Store P R) (filled : Option P) : Prop where
  version : ∀ p w, (s'.slots p).version? = some w →
    (s.slots p).version? = some w ∨ (filled = some p ∧ w.number = s.next ∧ s.next < s'.next)
  next : s.next ≤ s'.next
  free : ∀ p, filled = some p → (s.slots p).version? = none

theorem Changed.of_version (hnext : s.next = s'.next)
    (h : ∀ p w, (s'.slots p).version? = some w → (s.slots p).version? = some w) :
    Changed s s' none :=
  ⟨fun p w hw => .inl (h p w hw), hnext.le, fun p hp => by cases hp⟩

structure Numbered (s : Store P R) : Prop where
  below : ∀ p v, (s.slots p).version? = some v → v.number < s.next
  apart : ∀ p q v w, (s.slots p).version? = some v → (s.slots q).version? = some w →
    v.number = w.number → p = q

theorem numbered_empty : Numbered (.empty : Store P R) :=
  ⟨fun _ _ h => (by cases h), fun _ _ _ _ h => by cases h⟩

theorem Numbered.of_changed {filled : Option P} (h : Numbered s) (hs : Changed s s' filled) :
    Numbered s' := by
  constructor
  · intro p v hv
    rcases hs.version p v hv with hold | ⟨-, hnumber, hlt⟩
    · exact (h.below p v hold).trans_le hs.next
    · exact hnumber ▸ hlt
  · intro p q v w hv hw heq
    rcases hs.version p v hv with hvold | ⟨hp, hvnew, -⟩
    · rcases hs.version q w hw with hwold | ⟨-, hwnew, -⟩
      · exact h.apart p q v w hvold hwold heq
      · have := h.below p v hvold
        omega
    · rcases hs.version q w hw with hwold | ⟨hq, -, -⟩
      · have := h.below q w hwold
        omega
      · exact Option.some.inj (hp.symm.trans hq)

variable [DecidableEq P]

def set (s : Store P R) (p : P) (slot : Slot R) : Store P R :=
  { s with slots := Function.update s.slots p slot }

def put (s : Store P R) (tx : ℕ) (p : P) (row : R) : Option (Store P R) :=
  match s.slots p with
  | .unused => some { s.set p (.inserted tx ⟨s.next, row⟩) with next := s.next + 1 }
  | _ => none

def remove (s : Store P R) (tx : ℕ) (p : P) : Option (Store P R) :=
  ((s.slots p).remove tx).map (s.set p)

def replace (s : Store P R) (tx : ℕ) (p p' : P) (row : R) : Option (Store P R) :=
  (s.remove tx p).bind fun s => s.put tx p' row

def act (s : Store P R) : RowAction P R → Option (Store P R)
  | .insert tx p row => s.put tx p row
  | .delete tx p => s.remove tx p
  | .update tx p p' row => s.replace tx p p' row
  | .commit tx => some { s with slots := fun p => (s.slots p).commit tx }
  | .abort tx => some { s with slots := fun p => (s.slots p).abort tx }
  | .vacuum p => some (s.set p (s.slots p).vacuum)

/-- An action that cannot be taken is not. -/
def step (s : Store P R) (a : RowAction P R) : Store P R := (s.act a).getD s

def run (s : Store P R) (acts : List (RowAction P R)) : Store P R := acts.foldl step s

def refilled (s : Store P R) : List (RowAction P R) → P → Bool
  | [], _ => false
  | a :: acts, p => ((s.act a).isSome && a.fills == some p) || (s.step a).refilled acts p

variable {tx : ℕ} {p p' q : P} {row : R}

@[simp] theorem set_slots_self (s : Store P R) (p : P) (slot : Slot R) :
    (s.set p slot).slots p = slot := by
  simp [set]

theorem set_slots_of_ne (h : q ≠ p) (s : Store P R) (slot : Slot R) :
    (s.set p slot).slots q = s.slots q := by
  simp [set, h]

theorem put_cases (h : s.put tx p row = some s') : s.slots p = .unused ∧ s'.next = s.next + 1 ∧
    s'.slots = (s.set p (.inserted tx ⟨s.next, row⟩)).slots := by
  rw [put] at h
  split at h
  · next hunused =>
    obtain rfl := Option.some.inj h
    exact ⟨hunused, rfl, rfl⟩
  · cases h

theorem remove_cases (h : s.remove tx p = some s') :
    ∃ slot, (s.slots p).remove tx = some slot ∧ s' = s.set p slot := by
  obtain ⟨slot, hslot, rfl⟩ := Option.map_eq_some_iff.mp h
  exact ⟨slot, hslot, rfl⟩

theorem changed_put (h : s.put tx p row = some s') : Changed s s' (some p) := by
  obtain ⟨hunused, hnext, hslots⟩ := put_cases h
  have hlt : s.next < s'.next := by omega
  refine ⟨?_, hlt.le, ?_⟩
  · intro q w hw
    rw [hslots] at hw
    by_cases hq : q = p
    · subst hq
      rw [set_slots_self] at hw
      obtain rfl := Option.some.inj hw
      exact .inr ⟨rfl, rfl, hlt⟩
    · rw [set_slots_of_ne hq] at hw
      exact .inl hw
  · intro q hq
    obtain rfl := Option.some.inj hq
    rw [hunused]
    rfl

theorem version?_set {slot : Slot R} {w : Version R}
    (hslot : slot.version? = some w → (s.slots p).version? = some w)
    (h : ((s.set p slot).slots q).version? = some w) : (s.slots q).version? = some w := by
  by_cases hq : q = p
  · subst hq
    rw [set_slots_self] at h
    exact hslot h
  · rwa [set_slots_of_ne hq] at h

theorem changed_remove (h : s.remove tx p = some s') : Changed s s' none := by
  obtain ⟨slot, hslot, rfl⟩ := remove_cases h
  obtain ⟨-, -, -, hversion⟩ := Slot.remove_cases hslot
  refine .of_version rfl fun q w hw => version?_set ?_ hw
  intro hw
  rcases hversion with hsame | hnone
  · exact hsame ▸ hw
  · rw [hnone] at hw
    cases hw

/-- A version is removed first, so the place of the next one is another. -/
theorem replace_cases (h : s.replace tx p p' row = some s') : ∃ removed,
    s.remove tx p = some removed ∧ removed.put tx p' row = some s' ∧ p' ≠ p ∧
      s.slots p' = .unused := by
  obtain ⟨removed, hremoved, hput⟩ := Option.bind_eq_some_iff.mp h
  obtain ⟨slot, hslot, rfl⟩ := remove_cases hremoved
  obtain ⟨-, -, hused, -⟩ := Slot.remove_cases hslot
  obtain ⟨hunused, -⟩ := put_cases hput
  have hne : p' ≠ p := by
    rintro rfl
    rw [set_slots_self] at hunused
    exact hused hunused
  rw [set_slots_of_ne hne] at hunused
  exact ⟨_, hremoved, hput, hne, hunused⟩

theorem changed_replace (h : s.replace tx p p' row = some s') : Changed s s' (some p') := by
  obtain ⟨removed, hremoved, hput, -, hunused⟩ := replace_cases h
  have hfirst := changed_remove hremoved
  have hsecond := changed_put hput
  have hnext : removed.next = s.next := by
    obtain ⟨slot, -, rfl⟩ := remove_cases hremoved
    rfl
  refine ⟨?_, hnext ▸ hsecond.next, ?_⟩
  · intro q w hw
    rcases hsecond.version q w hw with hold | hnew
    · rcases hfirst.version q w hold with hold | ⟨hfilled, -⟩
      · exact .inl hold
      · cases hfilled
    · exact .inr (hnext ▸ hnew)
  · intro q hq
    obtain rfl := Option.some.inj hq
    rw [hunused]
    rfl

theorem changed_act {a : RowAction P R} (h : s.act a = some s') : Changed s s' a.fills := by
  cases a with
  | insert tx p row => exact changed_put h
  | delete tx p => exact changed_remove h
  | update tx p p' row => exact changed_replace h
  | commit tx =>
    obtain rfl := Option.some.inj h
    exact .of_version rfl fun p w hw => Slot.version?_commit tx _ hw
  | abort tx =>
    obtain rfl := Option.some.inj h
    exact .of_version rfl fun p w hw => Slot.version?_abort tx _ hw
  | vacuum p =>
    obtain rfl := Option.some.inj h
    refine .of_version rfl fun q w hw => version?_set ?_ hw
    rw [Slot.version?_vacuum]
    exact id

theorem changed_step (s : Store P R) (a : RowAction P R) :
    Changed s (s.step a) (if (s.act a).isSome then a.fills else none) := by
  rw [step]
  cases h : s.act a with
  | none => exact .of_version rfl fun _ _ hw => hw
  | some s' => exact changed_act h

theorem Numbered.run (h : Numbered s) (acts : List (RowAction P R)) : Numbered (s.run acts) := by
  induction acts generalizing s with
  | nil => exact h
  | cons a acts ih => exact ih (h.of_changed (changed_step s a))

def Reachable (s : Store P R) : Prop := ∃ acts, s = empty.run acts

theorem Reachable.numbered (h : Reachable s) : Numbered s := by
  obtain ⟨acts, rfl⟩ := h
  exact numbered_empty.run acts

/-- After a run a place holds what it held, or a later version if it was filled again. -/
theorem version_run (acts : List (RowAction P R)) {w : Version R}
    (h : ((s.run acts).slots p).version? = some w) :
    ((s.slots p).version? = some w ∧ s.refilled acts p = false) ∨
      (s.next ≤ w.number ∧ s.refilled acts p = true) := by
  induction acts generalizing s with
  | nil => exact .inl ⟨h, rfl⟩
  | cons a acts ih =>
    have hchanged := changed_step s a
    rw [refilled]
    rcases ih h with ⟨hversion, hrest⟩ | ⟨hnumber, hrest⟩
    · rcases hchanged.version p w hversion with hold | ⟨hfilled, hnumber, -⟩
      · have hfree := hchanged.free p
        rw [hold] at hfree
        refine .inl ⟨hold, ?_⟩
        rw [hrest, Bool.or_false]
        by_contra hfills
        rw [Bool.not_eq_false, Bool.and_eq_true, beq_iff_eq] at hfills
        rw [if_pos hfills.1] at hfree
        cases hfree hfills.2
      · split_ifs at hfilled with hact
        refine .inr ⟨hnumber.ge, ?_⟩
        rw [hact, hfilled, beq_self_eq_true]
        rfl
    · exact .inr ⟨hchanged.next.trans hnumber, by rw [hrest, Bool.or_true]⟩

end Store

end SshCommander.RowVersions
