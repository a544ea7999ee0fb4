import Mathlib.Data.List.Nodup
import SshCommander.RowVersions

/-!
# Statements over the versions of rows

A statement of READ COMMITTED sees what its snapshot shows and changes what is still there when it
comes to it; in between it waits for the transactions that have deleted what it saw.
-/

namespace SshCommander.RowStatements
open RowVersions

variable {P R : Type}

structure Found (P R : Type) where
  place : P
  version : Version R

variable (tx : ℕ)

def found (s : Store P R) (places : List P) : List (Found P R) :=
  places.filterMap fun p => ((s.slots p).visible tx).map (Found.mk p)

/-- Still as the snapshot had it. -/
def remains [DecidableEq R] (s : Store P R) (f : Found P R) : Bool :=
  (s.slots f.place).present tx == some f.version

/-- Deleted by a transaction that is still open. -/
def waits [DecidableEq R] (s : Store P R) (f : Found P R) : Bool :=
  (s.slots f.place).version? == some f.version && !remains tx s f

/-- A DELETE, or an UPDATE with what it makes of a row and the place where each new version goes. -/
inductive Change (P R : Type) where
  | delete
  | update (row : R → R) (place : P → P)

section Changing

variable [DecidableEq P]

def Change.apply (change : Change P R) (s : Store P R) (f : Found P R) : Option (Store P R) :=
  match change with
  | .delete => s.remove tx f.place
  | .update row place => s.replace tx f.place (place f.place) (row f.version.row)

def Change.applyAll (change : Change P R) (s : Store P R) : List (Found P R) → Option (Store P R)
  | [] => some s
  | f :: fs => (change.apply tx s f).bind fun s => change.applyAll s fs

/-- The statement, from its snapshot to the store it comes to: what it leaves, and how many rows it
has changed. It fails while it waits, and where there is no room. -/
def Change.run [DecidableEq R] (change : Change P R) (snapshot s : Store P R) (places : List P) :
    Option (Store P R × ℕ) :=
  let seen := found tx snapshot places
  let targets := seen.filter (remains tx s)
  if seen.any (waits tx s) then none
  else (change.applyAll tx s targets).map fun s' => (s', targets.length)

end Changing

/-- The version was there for the transaction, and is no longer. -/
def Taken (s s' : Store P R) (p : P) (v : Version R) : Prop :=
  (s.slots p).present tx = some v ∧ (s'.slots p).present tx ≠ some v

instance [DecidableEq R] (s s' : Store P R) (p : P) (v : Version R) :
    Decidable (Taken tx s s' p v) :=
  inferInstanceAs (Decidable (_ ∧ _))

variable {tx} {s s' : Store P R} {p q : P} {v w : Version R} {f : Found P R} {places : List P}

theorem mem_found : f ∈ found tx s places ↔
    f.place ∈ places ∧ (s.slots f.place).visible tx = some f.version := by
  rw [found, List.mem_filterMap]
  constructor
  · rintro ⟨p, hp, hf⟩
    obtain ⟨v, hv, rfl⟩ := Option.map_eq_some_iff.mp hf
    exact ⟨hp, hv⟩
  · rintro ⟨hp, hv⟩
    refine ⟨f.place, hp, ?_⟩
    rw [hv]
    rfl

theorem nodup_found (h : places.Nodup) : ((found tx s places).map Found.place).Nodup := by
  have hsub : (found tx s places).map Found.place =
      places.filter fun p => ((s.slots p).visible tx).isSome := by
    induction places with
    | nil => rfl
    | cons p places ih =>
      have hrest := ih h.of_cons
      rw [found] at hrest ⊢
      cases hv : (s.slots p).visible tx with
      | none => simp [hv, hrest]
      | some v => simp [hv, hrest]
  rw [hsub]
  exact h.filter _

theorem used_of_present (h : (s.slots p).present tx = some v) : s.slots p ≠ .unused := by
  intro hunused
  rw [hunused] at h
  cases h

section Changing

variable [DecidableEq P] {change : Change P R}

/-- A change takes away what stood at its place, and fills a free place at most. -/
theorem apply_slots (h : change.apply tx s f = some s') :
    (s'.slots f.place).present tx = none ∧ s'.slots f.place ≠ .unused ∧
      ∀ p, p ≠ f.place → s.slots p ≠ .unused → s'.slots p = s.slots p := by
  cases change with
  | delete =>
    obtain ⟨slot, hslot, rfl⟩ := Store.remove_cases h
    obtain ⟨-, hgone, hused, -⟩ := Slot.remove_cases hslot
    rw [Store.set_slots_self]
    exact ⟨hgone, hused, fun p hp _ => Store.set_slots_of_ne hp s slot⟩
  | update row place =>
    obtain ⟨removed, hremoved, hput, hne, -⟩ := Store.replace_cases h
    obtain ⟨slot, hslot, rfl⟩ := Store.remove_cases hremoved
    obtain ⟨-, hgone, hused, -⟩ := Slot.remove_cases hslot
    obtain ⟨hunused, -, hslots⟩ := Store.put_cases hput
    rw [hslots, Store.set_slots_of_ne hne.symm, Store.set_slots_self]
    refine ⟨hgone, hused, ?_⟩
    intro p hp hpused
    have hplace : p ≠ place f.place := by
      rintro rfl
      rw [Store.set_slots_of_ne hne] at hunused
      exact hpused hunused
    rw [Store.set_slots_of_ne hplace, Store.set_slots_of_ne hp]

/-- Elsewhere nothing that is in use changes. -/
theorem applyAll_frame {fs : List (Found P R)} (h : change.applyAll tx s fs = some s')
    (hp : p ∉ fs.map Found.place) (hused : s.slots p ≠ .unused) : s'.slots p = s.slots p := by
  induction fs generalizing s with
  | nil =>
    obtain rfl := Option.some.inj h
    rfl
  | cons f fs ih =>
    obtain ⟨s₁, hfirst, hrest⟩ := Option.bind_eq_some_iff.mp h
    rw [List.map_cons, List.mem_cons, not_or] at hp
    have hsame := (apply_slots hfirst).2.2 p hp.1 hused
    rw [ih hrest hp.2 (hsame ▸ hused), hsame]

/-- What a change of several places takes away is what it was given. -/
theorem taken_applyAll {fs : List (Found P R)} (hnodup : (fs.map Found.place).Nodup)
    (hpresent : ∀ f ∈ fs, (s.slots f.place).present tx = some f.version)
    (h : change.applyAll tx s fs = some s') : Taken tx s s' p v ↔ Found.mk p v ∈ fs := by
  induction fs generalizing s with
  | nil =>
    obtain rfl := Option.some.inj h
    simp [Taken]
  | cons f fs ih =>
    obtain ⟨s₁, hfirst, hrest⟩ := Option.bind_eq_some_iff.mp h
    obtain ⟨hgone, hused, hframe⟩ := apply_slots hfirst
    rw [List.map_cons, List.nodup_cons] at hnodup
    have hf := hpresent f (by simp)
    by_cases hp : p = f.place
    · subst hp
      have hlast := applyAll_frame hrest hnodup.1 hused
      have hnot : Found.mk f.place v ∉ fs := fun hmem =>
        hnodup.1 (List.mem_map.mpr ⟨_, hmem, rfl⟩)
      rw [Taken, hlast, hgone, hf, List.mem_cons]
      constructor
      · rintro ⟨hv, -⟩
        obtain rfl := Option.some.inj hv
        exact .inl rfl
      · rintro (heq | hmem)
        · exact ⟨congrArg some (congrArg Found.version heq).symm, by simp⟩
        · exact absurd hmem hnot
    · have hrestPresent : ∀ g ∈ fs, (s₁.slots g.place).present tx = some g.version := by
        intro g hg
        have hgp := hpresent g (List.mem_cons_of_mem _ hg)
        have hne : g.place ≠ f.place := fun heq =>
          hnodup.1 (heq ▸ List.mem_map_of_mem (f := Found.place) hg)
        rw [hframe g.place hne (used_of_present hgp)]
        exact hgp
      have hih := ih hnodup.2 hrestPresent hrest
      have hne : Found.mk p v ≠ f := by
        rintro rfl
        exact hp rfl
      rw [List.mem_cons, or_iff_right hne, ← hih]
      constructor
      · rintro ⟨hv, hnot⟩
        rw [← hframe p hp (used_of_present hv)] at hv
        exact ⟨hv, hnot⟩
      · intro htaken
        have hmem := hpresent _ (List.mem_cons_of_mem _ (hih.mp htaken))
        exact ⟨hmem, htaken.2⟩

variable [DecidableEq R] {snapshot : Store P R} {n : ℕ}

/-- The versions that a statement takes away are those that its snapshot has shown and that have
remained; it reports how many they are. -/
theorem run_targets (hnodup : places.Nodup) (h : change.run tx snapshot s places = some (s', n)) :
    ∃ targets : List (Found P R), targets.length = n ∧ (targets.map Found.place).Nodup ∧
      (∀ f, f ∈ targets ↔ f.place ∈ places ∧
        (snapshot.slots f.place).visible tx = some f.version ∧
          (s.slots f.place).present tx = some f.version) ∧
      ∀ p v, Taken tx s s' p v ↔ Found.mk p v ∈ targets := by
  have hmem : ∀ f, f ∈ (found tx snapshot places).filter (remains tx s) ↔ f.place ∈ places ∧
      (snapshot.slots f.place).visible tx = some f.version ∧
        (s.slots f.place).present tx = some f.version := by
    intro f
    rw [List.mem_filter, mem_found, remains, beq_iff_eq, and_assoc]
  rw [Change.run] at h
  split_ifs at h
  obtain ⟨s₁, happly, heq⟩ := Option.map_eq_some_iff.mp h
  obtain ⟨rfl, rfl⟩ := Prod.mk.inj heq
  have hplaces : (((found tx snapshot places).filter (remains tx s)).map Found.place).Nodup :=
    (nodup_found hnodup).sublist (List.filter_sublist.map _)
  refine ⟨_, rfl, hplaces, hmem, ?_⟩
  intro p v
  exact taken_applyAll hplaces (fun f hf => ((hmem f).mp hf).2.2) happly

end Changing

end SshCommander.RowStatements
