import Mathlib.Data.List.AList
import SshCommander.InterleavedTasks
import SshCommander.RustText

/-!
# The registry of PTY sessions

The session map and the generation counters sit under two locks, and each call takes them one
after the other. So a call is a list of sections, and other calls may run between two of them.
-/

namespace SshCommander.PtyRegistry
open InterleavedTasks RustText

/-- A session is the number it was created under. -/
abbrev PtySession := ℕ

/-- A session that `insert` stored, with the generation it returned. -/
structure Inserted where
  connectionId : Text
  session : PtySession
  generation : ℕ
  deriving DecidableEq, Repr

structure Registry where
  sessions : AList fun _ : Text => PtySession
  generations : AList fun _ : Text => ℕ
  /-- How many sessions were created. -/
  created : ℕ
  /-- The sessions whose cancel token is cancelled. -/
  cancelled : List PtySession
  /-- Every session ever stored, the last one first. -/
  inserted : List Inserted

namespace Registry

def new : Registry := ⟨∅, ∅, 0, [], []⟩

def create (r : Registry) : Registry × PtySession :=
  ({ r with created := r.created + 1 }, r.created)

def currentGen (r : Registry) (id : Text) : ℕ := (r.generations.lookup id).getD 0

/-- The first half of `insert`. The counter is a `u64`, which wraps. -/
def bump (r : Registry) (id : Text) : Registry × ℕ :=
  let g := (r.currentGen id + 1) % 2 ^ 64
  ({ r with generations := r.generations.insert id g }, g)

/-- The second half of `insert`: a session that was there is dropped. -/
def store (r : Registry) (id : Text) (s : PtySession) (g : ℕ) : Registry :=
  { r with sessions := r.sessions.insert id s, inserted := ⟨id, s, g⟩ :: r.inserted }

def take (r : Registry) (id : Text) : Registry :=
  match r.sessions.lookup id with
  | none => r
  | some s => { r with sessions := r.sessions.erase id, cancelled := s :: r.cancelled }

/-- The second half of `purge`. -/
def forget (r : Registry) (id : Text) : Registry :=
  { r with generations := r.generations.erase id }

def cancelExisting (r : Registry) (id : Text) : Registry := r.take id

def insert (r : Registry) (id : Text) (s : PtySession) : Registry × ℕ :=
  ((r.bump id).1.store id s (r.bump id).2, (r.bump id).2)

def remove (r : Registry) (id : Text) : Option ℕ → Registry
  | none => r.take id
  | some g => if r.currentGen id = g then r.take id else r

def purge (r : Registry) (id : Text) : Registry := (r.take id).forget id

variable (r : Registry) (id id' : Text) (s : PtySession) (g : ℕ)

@[simp] theorem store_inserted : (r.store id s g).inserted = ⟨id, s, g⟩ :: r.inserted := rfl

@[simp] theorem take_generations : (r.take id).generations = r.generations := by
  unfold take
  split <;> rfl

@[simp] theorem take_inserted : (r.take id).inserted = r.inserted := by
  unfold take
  split <;> rfl

@[simp] theorem take_created : (r.take id).created = r.created := by
  unfold take
  split <;> rfl

variable {r id id' s g}

theorem take_none (h : r.sessions.lookup id = none) : r.take id = r := by simp [take, h]

theorem take_some (h : r.sessions.lookup id = some s) :
    r.take id = { r with sessions := r.sessions.erase id, cancelled := s :: r.cancelled } := by
  simp [take, h]

theorem lookup_store_self : (r.store id s g).sessions.lookup id = some s :=
  AList.lookup_insert _

theorem lookup_store_ne (h : id' ≠ id) :
    (r.store id s g).sessions.lookup id' = r.sessions.lookup id' := AList.lookup_insert_ne h

theorem lookup_take_self : (r.take id).sessions.lookup id = none := by
  cases h : r.sessions.lookup id with
  | none => rw [take_none h, h]
  | some s =>
    rw [take_some h]
    exact AList.lookup_erase _ _

theorem lookup_take_ne (h : id' ≠ id) : (r.take id).sessions.lookup id' = r.sessions.lookup id' := by
  cases hl : r.sessions.lookup id with
  | none => rw [take_none hl]
  | some s =>
    rw [take_some hl]
    exact AList.lookup_erase_ne h

/-- A session that is there after `take` was there before. -/
theorem lookup_of_take (h : (r.take id).sessions.lookup id' = some s) :
    r.sessions.lookup id' = some s := by
  by_cases hid : id' = id
  · subst hid
    cases h.symm.trans lookup_take_self
  · exact (lookup_take_ne hid).symm.trans h

theorem mem_cancelled_take :
    s ∈ (r.take id).cancelled ↔ s ∈ r.cancelled ∨ r.sessions.lookup id = some s := by
  cases h : r.sessions.lookup id with
  | none => simp [take_none h]
  | some s' => simp [take_some h, or_comm, eq_comm]

theorem currentGen_congr {r' : Registry} (h : r'.generations = r.generations) :
    r'.currentGen id = r.currentGen id := by simp only [currentGen, h]

theorem currentGen_bump_self : (r.bump id).1.currentGen id = (r.currentGen id + 1) % 2 ^ 64 := by
  simp [currentGen, bump]

theorem currentGen_bump_ne (h : id' ≠ id) : (r.bump id).1.currentGen id' = r.currentGen id' := by
  simp [currentGen, bump, AList.lookup_insert_ne h]

theorem currentGen_forget_ne (h : id' ≠ id) : (r.forget id).currentGen id' = r.currentGen id' := by
  simp [currentGen, forget, AList.lookup_erase_ne h]

def lastInserted (r : Registry) (id : Text) : Option Inserted :=
  r.inserted.find? (·.connectionId = id)

/-- What is registered under an id was stored there last. -/
def Recorded (r : Registry) : Prop := ∀ id s, r.sessions.lookup id = some s →
  ∃ g, r.lastInserted id = some ⟨id, s, g⟩

theorem lastInserted_congr {r' : Registry} (h : r'.inserted = r.inserted) (id : Text) :
    r'.lastInserted id = r.lastInserted id := by simp only [lastInserted, h]

theorem mem_of_lastInserted {x : Inserted} (h : r.lastInserted id = some x) :
    x ∈ r.inserted ∧ x.connectionId = id :=
  ⟨List.mem_of_find?_eq_some h, by simpa using List.find?_some h⟩

theorem recorded_new : Recorded .new := fun _ _ h => by simp [new] at h

theorem Recorded.congr {r' : Registry} (h : Recorded r) (hs : r'.sessions = r.sessions)
    (hi : r'.inserted = r.inserted) : Recorded r' := by
  intro id s hl
  rw [hs] at hl
  rw [lastInserted_congr hi]
  exact h id s hl

theorem Recorded.store (h : Recorded r) (id : Text) (s : PtySession) (g : ℕ) :
    Recorded (r.store id s g) := by
  intro id' s' hl
  by_cases hid : id' = id
  · subst hid
    obtain rfl := Option.some.inj (lookup_store_self.symm.trans hl)
    exact ⟨g, by simp [lastInserted]⟩
  · rw [lookup_store_ne hid] at hl
    obtain ⟨g', hg⟩ := h id' s' hl
    refine ⟨g', ?_⟩
    simpa [lastInserted, Ne.symm hid] using hg

theorem Recorded.take (h : Recorded r) (id : Text) : Recorded (r.take id) := by
  intro id' s' hl
  rw [lastInserted_congr (take_inserted r id)]
  exact h id' s' (lookup_of_take hl)

/-- What holds while `pending` are the sessions that were created and not stored. -/
structure Sound (r : Registry) (pending : List PtySession) : Prop where
  recorded : Recorded r
  numbered : Numbered r.created (r.inserted.map (·.session) ++ pending)
  live : ∀ id s, r.sessions.lookup id = some s → s ∉ r.cancelled
  known : ∀ s ∈ r.cancelled, s ∈ r.inserted.map (·.session)

variable {pending pending' : List PtySession}

theorem sound_new : Sound .new [] :=
  ⟨recorded_new, .nil, fun _ _ _ => by simp [new], by simp [new]⟩

theorem Sound.unique (h : Sound r pending) {x y : Inserted} (hx : x ∈ r.inserted)
    (hy : y ∈ r.inserted) (hs : x.session = y.session) : x = y :=
  List.inj_on_of_nodup_map (List.nodup_append.mp h.numbered.nodup).1 hx hy hs

/-- What is registered is on record under its own id. -/
theorem Sound.registered (h : Sound r pending) (hl : r.sessions.lookup id = some s) :
    ∃ g, ⟨id, s, g⟩ ∈ r.inserted := by
  obtain ⟨g, hg⟩ := h.recorded id s hl
  exact ⟨g, (mem_of_lastInserted hg).1⟩

theorem Sound.congr {r' : Registry} (h : Sound r pending) (hs : r'.sessions = r.sessions)
    (hc : r'.cancelled = r.cancelled) (hi : r'.inserted = r.inserted)
    (hn : Numbered r'.created (r'.inserted.map (·.session) ++ pending')) : Sound r' pending' :=
  ⟨h.recorded.congr hs hi, hn, fun id s hl => hc ▸ h.live id s (hs ▸ hl),
    fun s hs => hi ▸ h.known s (hc ▸ hs)⟩

theorem Sound.take (h : Sound r pending) (id : Text) : Sound (r.take id) pending := by
  refine ⟨h.recorded.take id, by simpa using h.numbered, fun id' s' hl hc => ?_, fun s hs => ?_⟩
  · have hbefore := lookup_of_take hl
    rcases mem_cancelled_take.mp hc with hc | hid
    · exact h.live id' s' hbefore hc
    · obtain ⟨g, hg⟩ := h.registered hbefore
      obtain ⟨g', hg'⟩ := h.registered hid
      obtain rfl : id' = id := congrArg Inserted.connectionId (h.unique hg hg' rfl)
      cases hl.symm.trans lookup_take_self
  · rw [take_inserted]
    rcases mem_cancelled_take.mp hs with hc | hid
    · exact h.known s hc
    · obtain ⟨g, hg⟩ := h.registered hid
      exact List.mem_map_of_mem hg

theorem Sound.store (h : Sound r pending) {id : Text} {s : PtySession} {g : ℕ}
    (hn : Numbered r.created (s :: r.inserted.map (·.session) ++ pending')) :
    Sound (r.store id s g) pending' := by
  have hnew : s ∉ r.inserted.map (·.session) :=
    (List.nodup_cons.mp (List.nodup_append.mp hn.nodup).1).1
  refine ⟨h.recorded.store id s g, hn, fun id' s' hl hc => ?_, fun s' hs => ?_⟩
  · by_cases hid : id' = id
    · subst hid
      obtain rfl := Option.some.inj (lookup_store_self.symm.trans hl)
      exact hnew (h.known s hc)
    · exact h.live id' s' ((lookup_store_ne hid).symm.trans hl) hc
  · exact List.mem_cons_of_mem _ (h.known s' hs)

end Registry

/-- Where a call stands. The session that `insert` gets is created by its first section. -/
inductive Task where
  | cancelExisting (id : Text)
  | insert (id : Text)
  | inserting (id : Text) (s : PtySession) (g : ℕ)
  | inserted (g : ℕ)
  | remove (id : Text) (expectedGen : Option ℕ)
  | removing (id : Text) (g : ℕ)
  | returned
  deriving DecidableEq, Repr

def starts : Task → Bool
  | .cancelExisting _ | .insert _ | .remove .. => true
  | _ => false

/-- One section of one call. `removing` has read the counter and found `g` there. -/
def step (r : Registry) (t : Task) (_ : Unit) : Option (Registry × Task) :=
  match t with
  | .cancelExisting id => some (r.cancelExisting id, .returned)
  | .insert id =>
    let (r', s) := r.create
    some ((r'.bump id).1, .inserting id s (r'.bump id).2)
  | .inserting id s g => some (r.store id s g, .inserted g)
  | .remove id none => some (r.take id, .returned)
  | .remove id (some g) => some (r, if r.currentGen id = g then .removing id g else .returned)
  | .removing id _ => some (r.take id, .returned)
  | .inserted _ | .returned => none

def calls : TaskSystem Registry Task Unit := ⟨starts, step⟩

end SshCommander.PtyRegistry
