import Mathlib.Data.List.Infix

/-!
# Copying a stream to its end

A copy reads into a bounded buffer and writes from it until the source is at its end and the buffer
empty; then it flushes the writer and shuts it down. Reads and writes may be short, and any of them
may fail.
-/

namespace StreamCopies
variable {α ε : Type} {cap : ℕ}

/-- What an operation on the reader or the writer comes to. A read of nothing is the end. -/
inductive Io (α ε : Type) where
  | read (r : Except ε (List α))
  | wrote (r : Except ε ℕ)
  | flushed (r : Except ε Unit)
  | shut

/-- Something that copies from a reader to a writer, with what it has read and written so far. -/
structure Copier (α ε : Type) where
  State : Type
  start : State
  step : State → Io α ε → Option State
  read : State → List α
  written : State → List α
  eof : State → Bool
  outcome : State → Option (Except ε Unit)

namespace Copier

/-- Nothing that was read or written is taken back. -/
structure Grows (C : Copier α ε) (c c' : C.State) : Prop where
  read : C.read c <+: C.read c'
  written : C.written c <+: C.written c'

theorem Grows.refl {C : Copier α ε} (c : C.State) : C.Grows c c :=
  ⟨List.prefix_rfl, List.prefix_rfl⟩

theorem Grows.trans {C : Copier α ε} {c c' c'' : C.State} (h : C.Grows c c')
    (h' : C.Grows c' c'') : C.Grows c c'' :=
  ⟨h.read.trans h'.read, h.written.trans h'.written⟩

/-- The copier writes what it reads, in order, and has written all of it when it says so. -/
structure Laws (C : Copier α ε) : Prop where
  start_running : C.outcome C.start = none
  written_prefix : ∀ c, C.written c <+: C.read c
  ended_ok : ∀ c, C.outcome c = some (.ok ()) → C.eof c = true ∧ C.written c = C.read c
  step_grows : ∀ {c io c'}, C.step c io = some c' → C.Grows c c'

end Copier

inductive Stage (ε : Type) where
  | copying
  | flushing
  | closing (r : Except ε Unit)
  | ended (r : Except ε Unit)

def Stage.complete : Stage ε → Bool
  | .flushing | .closing (.ok ()) | .ended (.ok ()) => true
  | .copying | .closing (.error _) | .ended (.error _) => false

structure Copy (α ε : Type) (cap : ℕ) where
  read : List α
  written : List α
  buffer : List α
  eof : Bool
  stage : Stage ε
  whole : written ++ buffer = read
  bounded : buffer.length ≤ cap
  all_copied : stage.complete = true → eof = true ∧ buffer = []

namespace Copy

def start : Copy α ε cap :=
  ⟨[], [], [], false, .copying, List.nil_append [], Nat.zero_le cap, nofun⟩

/-- The copy stops where it is, with an error, and the writer is still to be shut down. -/
def fail (c : Copy α ε cap) (e : ε) : Copy α ε cap :=
  ⟨c.read, c.written, c.buffer, c.eof, .closing (.error e), c.whole, c.bounded, nofun⟩

def fill (c : Copy α ε cap) (data : List α) (h : c.buffer.length + data.length ≤ cap) :
    Copy α ε cap :=
  ⟨c.read ++ data, c.written, c.buffer ++ data, c.eof, .copying,
    by rw [← List.append_assoc, c.whole], by rwa [List.length_append], nofun⟩

def reachEnd (c : Copy α ε cap) : Copy α ε cap :=
  if h : c.buffer = [] then
    ⟨c.read, c.written, c.buffer, true, .flushing, c.whole, c.bounded, fun _ => ⟨rfl, h⟩⟩
  else ⟨c.read, c.written, c.buffer, true, .copying, c.whole, c.bounded, nofun⟩

def drain (c : Copy α ε cap) (n : ℕ) : Copy α ε cap :=
  have hwhole : c.written ++ c.buffer.take n ++ c.buffer.drop n = c.read := by
    rw [List.append_assoc, List.take_append_drop, c.whole]
  have hbounded : (c.buffer.drop n).length ≤ cap := by
    rw [List.length_drop]
    exact (Nat.sub_le _ _).trans c.bounded
  if h : c.eof = true ∧ c.buffer.drop n = [] then
    ⟨c.read, c.written ++ c.buffer.take n, c.buffer.drop n, c.eof, .flushing, hwhole, hbounded,
      fun _ => h⟩
  else
    ⟨c.read, c.written ++ c.buffer.take n, c.buffer.drop n, c.eof, .copying, hwhole, hbounded, nofun⟩

def finish (c : Copy α ε cap) (stage : Stage ε) (h : stage.complete = true → c.stage.complete = true) :
    Copy α ε cap :=
  ⟨c.read, c.written, c.buffer, c.eof, stage, c.whole, c.bounded, fun hs => c.all_copied (h hs)⟩

def step (c : Copy α ε cap) (io : Io α ε) : Option (Copy α ε cap) :=
  match hs : c.stage, io with
  | .copying, .read r =>
    if c.eof = false ∧ c.buffer.length < cap then
      match r with
      | .error e => some (c.fail e)
      | .ok [] => some c.reachEnd
      | .ok data => if h : c.buffer.length + data.length ≤ cap then some (c.fill data h) else none
    else none
  | .copying, .wrote r =>
    match r with
    | .error e => if c.buffer = [] then none else some (c.fail e)
    | .ok n => if 0 < n ∧ n ≤ c.buffer.length then some (c.drain n) else none
  | .flushing, .flushed (.ok ()) => some (c.finish (.closing (.ok ())) fun _ => by rw [hs]; rfl)
  | .flushing, .flushed (.error e) => some (c.fail e)
  | .closing r, .shut =>
    some (c.finish (.ended r) fun h => by rw [hs]; cases r <;> first | rfl | cases h)
  | _, _ => none

def copier (α ε : Type) (cap : ℕ) : Copier α ε where
  State := Copy α ε cap
  start := .start
  step := step
  read := Copy.read
  written := Copy.written
  eof := Copy.eof
  outcome c :=
    match c.stage with
    | .ended r => some r
    | .copying | .flushing | .closing _ => none

variable {c c' : Copy α ε cap} {io : Io α ε}

/-- What was written is the beginning of what was read. -/
theorem written_prefix (c : Copy α ε cap) : c.written <+: c.read := ⟨c.buffer, c.whole⟩

/-- A copy that has succeeded has written all that its source gave, to its end. -/
theorem ended_ok (h : c.stage = .ended (.ok ())) : c.eof = true ∧ c.written = c.read := by
  obtain ⟨heof, hbuffer⟩ := c.all_copied (by rw [h]; rfl)
  refine ⟨heof, ?_⟩
  rw [← c.whole, hbuffer, List.append_nil]

theorem grows_of_eq (hr : c'.read = c.read) (hw : c'.written = c.written) :
    (copier α ε cap).Grows c c' := by
  constructor
  · show c.read <+: c'.read
    rw [hr]
  · show c.written <+: c'.written
    rw [hw]

theorem grows_reachEnd (c : Copy α ε cap) : (copier α ε cap).Grows c c.reachEnd := by
  unfold reachEnd
  split
  · exact grows_of_eq rfl rfl
  · exact grows_of_eq rfl rfl

theorem grows_drain (c : Copy α ε cap) (n : ℕ) : (copier α ε cap).Grows c (c.drain n) := by
  unfold drain
  split
  · exact ⟨List.prefix_rfl, List.prefix_append _ _⟩
  · exact ⟨List.prefix_rfl, List.prefix_append _ _⟩

theorem step_grows (h : c.step io = some c') : (copier α ε cap).Grows c c' := by
  unfold step at h
  split at h
  · split at h
    · split at h
      · exact Option.some.inj h ▸ grows_of_eq rfl rfl
      · exact Option.some.inj h ▸ grows_reachEnd c
      · split at h
        · exact Option.some.inj h ▸ ⟨List.prefix_append _ _, List.prefix_rfl⟩
        · cases h
    · cases h
  · split at h
    · split at h
      · cases h
      · exact Option.some.inj h ▸ grows_of_eq rfl rfl
    · split at h
      · exact Option.some.inj h ▸ grows_drain c _
      · cases h
  · exact Option.some.inj h ▸ grows_of_eq rfl rfl
  · exact Option.some.inj h ▸ grows_of_eq rfl rfl
  · exact Option.some.inj h ▸ grows_of_eq rfl rfl
  · cases h

theorem copier_laws (α ε : Type) (cap : ℕ) : (copier α ε cap).Laws where
  start_running := rfl
  written_prefix := written_prefix
  ended_ok c h := by
    apply ended_ok
    simp only [copier] at h
    split at h
    · rename_i hended
      rw [hended, Option.some.inj h]
    · cases h
    · cases h
    · cases h
  step_grows h := step_grows h

end Copy

end StreamCopies
