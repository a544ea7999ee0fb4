import Mathlib.Data.List.AList
import SshCommander.InterleavedTasks
import SshCommander.IssuedIds
import SshCommander.ParquetBatches

/-!
# Exports that run beside each other

One registry for the process holds the open exporters under the identifiers that it has given out.
Opens, appends and closes come from any number of callers, and an append may panic with the lock
held. Nothing keeps two exporters from one file.
-/

namespace SshCommander.ParquetExports
open InterleavedTasks InterleavedTasks.TaskSystem IssuedIds ParquetBatches RustText

/-- A lock with what it guards. A panic while it is held poisons it. -/
structure Mutex (T : Type) where
  value : T
  poisoned : Bool

def Mutex.lock {T : Type} (m : Mutex T) : Except T T :=
  if m.poisoned then .error m.value else .ok m.value

/-- `lock_recovering`: the guarded value, from the error where the lock is poisoned. -/
def lockRecovering {T : Type} (m : Mutex T) : T :=
  match m.lock with
  | .ok v => v
  | .error inner => inner

@[simp] theorem lockRecovering_eq {T : Type} (m : Mutex T) : lockRecovering m = m.value := by
  unfold lockRecovering Mutex.lock
  cases m.poisoned <;> rfl

structure ParquetRegistry (P : Arrow) where
  nextId : Mutex UInt64
  exporters : Mutex (AList fun _ : UInt64 => ParquetExporter P)

def global (P : Arrow) : ParquetRegistry P := ⟨⟨1, false⟩, ⟨∅, false⟩⟩

structure Process (P : Arrow) extends ParquetRegistry P where
  disk : Disk P

def Process.start (P : Arrow) (disk : Disk P) : Process P := ⟨global P, disk⟩

/-- Where a call stands. The answer of an append is `none` where it has panicked. A `close` that
returns has left `file` on the disk. -/
inductive Task (P : Arrow) where
  | opening (path : Text) (columns : List Text)
  | numbering (path : Text) (columns : List Text) (x : ParquetExporter P)
  | inserting (path : Text) (columns : List Text) (id : UInt64) (x : ParquetExporter P)
  | opened (path : Text) (columns : List Text) (id : UInt64)
  | append (id : UInt64) (rows : List Row)
  | appended (id : UInt64) (rows : List Row) (answer : Option (Except ParquetExportError Unit))
  | close (id : UInt64)
  | closing (id : UInt64) (x : ParquetExporter P)
  | closed (id : UInt64) (answer : Except ParquetExportError Unit) (file : List P.Byte)
  | failed (e : ParquetExportError)

/-- An append that found its writer: the writer, the page, and the answer. -/
structure Append where
  id : UInt64
  rows : List Row
  answer : Option (Except ParquetExportError Unit)

variable {P : Arrow}

namespace ParquetRegistry

def lookup (r : ParquetRegistry P) (id : UInt64) : Option (ParquetExporter P) :=
  (lockRecovering r.exporters).lookup id

def insert (r : ParquetRegistry P) (id : UInt64) (x : ParquetExporter P) : ParquetRegistry P :=
  { r with exporters := { r.exporters with value := (lockRecovering r.exporters).insert id x } }

def remove (r : ParquetRegistry P) (id : UInt64) : ParquetRegistry P :=
  { r with exporters := { r.exporters with value := (lockRecovering r.exporters).erase id } }

def update (r : ParquetRegistry P) (id : UInt64)
    (o : Outcome ParquetExportError (ParquetExporter P)) : ParquetRegistry P :=
  { r with exporters := {
      value := (lockRecovering r.exporters).insert id o.left
      poisoned := r.exporters.poisoned || o.answer.isNone } }

end ParquetRegistry

def starts : Task P → Bool
  | .opening .. | .append .. | .close _ => true
  | _ => false

def step (r : Process P) (t : Task P) (io : P.Io) : Option (Process P × Task P) :=
  match t with
  | .opening path columns =>
    let disk := createdDisk P io path columns r.disk
    match create P io path columns with
    | .error e => some ({ r with disk }, .failed e)
    | .ok x => some ({ r with disk }, .numbering path columns x)
  | .numbering path columns x =>
    let id := lockRecovering r.nextId
    some ({ r with nextId := { r.nextId with value := id + 1 } }, .inserting path columns id x)
  | .inserting path columns id x => some (⟨r.insert id x, r.disk⟩, .opened path columns id)
  | .append id rows =>
    match r.lookup id with
    | none => some (r, .failed .unknownWriter)
    | some x =>
      let o := appendRows io x rows
      some (⟨r.update id o, x.put (o.left.sent.drop x.sent.length) r.disk⟩,
        .appended id rows o.answer)
  | .close id =>
    match r.lookup id with
    | none => some (r, .failed .unknownWriter)
    | some x => some (⟨r.remove id, r.disk⟩, .closing id x)
  | .closing id x =>
    let disk := x.put (x.close io).2 r.disk
    some ({ r with disk }, .closed id (x.close io).1 (disk x.node))
  | .opened .. | .appended .. | .closed .. | .failed _ => none

def exports (P : Arrow) : TaskSystem (Process P) (Task P) P.Io := ⟨starts, step⟩

def gain (r : Process P) (t : Task P) (io : P.Io) : List Append :=
  match t with
  | .append id rows =>
    match r.lookup id with
    | none => []
    | some x => [⟨id, rows, (appendRows io x rows).answer⟩]
  | _ => []

def note (c : Config (Process P) (Task P)) :
    Action (Task P) P.Io → List Append → List Append
  | .spawn _, log => log
  | .advance i io, log =>
    match c.tasks[i]? with
    | none => log
    | some t => log ++ gain c.shared t io

/-- The appends of a run that found their writer, in the order in which they had the lock. -/
def history (P : Arrow) (disk : Disk P) (as : List (Action (Task P) P.Io)) : List Append :=
  (exports P).noted note ⟨.start P disk, []⟩ [] as

def ofWriter (id : UInt64) (log : List Append) : List Append := log.filter (·.id == id)

/-- The exporter that appends made one after the other, with these answers, leave behind. -/
inductive Wrote (x₀ : ParquetExporter P) : List Append → ParquetExporter P → Prop where
  | nil : Wrote x₀ [] x₀
  | snoc {log : List Append} {x : ParquetExporter P} (h : Wrote x₀ log x) (io : P.Io) (id : UInt64)
      (rows : List Row) :
      Wrote x₀ (log ++ [⟨id, rows, (appendRows io x rows).answer⟩]) (appendRows io x rows).left

def Exported (P : Arrow) (path : Text) (columns : List Text) (log : List Append)
    (x : ParquetExporter P) : Prop :=
  ∃ io x₀, create P io path columns = .ok x₀ ∧ Wrote x₀ log x

theorem Wrote.content {x₀ x : ParquetExporter P} {log : List Append} (r : Reader P)
    (h : Wrote x₀ log x) (hok : ∀ a ∈ log, a.answer = some (.ok ())) :
    x.schema = x₀.schema ∧ r.content x.writer = { r.content x₀.writer with
      rows := (r.content x₀.writer).rows ++
        log.flatMap fun a => a.rows.map (fitted x₀.schema.length) } ∧
      (r.Tells x₀ → r.Tells x) := by
  induction h with
  | nil => simp
  | @snoc log x h io id rows ih =>
    obtain ⟨hschema, hcontent, htells⟩ := ih fun a ha => hok a (List.mem_append_left _ ha)
    have hanswer : (appendRows io x rows).answer = some (.ok ()) :=
      hok ⟨id, rows, _⟩ (List.mem_append_right _ (List.mem_singleton_self _))
    obtain ⟨hschema', hcontent', htells'⟩ := appendRows_ok r (Outcome.eq_ok hanswer)
    refine ⟨hschema'.trans hschema, ?_, fun h₀ => htells' (htells h₀)⟩
    rw [hcontent', hcontent, hschema]
    simp only [List.flatMap_append, List.flatMap_cons, List.flatMap_nil, List.append_nil,
      List.append_assoc]

inductive Transition (r : Process P) : Task P → List Append → Process P → Task P → Prop where
  | refused {path columns e} (io : P.Io) : Transition r (.opening path columns) []
      { r with disk := createdDisk P io path columns r.disk } (.failed e)
  | created {path columns io x} (h : create P io path columns = .ok x) :
      Transition r (.opening path columns) []
        { r with disk := createdDisk P io path columns r.disk } (.numbering path columns x)
  | numbered {path columns x} : Transition r (.numbering path columns x) []
      { r with nextId := { r.nextId with value := r.nextId.value + 1 } }
      (.inserting path columns r.nextId.value x)
  | inserted {path columns id x} : Transition r (.inserting path columns id x) []
      ⟨r.insert id x, r.disk⟩ (.opened path columns id)
  | appendUnknown {id rows e} (h : r.lookup id = none) :
      Transition r (.append id rows) [] r (.failed e)
  | appended {id rows x} (io : P.Io) (h : r.lookup id = some x) :
      Transition r (.append id rows) [⟨id, rows, (appendRows io x rows).answer⟩]
        ⟨r.update id (appendRows io x rows),
          x.put ((appendRows io x rows).left.sent.drop x.sent.length) r.disk⟩
        (.appended id rows (appendRows io x rows).answer)
  | closeUnknown {id e} (h : r.lookup id = none) : Transition r (.close id) [] r (.failed e)
  | removed {id x} (h : r.lookup id = some x) :
      Transition r (.close id) [] ⟨r.remove id, r.disk⟩ (.closing id x)
  | closed {id x} (io : P.Io) : Transition r (.closing id x) []
      { r with disk := x.put (x.close io).2 r.disk }
      (.closed id (x.close io).1 (x.put (x.close io).2 r.disk x.node))

inductive Took : Task P → UInt64 → ParquetExporter P → Prop where
  | closing {id x} : Took (.closing id x) id x
  | closed {id x file} (io : P.Io) : Took (.closed id (x.close io).1 file) id x

variable {r r' : Process P} {t t' : Task P} {io : P.Io} {g log log' : List Append}
  {c c' d : Config (Process P) (Task P)} {a : Action (Task P) P.Io}
  {as : List (Action (Task P) P.Io)} {id id' : UInt64} {x : ParquetExporter P}
  {path : Text} {columns : List Text}

theorem step_transition (h : step r t io = some (r', t')) :
    Transition r t (gain r t io) r' t' := by
  cases t with
  | opening path columns =>
    unfold step at h
    cases hx : create P io path columns with
    | error e =>
      simp only [hx] at h
      cases h
      exact .refused io
    | ok x =>
      simp only [hx] at h
      cases h
      exact .created hx
  | numbering path columns x =>
    simp only [step, lockRecovering_eq] at h
    cases h
    exact .numbered
  | inserting path columns id x =>
    cases h
    exact .inserted
  | append id rows =>
    simp only [gain]
    unfold step at h
    cases hl : r.lookup id with
    | none =>
      simp only [hl] at h
      cases h
      exact .appendUnknown hl
    | some x =>
      simp only [hl] at h
      cases h
      exact .appended io hl
  | close id =>
    unfold step at h
    cases hl : r.lookup id with
    | none =>
      simp only [hl] at h
      cases h
      exact .closeUnknown hl
    | some x =>
      simp only [hl] at h
      cases h
      exact .removed hl
  | closing id x =>
    cases h
    exact .closed io
  | opened | appended | closed | failed => cases h

def ident : Task P → Option UInt64
  | .inserting _ _ id _ | .opened _ _ id => some id
  | _ => none

def takenOut : Task P → Option UInt64
  | .closing id _ | .closed id .. => some id
  | _ => none

/-- The identifier of an exporter that is not in the map. -/
def holds : Task P → Option UInt64
  | .inserting _ _ id _ | .closing id _ | .closed id .. => some id
  | _ => none

def answered : Task P → Option Append
  | .appended id rows answer => some ⟨id, rows, answer⟩
  | _ => none

def ParquetRegistry.keys (r : ParquetRegistry P) : List UInt64 := r.exporters.value.keys

/-- An exporter is what its `open` made of it and the appends under its identifier. -/
def Origin (ts : List (Task P)) (log : List Append) (id : UInt64) (x : ParquetExporter P) : Prop :=
  ∃ path columns, .opened path columns id ∈ ts ∧ Exported P path columns (ofWriter id log) x

theorem holds_of_takenOut (h : takenOut t = some id) : holds t = some id := by
  cases t <;> first | exact h | cases h

theorem ofWriter_append (id : UInt64) (log log' : List Append) :
    ofWriter id (log ++ log') = ofWriter id log ++ ofWriter id log' := List.filter_append ..

theorem ofWriter_self {rows : List Row} {answer : Option (Except ParquetExportError Unit)} :
    ofWriter id [⟨id, rows, answer⟩] = [⟨id, rows, answer⟩] := by
  simp [ofWriter]

theorem ofWriter_ne {rows : List Row} {answer : Option (Except ParquetExportError Unit)}
    (h : id ≠ id') : ofWriter id' [⟨id, rows, answer⟩] = [] := by
  simp [ofWriter, h]

theorem Origin.mono {ts ts' : List (Task P)} (h : Origin ts log id x)
    (hts : ∀ path columns, .opened path columns id ∈ ts → .opened path columns id ∈ ts')
    (hlog : ofWriter id log' = ofWriter id log) : Origin ts' log' id x := by
  obtain ⟨path, columns, ht, hx⟩ := h
  exact ⟨path, columns, hts path columns ht, hlog ▸ hx⟩

theorem lookup_eq (r : ParquetRegistry P) (id : UInt64) :
    r.lookup id = r.exporters.value.lookup id := by
  rw [ParquetRegistry.lookup, lockRecovering_eq]

theorem lookup_insert (r : ParquetRegistry P) (x : ParquetExporter P) (id id' : UInt64) :
    (r.insert id x).lookup id' = if id' = id then some x else r.lookup id' := by
  rw [lookup_eq, lookup_eq, ParquetRegistry.insert, lockRecovering_eq]
  split
  · rename_i h
    rw [h]
    exact AList.lookup_insert _
  · rename_i h
    exact AList.lookup_insert_ne h

theorem lookup_update (r : ParquetRegistry P)
    (o : Outcome ParquetExportError (ParquetExporter P)) (id id' : UInt64) :
    (r.update id o).lookup id' = if id' = id then some o.left else r.lookup id' := by
  rw [← lookup_insert, lookup_eq, lookup_eq]
  rfl

theorem lookup_remove (r : ParquetRegistry P) (id id' : UInt64) :
    (r.remove id).lookup id' = if id' = id then none else r.lookup id' := by
  rw [lookup_eq, lookup_eq, ParquetRegistry.remove, lockRecovering_eq]
  split
  · rename_i h
    rw [h]
    exact AList.lookup_erase _ _
  · rename_i h
    exact AList.lookup_erase_ne h

theorem mem_keys_of_lookup {m : ParquetRegistry P} (h : m.lookup id = some x) : id ∈ m.keys := by
  rw [lookup_eq] at h
  exact AList.mem_keys.mp (AList.lookup_isSome.mp (by rw [h]; rfl))

/-- Putting back an exporter that is there. -/
theorem keys_update {m : ParquetRegistry P} {o : Outcome ParquetExportError (ParquetExporter P)}
    (h : id ∈ m.keys) : (m.update id o).keys.Perm m.keys := by
  rw [ParquetRegistry.keys, ParquetRegistry.update, lockRecovering_eq, AList.keys_insert]
  exact (List.perm_cons_erase h).symm

theorem keys_insert {m : ParquetRegistry P} (h : id ∉ m.keys) :
    (m.insert id x).keys = id :: m.keys := by
  rw [ParquetRegistry.keys, ParquetRegistry.insert, lockRecovering_eq, AList.keys_insert]
  exact congrArg _ (List.erase_of_not_mem h)

theorem keys_remove {m : ParquetRegistry P} (h : id ∈ m.keys) :
    (id :: (m.remove id).keys).Perm m.keys := by
  rw [ParquetRegistry.keys, ParquetRegistry.remove, lockRecovering_eq, AList.keys_erase]
  exact (List.perm_cons_erase h).symm

/-- Each identifier that was given out is at one place: its `open` still has it, the map has it, or
a `close` took it. -/
structure Placed (c : Config (Process P) (Task P)) : Prop where
  issued : Issued c.shared.nextId.value (c.tasks.filterMap ident)
  places : c.tasks.length ≤ UInt64.size →
    (c.shared.keys ++ c.tasks.filterMap holds).Perm (c.tasks.filterMap ident)

structure Tracked (c : Config (Process P) (Task P)) (log : List Append) : Prop where
  created : ∀ t ∈ c.tasks, ∀ path columns x,
    t = .numbering path columns x ∨ (∃ id, t = .inserting path columns id x) →
      ∃ io, create P io path columns = .ok x
  logged : ∀ a ∈ log, ∃ path columns, .opened path columns a.id ∈ c.tasks
  stored : ∀ id x, c.shared.lookup id = some x → Origin c.tasks log id x
  taken : ∀ t ∈ c.tasks, ∀ id, takenOut t = some id → ∃ x, Took t id x ∧ Origin c.tasks log id x

theorem Placed.nodup (h : Placed c) (hcalls : c.tasks.length ≤ UInt64.size) :
    (c.tasks.filterMap ident).Nodup :=
  h.issued.nodup ((List.length_filterMap_le ident c.tasks).trans hcalls)

/-- What the map has, no call has. -/
theorem Placed.apart (h : Placed c) (hcalls : c.tasks.length ≤ UInt64.size) (ht : t ∈ c.tasks)
    (hid : holds t = some id) : id ∉ c.shared.keys := by
  have hnodup := (h.places hcalls).nodup_iff.mpr (h.nodup hcalls)
  intro hkey
  exact (List.nodup_append.mp hnodup).2.2 id hkey id (List.mem_filterMap.mpr ⟨t, ht, hid⟩) rfl

theorem Placed.spawn (h : Placed c) (hs : starts t = true) : Placed ⟨c.shared, c.tasks ++ [t]⟩ := by
  have hnone : ident t = none ∧ holds t = none := by
    cases t <;> first | exact ⟨rfl, rfl⟩ | cases hs
  constructor
  · simpa [hnone.1] using h.issued
  · intro hcalls
    have hle : c.tasks.length ≤ UInt64.size := by
      rw [List.length_append, List.length_singleton] at hcalls
      omega
    simpa [hnone.1, hnone.2] using h.places hle

theorem Placed.advance {i : ℕ} (h : Placed c) (hi : c.tasks[i]? = some t)
    (hs : Transition c.shared t g r' t') : Placed ⟨r', c.tasks.set i t'⟩ := by
  have hkeep (hid : ident t' = ident t) :
      (c.tasks.set i t').filterMap ident = c.tasks.filterMap ident := filterMap_set_eq ident hi hid
  have hstill (hid : holds t' = holds t) :
      (c.tasks.set i t').filterMap holds = c.tasks.filterMap holds := filterMap_set_eq holds hi hid
  have hsame (hid : ident t' = ident t) (hheld : holds t' = holds t)
      (hnext : r'.nextId.value = c.shared.nextId.value) (hkeys : r'.keys.Perm c.shared.keys) :
      Placed ⟨r', c.tasks.set i t'⟩ := by
    constructor
    · rw [hkeep hid, hnext]
      exact h.issued
    · intro hcalls
      rw [List.length_set] at hcalls
      rw [hkeep hid, hstill hheld]
      exact (hkeys.append_right _).trans (h.places hcalls)
  have hmem : t ∈ c.tasks := List.mem_of_getElem? hi
  cases hs with
  | refused | created | appendUnknown | closeUnknown | closed => exact hsame rfl rfl rfl (.refl _)
  | appended io hl => exact hsame rfl rfl rfl (keys_update (mem_keys_of_lookup hl))
  | @numbered path columns x =>
    have hnew : ((c.tasks.set i (.inserting path columns c.shared.nextId.value x)).filterMap
        ident).Perm (c.tasks.filterMap ident ++ [c.shared.nextId.value]) :=
      filterMap_set_perm ident hi rfl rfl
    have hheld : ((c.tasks.set i (.inserting path columns c.shared.nextId.value x)).filterMap
        holds).Perm (c.tasks.filterMap holds ++ [c.shared.nextId.value]) :=
      filterMap_set_perm holds hi rfl rfl
    constructor
    · exact h.issued.take.perm hnew
    · intro hcalls
      rw [List.length_set] at hcalls
      refine List.Perm.trans ?_ (((h.places hcalls).append_right _).trans hnew.symm)
      rw [List.append_assoc]
      exact hheld.append_left _
  | @inserted path columns id x =>
    have hheld : (id :: (c.tasks.set i (.opened path columns id)).filterMap holds).Perm
        (c.tasks.filterMap holds) := by
      obtain ⟨ws, ws', hls, hset⟩ := filterMap_set holds hi
      rw [hls, hset]
      simp only [holds, Option.toList_none, Option.toList_some, List.append_nil, List.append_assoc]
      exact List.perm_middle.symm
    constructor
    · rw [hkeep rfl]
      exact h.issued
    · intro hcalls
      rw [List.length_set] at hcalls
      rw [hkeep rfl, keys_insert (h.apart hcalls hmem rfl)]
      refine List.Perm.trans ?_ (h.places hcalls)
      exact List.perm_middle.symm.trans (hheld.append_left _)
  | @removed id x hl =>
    have hheld : ((c.tasks.set i (.closing id x)).filterMap holds).Perm
        (c.tasks.filterMap holds ++ [id]) := filterMap_set_perm holds hi rfl rfl
    constructor
    · rw [hkeep rfl]
      exact h.issued
    · intro hcalls
      rw [List.length_set] at hcalls
      rw [hkeep rfl]
      refine List.Perm.trans ?_ (h.places hcalls)
      calc ((c.shared.remove id).keys ++ (c.tasks.set i (.closing id x)).filterMap holds).Perm
            ((c.shared.remove id).keys ++ ([id] ++ c.tasks.filterMap holds)) :=
            (hheld.trans List.perm_append_comm).append_left _
        _ |>.Perm (id :: (c.shared.remove id).keys ++ c.tasks.filterMap holds) :=
            List.perm_middle
        _ |>.Perm (c.shared.keys ++ c.tasks.filterMap holds) :=
            (keys_remove (mem_keys_of_lookup hl)).append_right _

/-- An `open` that has returned stays. -/
theorem opened_stays {i : ℕ} (hi : c.tasks[i]? = some t) (hs : Transition r t g r' t')
    (ho : .opened path columns id ∈ c.tasks) : .opened path columns id ∈ c.tasks.set i t' := by
  rcases mem_set_or_eq hi ho t' with h | h
  · exact h
  · subst h
    cases hs

/-- Only an append to a writer in the map is on record. -/
theorem Transition.unrecorded (hs : Transition r t g r' t') (hid : id ∉ r.keys) :
    ofWriter id g = [] := by
  cases hs with
  | appended io hl => exact ofWriter_ne fun heq => hid (heq ▸ mem_keys_of_lookup hl)
  | _ => rfl

theorem Origin.framed {i : ℕ} (h : Origin c.tasks log id x) (hi : c.tasks[i]? = some t)
    (hs : Transition c.shared t g r' t') (hg : ofWriter id g = []) :
    Origin (c.tasks.set i t') (log ++ g) id x :=
  h.mono (fun _ _ => opened_stays hi hs) (by rw [ofWriter_append, hg, List.append_nil])

/-- An identifier that an `open` still holds has no appends. -/
theorem Tracked.unused (h : Tracked c log) (hnodup : (c.tasks.filterMap ident).Nodup)
    (ht : .inserting path columns id x ∈ c.tasks) : ofWriter id log = [] := by
  rw [ofWriter, List.filter_eq_nil_iff]
  intro a ha heq
  obtain ⟨path', columns', ho⟩ := h.logged a ha
  obtain ⟨j, hj⟩ := List.getElem?_of_mem ho
  obtain ⟨j', hj'⟩ := List.getElem?_of_mem ht
  have hsame : j = j' := index_unique hnodup hj hj' (w := id) (by simpa [ident] using heq) rfl
  rw [hsame, hj'] at hj
  cases hj

theorem Tracked.spawn (h : Tracked c log) (hs : starts t = true) :
    Tracked ⟨c.shared, c.tasks ++ [t]⟩ log := by
  have hmore (path : Text) (columns : List Text) (id : UInt64)
      (ho : .opened path columns id ∈ c.tasks) : .opened path columns id ∈ c.tasks ++ [t] :=
    List.mem_append_left _ ho
  constructor
  · intro u hu path columns x hx
    rcases List.mem_append.mp hu with hu | hu
    · exact h.created u hu path columns x hx
    · obtain rfl := List.mem_singleton.mp hu
      rcases hx with rfl | ⟨id, rfl⟩ <;> cases hs
  · intro a ha
    obtain ⟨path, columns, ho⟩ := h.logged a ha
    exact ⟨path, columns, hmore _ _ _ ho⟩
  · exact fun id x hx => (h.stored id x hx).mono (hmore · · id) rfl
  · intro u hu id hid
    rcases List.mem_append.mp hu with hu | hu
    · obtain ⟨x, hw, ho⟩ := h.taken u hu id hid
      exact ⟨x, hw, ho.mono (hmore · · id) rfl⟩
    · obtain rfl := List.mem_singleton.mp hu
      have hnone : takenOut u = none := by
        cases u <;> first | rfl | cases hs
      rw [hnone] at hid
      cases hid

theorem Tracked.advance {i : ℕ} (h : Tracked c log) (hp : Placed c)
    (hcalls : c.tasks.length ≤ UInt64.size) (hi : c.tasks[i]? = some t)
    (hs : Transition c.shared t g r' t') : Tracked ⟨r', c.tasks.set i t'⟩ (log ++ g) := by
  have hmem : t ∈ c.tasks := List.mem_of_getElem? hi
  have hstays (path : Text) (columns : List Text) (id : UInt64)
      (ho : .opened path columns id ∈ c.tasks) : .opened path columns id ∈ c.tasks.set i t' :=
    opened_stays hi hs ho
  have hframe (id : UInt64) (x : ParquetExporter P) (hg : ofWriter id g = [])
      (ho : Origin c.tasks log id x) : Origin (c.tasks.set i t') (log ++ g) id x :=
    ho.framed hi hs hg
  constructor
  · intro u hu path columns x hx
    rcases List.mem_or_eq_of_mem_set hu with hu | rfl
    · exact h.created u hu path columns x hx
    · cases hs with
      | created hx' =>
        obtain hx | ⟨id, hx⟩ := hx
        · cases hx
          exact ⟨_, hx'⟩
        · cases hx
      | @numbered path' columns' x' =>
        obtain hx | ⟨id, hx⟩ := hx
        · cases hx
        · cases hx
          exact h.created _ hmem _ _ _ (.inl rfl)
      | _ => rcases hx with hx | ⟨id, hx⟩ <;> cases hx
  · intro a ha
    rcases List.mem_append.mp ha with ha | ha
    · obtain ⟨path, columns, ho⟩ := h.logged a ha
      exact ⟨path, columns, hstays _ _ _ ho⟩
    · cases hs with
      | appended io hl =>
        obtain rfl := List.mem_singleton.mp ha
        obtain ⟨path, columns, ho, -⟩ := h.stored _ _ hl
        exact ⟨path, columns, hstays _ _ _ ho⟩
      | _ => cases ha
  · intro id x hx
    cases hs with
    | @inserted path columns id₁ x₁ =>
      simp only [lookup_insert] at hx
      split at hx
      · rename_i heq
        obtain rfl := Option.some.inj hx
        subst heq
        obtain ⟨io, hx₁⟩ := h.created _ hmem path columns x₁ (.inr ⟨id, rfl⟩)
        refine ⟨path, columns, mem_set_self hi _, io, x₁, hx₁, ?_⟩
        rw [List.append_nil, h.unused (hp.nodup hcalls) hmem]
        exact .nil
      · exact hframe id x rfl (h.stored id x hx)
    | @appended id₁ rows x₁ io hl =>
      simp only [lookup_update] at hx
      split at hx
      · rename_i heq
        obtain rfl := Option.some.inj hx
        subst heq
        obtain ⟨path, columns, ho, io', x₀, hx₀, hw⟩ := h.stored id x₁ hl
        refine ⟨path, columns, hstays _ _ _ ho, io', x₀, hx₀, ?_⟩
        rw [ofWriter_append, ofWriter_self]
        exact hw.snoc io id rows
      · rename_i hne
        exact hframe id x (ofWriter_ne fun heq => hne heq.symm) (h.stored id x hx)
    | @removed id₁ x₁ hl =>
      simp only [lookup_remove] at hx
      split at hx
      · cases hx
      · exact hframe id x rfl (h.stored id x hx)
    | refused | created | numbered | appendUnknown | closeUnknown | closed =>
      exact hframe id x rfl (h.stored id x hx)
  · intro u hu id hid
    rcases List.mem_or_eq_of_mem_set hu with hu | rfl
    · obtain ⟨x, hw, ho⟩ := h.taken u hu id hid
      exact ⟨x, hw, hframe id x
        (hs.unrecorded (hp.apart hcalls hu (holds_of_takenOut hid))) ho⟩
    · cases hs with
      | removed hl =>
        cases hid
        exact ⟨_, .closing, hframe _ _ rfl (h.stored _ _ hl)⟩
      | closed io =>
        cases hid
        obtain ⟨x, hw, ho⟩ := h.taken _ hmem _ rfl
        cases hw
        exact ⟨_, .closed io, hframe _ _ rfl ho⟩
      | _ => cases hid

/-- What holds of the registry after any actions, and of the exporters while identifiers last. -/
def Sound (c : Config (Process P) (Task P)) (log : List Append) : Prop :=
  Placed c ∧ (c.tasks.length ≤ UInt64.size → Tracked c log)

theorem note_advance {i : ℕ} (hi : c.tasks[i]? = some t) (io : P.Io) (log : List Append) :
    note c (.advance i io) log = log ++ gain c.shared t io := by
  simp only [note, hi]

theorem Sound.act (h : Sound c log) (hact : (exports P).act c a = some c') :
    Sound c' (note c a log) := by
  obtain ⟨hp, ht⟩ := h
  obtain ⟨t, rfl, hs, rfl⟩ | ⟨i, io, t, r', t', rfl, hi, hs, rfl⟩ := act_cases hact
  · refine ⟨hp.spawn hs, fun hcalls => ?_⟩
    have hle : c.tasks.length ≤ UInt64.size := by
      rw [List.length_append, List.length_singleton] at hcalls
      omega
    exact (ht hle).spawn hs
  · have htrans := step_transition hs
    refine ⟨hp.advance hi htrans, fun hcalls => ?_⟩
    rw [List.length_set] at hcalls
    rw [note_advance hi]
    exact (ht hcalls).advance hp hcalls hi htrans

theorem sound_start (P : Arrow) (disk : Disk P) : Sound ⟨.start P disk, []⟩ [] := by
  refine ⟨⟨.start, fun _ => .refl _⟩, fun _ => ⟨nofun, nofun, ?_, nofun⟩⟩
  intro id x hx
  rw [lookup_eq] at hx
  cases hx

theorem run_tracked {disk : Disk P} (hr : (exports P).run ⟨.start P disk, []⟩ as = some d)
    (hcalls : d.tasks.length ≤ UInt64.size) : Placed d ∧ Tracked d (history P disk as) := by
  have hrun : Sound d (history P disk as) :=
    run_always_noted note Sound (fun _ _ _ _ h hact => h.act hact) (sound_start P disk) hr
  exact ⟨hrun.1, hrun.2 hcalls⟩

/-- Every answer is on record once. -/
theorem run_answered {disk : Disk P} (hr : (exports P).run ⟨.start P disk, []⟩ as = some d) :
    (d.tasks.filterMap answered).Perm (history P disk as) := by
  refine run_always_noted note (fun c log => (c.tasks.filterMap answered).Perm log) ?_ (.refl _) hr
  intro c log a c' h hact
  obtain ⟨t, rfl, hs, rfl⟩ | ⟨i, io, t, r', t', rfl, hi, hs, rfl⟩ := act_cases hact
  · have hstart : starts t = true := hs
    have hnone : answered t = none := by
      cases t <;> first | rfl | cases hstart
    simpa [note, hnone] using h
  · rw [note_advance hi]
    have htrans := step_transition hs
    generalize gain c.shared t io = g at htrans
    have hkept (ht : answered t' = answered t) :
        ((c.tasks.set i t').filterMap answered).Perm (log ++ []) := by
      rw [filterMap_set_eq answered hi ht, List.append_nil]
      exact h
    cases htrans with
    | @appended id rows x io hl =>
      have hnew : ((c.tasks.set i (.appended id rows (appendRows io x rows).answer)).filterMap
          answered).Perm (c.tasks.filterMap answered ++ [⟨id, rows, (appendRows io x rows).answer⟩]) :=
        filterMap_set_perm answered hi rfl rfl
      exact hnew.trans (h.append_right _)
    | _ => exact hkept rfl

/-- An identifier belongs to one `open`. -/
theorem opened_unique {path' : Text} {columns' : List Text}
    (hnodup : (d.tasks.filterMap ident).Nodup) (h : .opened path columns id ∈ d.tasks)
    (h' : .opened path' columns' id ∈ d.tasks) : path' = path ∧ columns' = columns := by
  obtain ⟨j, hj⟩ := List.getElem?_of_mem h
  obtain ⟨j', hj'⟩ := List.getElem?_of_mem h'
  obtain rfl := index_unique hnodup hj hj' rfl rfl
  rw [hj] at hj'
  cases hj'
  exact ⟨rfl, rfl⟩

/-- With any opens, appends and closes at once, and any writes that fail or panic, no two opens
share an identifier, and each exporter, in the map or taken out by a close, is what its own appends
make of it one after the other in the order in which they had the lock, with the answers that their
callers got. -/
theorem exports_isolated (P : Arrow) (disk : Disk P) (as : List (Action (Task P) P.Io))
    (d : Config (Process P) (Task P))
    (hr : (exports P).run ⟨.start P disk, []⟩ as = some d) (hcalls : d.tasks.length ≤ UInt64.size) :
    (d.tasks.filterMap ident).Nodup ∧ (d.tasks.filterMap answered).Perm (history P disk as) ∧
    ∀ path columns id, .opened path columns id ∈ d.tasks →
      ∃ x, Exported P path columns (ofWriter id (history P disk as)) x ∧
        (d.shared.lookup id = some x ∨ d.shared.lookup id = none ∧ ∃ t ∈ d.tasks, Took t id x) := by
  obtain ⟨hp, ht⟩ := run_tracked hr hcalls
  have hnodup := hp.nodup hcalls
  refine ⟨hnodup, run_answered hr, fun path columns id ho => ?_⟩
  have hown (x : ParquetExporter P) (hx : Origin d.tasks (history P disk as) id x) :
      Exported P path columns (ofWriter id (history P disk as)) x := by
    obtain ⟨path', columns', ho', hx⟩ := hx
    obtain ⟨rfl, rfl⟩ := opened_unique hnodup ho ho'
    exact hx
  have hplace : id ∈ d.shared.keys ++ d.tasks.filterMap holds := by
    rw [(hp.places hcalls).mem_iff]
    exact List.mem_filterMap.mpr ⟨_, ho, rfl⟩
  rcases List.mem_append.mp hplace with hkey | hheld
  · obtain ⟨x, hx⟩ := Option.isSome_iff_exists.mp (AList.lookup_isSome.mpr (AList.mem_keys.mpr hkey))
    rw [← lookup_eq] at hx
    exact ⟨x, hown x (ht.stored id x hx), .inl hx⟩
  · obtain ⟨t, hmem, hid⟩ := List.mem_filterMap.mp hheld
    have hout : takenOut t = some id := by
      cases t with
      | inserting path' columns' id' x =>
        cases hid
        obtain ⟨j, hj⟩ := List.getElem?_of_mem ho
        obtain ⟨j', hj'⟩ := List.getElem?_of_mem hmem
        obtain rfl := index_unique hnodup hj hj' rfl rfl
        rw [hj] at hj'
        cases hj'
      | _ => exact hid
    obtain ⟨x, hw, hx⟩ := ht.taken t hmem id hout
    refine ⟨x, hown x hx, .inr ⟨?_, t, hmem, hw⟩⟩
    rw [lookup_eq]
    exact AList.lookup_eq_none.mpr fun hkey => hp.apart hcalls hmem hid (AList.mem_keys.mp hkey)

def carried : Task P → Option (ParquetExporter P)
  | .numbering _ _ x | .inserting _ _ _ x | .closing _ x => some x
  | _ => none

/-- An exporter that is open is in the map, under its identifier, or with a call. -/
def openAt (c : Config (Process P) (Task P)) : UInt64 ⊕ ℕ → Option (ParquetExporter P)
  | .inl id => c.shared.lookup id
  | .inr i => c.tasks[i]?.bind carried

def openNodes (c : Config (Process P) (Task P)) : List ℕ :=
  c.shared.exporters.value.entries.map (·.2.node) ++
    c.tasks.filterMap fun t => (carried t).map (·.node)

def creates : Task P → Option ℕ
  | .opening path _ => some (P.node path)
  | _ => none

/-- No `open` names the file `n` while an exporter has it open. -/
def Unshared (n : ℕ) (c : Config (Process P) (Task P)) : Action (Task P) P.Io → Prop
  | .spawn _ => True
  | .advance i _ => c.tasks[i]?.bind creates = some n → n ∉ openNodes c

instance (n : ℕ) (c : Config (Process P) (Task P)) :
    (a : Action (Task P) P.Io) → Decidable (Unshared n c a)
  | .spawn _ => .isTrue trivial
  | .advance i _ => inferInstanceAs (Decidable (c.tasks[i]?.bind creates = some n → n ∉ openNodes c))

/-- One exporter at most has the file `n` open, and the file holds what it has put out. -/
structure Sole (n : ℕ) (c : Config (Process P) (Task P)) : Prop where
  alone : ∀ s s' x x', openAt c s = some x → openAt c s' = some x' → x.node = n → x'.node = n →
    s = s'
  held : ∀ s x, openAt c s = some x → x.node = n → c.shared.disk n = x.sent

/-- A file that was closed holds all that its exporter put out. -/
def Sealed (n : ℕ) (c : Config (Process P) (Task P)) (log : List Append) : Prop :=
  ∀ id answer file, .closed id answer file ∈ c.tasks → ∃ x io, Origin c.tasks log id x ∧
    answer = (x.close io).1 ∧ (x.node = n → file = x.sent ++ (x.close io).2)

variable {n i : ℕ}

theorem openAt_task (hi : c.tasks[i]? = some t) (j : ℕ) :
    openAt ⟨r', c.tasks.set i t'⟩ (.inr j) = if j = i then carried t' else openAt c (.inr j) := by
  by_cases hj : j = i
  · subst hj
    rw [if_pos rfl, openAt, List.getElem?_set_self', hi]
    rfl
  · rw [if_neg hj, openAt, openAt, List.getElem?_set_ne fun e => hj e.symm]

theorem node_mem_openNodes {s : UInt64 ⊕ ℕ} (h : openAt c s = some x) : x.node ∈ openNodes c := by
  cases s with
  | inl id =>
    rw [openAt, lookup_eq] at h
    have hentry : (⟨id, x⟩ : Sigma fun _ => ParquetExporter P) ∈
        c.shared.exporters.value.entries := AList.mem_lookup_iff.mp h
    exact List.mem_append_left _ (List.mem_map.mpr ⟨_, hentry, rfl⟩)
  | inr j =>
    obtain ⟨t, ht, hcarried⟩ := Option.bind_eq_some_iff.mp h
    refine List.mem_append_right _ (List.mem_filterMap.mpr ⟨t, List.mem_of_getElem? ht, ?_⟩)
    rw [hcarried]
    rfl

theorem Unshared.apart {s : UInt64 ⊕ ℕ} (h : Unshared n c (.advance i io))
    (hi : c.tasks[i]? = some (.opening path columns)) (hpath : P.node path = n)
    (hx : openAt c s = some x) : x.node ≠ n := by
  have hcreates : c.tasks[i]?.bind creates = some n := by
    rw [hi, ← hpath]
    rfl
  exact fun hn => h hcreates (hn ▸ node_mem_openNodes hx)

/-- Exporters that move, and put out no more than is added to their file. -/
theorem Sole.moved (h : Sole n c) (back : UInt64 ⊕ ℕ → UInt64 ⊕ ℕ)
    (hback : ∀ s x', openAt c' s = some x' → x'.node = n →
      ∃ x, openAt c (back s) = some x ∧ x.node = n ∧
        (c.shared.disk n = x.sent → c'.shared.disk n = x'.sent))
    (hinj : ∀ s s' x x', openAt c' s = some x → openAt c' s' = some x' → back s = back s' →
      s = s') : Sole n c' := by
  constructor
  · intro s s' x x' hx hx' hn hn'
    obtain ⟨y, hy, hyn, -⟩ := hback s x hx hn
    obtain ⟨y', hy', hyn', -⟩ := hback s' x' hx' hn'
    exact hinj s s' x x' hx hx' (h.alone _ _ _ _ hy hy' hyn hyn')
  · intro s x' hx' hn
    obtain ⟨x, hx, hxn, hheld⟩ := hback s x' hx' hn
    exact hheld (h.held _ _ hx hxn)

theorem put_self {n : ℕ} {disk : Disk P} (hn : x.node = n) (hheld : disk n = x.sent)
    (bytes : List P.Byte) : x.put bytes disk n = x.sent ++ bytes := by
  subst hn
  rw [ParquetExporter.put, Function.update_self, hheld, writeAt_end]

theorem put_ne {n : ℕ} (hn : x.node ≠ n) (bytes : List P.Byte) (disk : Disk P) :
    x.put bytes disk n = disk n := Function.update_of_ne hn.symm ..

theorem Sole.spawn (h : Sole n c) (hs : starts t = true) : Sole n ⟨c.shared, c.tasks ++ [t]⟩ := by
  refine h.moved id (fun s x' hx' hn => ⟨x', ?_, hn, fun hheld => hheld⟩) fun _ _ _ _ _ _ h => h
  cases s with
  | inl id => exact hx'
  | inr j =>
    obtain ⟨u, hu, hcarried⟩ := Option.bind_eq_some_iff.mp hx'
    rcases getElem?_append_singleton_cases hu with hu | ⟨-, rfl⟩
    · exact Option.bind_eq_some_iff.mpr ⟨u, hu, hcarried⟩
    · have hnone : carried u = none := by
        cases u <;> first | rfl | cases hs
      rw [hnone] at hcarried
      cases hcarried

/-- Where a task moves on and the map stays, what was open is open. -/
theorem openAt_still (hi : c.tasks[i]? = some t) (hl : ∀ id, r'.lookup id = c.shared.lookup id)
    (ht : carried t' = carried t ∨ carried t' = none) {s : UInt64 ⊕ ℕ}
    (hx : openAt ⟨r', c.tasks.set i t'⟩ s = some x) : openAt c s = some x := by
  cases s with
  | inl id => exact (hl id).symm.trans hx
  | inr j =>
    rw [openAt_task hi] at hx
    split at hx
    · rename_i hj
      rcases ht with ht | ht
      · rw [hj, openAt, hi]
        exact ht.symm.trans hx
      · rw [ht] at hx
        cases hx
    · exact hx

theorem Sole.still (h : Sole n c) (hi : c.tasks[i]? = some t)
    (hl : ∀ id, r'.lookup id = c.shared.lookup id)
    (ht : carried t' = carried t ∨ carried t' = none)
    (hdisk : ∀ s x, openAt c s = some x → openAt ⟨r', c.tasks.set i t'⟩ s = some x → x.node = n →
      r'.disk n = c.shared.disk n) : Sole n ⟨r', c.tasks.set i t'⟩ := by
  refine h.moved id (fun s x' hx' hn => ?_) fun _ _ _ _ _ _ h => h
  have hx := openAt_still hi hl ht hx'
  exact ⟨x', hx, hn, fun hheld => (hdisk s x' hx hx' hn).trans hheld⟩

/-- An exporter goes from one place to another. -/
theorem Sole.carry (h : Sole n c) (source target : UInt64 ⊕ ℕ)
    (htarget : openAt c' target = openAt c source) (hsource : openAt c' source = none)
    (hrest : ∀ s, s ≠ source → s ≠ target → openAt c' s = openAt c s)
    (hdisk : c'.shared.disk = c.shared.disk) : Sole n c' := by
  refine h.moved (fun s => if s = target then source else s) (fun s x' hx' hn => ?_) ?_
  · refine ⟨x', ?_, hn, fun hheld => hdisk ▸ hheld⟩
    by_cases hs : s = target
    · rw [if_pos hs, ← htarget, ← hs, hx']
    · have hne : s ≠ source := fun heq => by rw [heq, hsource] at hx'; cases hx'
      rw [if_neg hs, ← hrest s hne hs, hx']
  · intro s s' x x' hx hx' hback
    have hne (u : UInt64 ⊕ ℕ) (y : ParquetExporter P) (hy : openAt c' u = some y) : u ≠ source :=
      fun heq => by rw [heq, hsource] at hy; cases hy
    by_cases hs : s = target <;> by_cases hs' : s' = target
    · exact hs.trans hs'.symm
    · rw [if_pos hs, if_neg hs'] at hback
      exact absurd hback.symm (hne s' x' hx')
    · rw [if_neg hs, if_pos hs'] at hback
      exact absurd hback (hne s x hx)
    · rwa [if_neg hs, if_neg hs'] at hback

/-- A file is opened that no exporter has open. -/
theorem Sole.create (h : Sole n c) (hi : c.tasks[i]? = some (.opening path columns))
    (hcond : P.node path = n → ∀ s x, openAt c s = some x → x.node ≠ n)
    (hx : create P io path columns = .ok x) :
    Sole n ⟨{ c.shared with disk := createdDisk P io path columns c.shared.disk },
      c.tasks.set i (.numbering path columns x)⟩ := by
  obtain ⟨hnode, hdisk⟩ := create_disk hx c.shared.disk
  have hslot (s : UInt64 ⊕ ℕ) (y : ParquetExporter P)
      (hy : openAt ⟨{ c.shared with disk := createdDisk P io path columns c.shared.disk },
        c.tasks.set i (.numbering path columns x)⟩ s = some y) :
      (s = .inr i ∧ y = x) ∨ openAt c s = some y := by
    cases s with
    | inl id => exact .inr hy
    | inr j =>
      rw [openAt_task hi] at hy
      split at hy
      · rename_i hj
        exact .inl ⟨congrArg _ hj, (Option.some.inj hy).symm⟩
      · exact .inr hy
  by_cases hpath : P.node path = n
  · have hfresh (s : UInt64 ⊕ ℕ) (y : ParquetExporter P) (hy : (s = .inr i ∧ y = x) ∨
        openAt c s = some y) (hn : y.node = n) : s = .inr i ∧ y = x :=
      hy.resolve_right fun hold => hcond hpath s y hold hn
    constructor
    · intro s s' y y' hy hy' hn hn'
      exact (hfresh s y (hslot s y hy) hn).1.trans (hfresh s' y' (hslot s' y' hy') hn').1.symm
    · intro s y hy hn
      obtain ⟨-, rfl⟩ := hfresh s y (hslot s y hy) hn
      simp only [hdisk]
      rw [← hpath, Function.update_self]
  · have hold (s : UInt64 ⊕ ℕ) (y : ParquetExporter P) (hy : (s = .inr i ∧ y = x) ∨
        openAt c s = some y) (hn : y.node = n) : openAt c s = some y :=
      hy.resolve_left fun hnew => hpath (hnode.symm.trans (hnew.2 ▸ hn))
    constructor
    · intro s s' y y' hy hy' hn hn'
      exact h.alone s s' y y' (hold s y (hslot s y hy) hn) (hold s' y' (hslot s' y' hy') hn') hn hn'
    · intro s y hy hn
      exact (createdDisk_ne io columns _ hpath).trans (h.held s y (hold s y (hslot s y hy) hn) hn)

theorem Sole.append {rows : List Row} (h : Sole n c) (hi : c.tasks[i]? = some (.append id rows))
    (io : P.Io) (hl : c.shared.lookup id = some x) :
    Sole n ⟨⟨c.shared.update id (appendRows io x rows),
        x.put ((appendRows io x rows).left.sent.drop x.sent.length) c.shared.disk⟩,
      c.tasks.set i (.appended id rows (appendRows io x rows).answer)⟩ := by
  obtain ⟨hnode, bytes, hsent⟩ := appendRows_sent io x rows
  have hbytes : (appendRows io x rows).left.sent.drop x.sent.length = bytes := by
    rw [hsent, List.drop_left]
  rw [hbytes]
  refine h.moved (fun s => s) (fun s x' hx' hn => ?_) fun _ _ _ _ _ _ h => h
  by_cases hs : s = .inl id
  · subst hs
    rw [openAt, lookup_update, if_pos rfl] at hx'
    obtain rfl := Option.some.inj hx'
    have hn₀ : x.node = n := hnode.symm.trans hn
    exact ⟨x, hl, hn₀, fun hheld => (put_self hn₀ hheld bytes).trans hsent.symm⟩
  · have hold : openAt c s = some x' := by
      cases s with
      | inl id' =>
        rwa [openAt, lookup_update, if_neg fun heq => hs (congrArg _ heq)] at hx'
      | inr j =>
        rw [openAt_task hi] at hx'
        split at hx'
        · cases hx'
        · exact hx'
    refine ⟨x', hold, hn, fun hheld => ?_⟩
    exact (put_ne (fun hn₀ => hs (h.alone _ _ _ _ hold hl hn hn₀)) bytes _).trans hheld

theorem Sole.advance (h : Sole n c) (hi : c.tasks[i]? = some t)
    (hcond : ∀ path columns, t = .opening path columns → P.node path = n →
      ∀ s x, openAt c s = some x → x.node ≠ n)
    (hs : Transition c.shared t g r' t') : Sole n ⟨r', c.tasks.set i t'⟩ := by
  cases hs with
  | @refused path columns e io =>
    refine h.still hi (fun _ => rfl) (.inr rfl) fun s x hx _ hn => createdDisk_ne io columns _ ?_
    exact fun hpath => hcond path columns rfl hpath s x hx hn
  | created hx => exact h.create hi (hcond _ _ rfl) hx
  | numbered => exact h.still hi (fun _ => rfl) (.inl rfl) fun _ _ _ _ _ => rfl
  | @inserted path columns id x =>
    refine h.carry (.inr i) (.inl id) ?_ ?_ (fun s hsource htarget => ?_) rfl
    · rw [openAt, lookup_insert, if_pos rfl, openAt, hi]
      rfl
    · rw [openAt_task hi, if_pos rfl]
      rfl
    · cases s with
      | inl id' => rw [openAt, lookup_insert, if_neg fun heq => htarget (congrArg _ heq), openAt]
      | inr j => rw [openAt_task hi, if_neg fun heq => hsource (congrArg _ heq)]
  | appendUnknown | closeUnknown =>
    exact h.still hi (fun _ => rfl) (.inr rfl) fun _ _ _ _ _ => rfl
  | appended io hl => exact h.append hi io hl
  | @removed id x hl =>
    refine h.carry (.inl id) (.inr i) ?_ ?_ (fun s hsource htarget => ?_) rfl
    · rw [openAt_task hi, if_pos rfl, openAt, hl]
      rfl
    · rw [openAt, lookup_remove, if_pos rfl]
    · cases s with
      | inl id' => rw [openAt, lookup_remove, if_neg fun heq => hsource (congrArg _ heq), openAt]
      | inr j => rw [openAt_task hi, if_neg fun heq => htarget (congrArg _ heq)]
  | @closed id x io =>
    refine h.still hi (fun _ => rfl) (.inr rfl) fun s y hy hy' hn => put_ne ?_ _ _
    intro hx
    have hslot : s = .inr i := h.alone s (.inr i) y x hy (by rw [openAt, hi]; rfl) hn hx
    rw [hslot, openAt_task hi, if_pos rfl] at hy'
    cases hy'

theorem Sealed.advance (h : Sealed n c log) (hp : Placed c) (ht : Tracked c log) (ho : Sole n c)
    (hcalls : c.tasks.length ≤ UInt64.size) (hi : c.tasks[i]? = some t)
    (hs : Transition c.shared t g r' t') : Sealed n ⟨r', c.tasks.set i t'⟩ (log ++ g) := by
  intro id answer file hmem
  rcases List.mem_or_eq_of_mem_set hmem with hold | heq
  · obtain ⟨x, io, horigin, hanswer, hfile⟩ := h id answer file hold
    have hkey : id ∉ c.shared.keys := hp.apart hcalls hold rfl
    exact ⟨x, io, horigin.framed hi hs (hs.unrecorded hkey), hanswer, hfile⟩
  · cases hs with
    | @closed id x io =>
      cases heq
      obtain ⟨y, hy, horigin⟩ := ht.taken _ (List.mem_of_getElem? hi) id rfl
      cases hy
      refine ⟨x, io, horigin.framed hi (.closed io) rfl, rfl, fun hn => ?_⟩
      have hheld : c.shared.disk n = x.sent := ho.held (.inr i) x (by rw [openAt, hi]; rfl) hn
      subst hn
      exact put_self rfl hheld _
    | _ => cases heq

theorem Sealed.spawn (h : Sealed n c log) (hs : starts t = true) :
    Sealed n ⟨c.shared, c.tasks ++ [t]⟩ log := by
  intro id answer file hmem
  rcases List.mem_append.mp hmem with hold | hnew
  · obtain ⟨x, io, horigin, hclosed⟩ := h id answer file hold
    exact ⟨x, io, horigin.mono (fun _ _ hopened => List.mem_append_left _ hopened) rfl, hclosed⟩
  · rw [← List.mem_singleton.mp hnew] at hs
    cases hs

def Kept (n : ℕ) (c : Config (Process P) (Task P)) (log : List Append) : Prop :=
  Sound c log ∧ Sole n c ∧ (c.tasks.length ≤ UInt64.size → Sealed n c log)

theorem Kept.act (h : Kept n c log) (hcond : Unshared n c a)
    (hact : (exports P).act c a = some c') : Kept n c' (note c a log) := by
  refine ⟨h.1.act hact, ?_⟩
  obtain ⟨⟨hp, ht⟩, ho, hsealed⟩ := h
  obtain ⟨t, rfl, hs, rfl⟩ | ⟨i, io, t, r', t', rfl, hi, hs, rfl⟩ := act_cases hact
  · refine ⟨ho.spawn hs, fun hcalls => ?_⟩
    rw [List.length_append, List.length_singleton] at hcalls
    exact (hsealed (by omega)).spawn hs
  · have htrans := step_transition hs
    refine ⟨ho.advance hi (fun path columns heq hpath s x => ?_) htrans, fun hcalls => ?_⟩
    · exact hcond.apart (heq ▸ hi) hpath
    · rw [List.length_set] at hcalls
      rw [note_advance hi]
      exact (hsealed hcalls).advance hp (ht hcalls) ho hcalls hi htrans

theorem kept_start (n : ℕ) (disk : Disk P) : Kept n ⟨.start P disk, []⟩ [] := by
  have hnone (s : UInt64 ⊕ ℕ) (x : ParquetExporter P) : openAt ⟨.start P disk, []⟩ s ≠ some x := by
    cases s with
    | inl id =>
      rw [openAt, lookup_eq]
      nofun
    | inr j => nofun
  exact ⟨sound_start P disk, ⟨fun s _ x _ hx => absurd hx (hnone s x),
    fun s x hx => absurd hx (hnone s x)⟩, fun _ => nofun⟩

theorem run_sealed {disk : Disk P} (hr : (exports P).run ⟨.start P disk, []⟩ as = some d)
    (hcalls : d.tasks.length ≤ UInt64.size)
    (hm : (exports P).Meets (Unshared n) ⟨.start P disk, []⟩ as) :
    Sealed n d (history P disk as) := by
  have hact (c : Config (Process P) (Task P)) (log : List Append) (a : Action (Task P) P.Io)
      (c' : Config (Process P) (Task P)) (h : Kept n c log) (hcond : Unshared n c a)
      (hact : (exports P).act c a = some c') : Kept n c' (note c a log) := h.act hcond hact
  have hrun : Kept n d (history P disk as) := run_noted hact (kept_start n disk) hm hr
  exact hrun.2.2 hcalls

theorem Wrote.node {x₀ : ParquetExporter P} (h : Wrote x₀ log x) : x.node = x₀.node := by
  induction h with
  | nil => rfl
  | snoc h io id rows ih => exact (appendRows_sent io _ rows).1.trans ih

theorem close_ok (r : Reader P) (h : (x.close io).1 = .ok ()) (htells : r.Tells x) :
    r.read (x.sent ++ (x.close io).2) = some (r.content x.writer) := by
  simp only [ParquetExporter.close] at h ⊢
  cases hclose : P.close io x.writer with
  | mk answer bytes =>
    cases answer with
    | error e =>
      rw [hclose] at h
      cases h
    | ok u => rw [show x.sent = r.sent x.writer from htells, r.close io x.writer bytes hclose]

/-- Where no `open` names a file while an exporter has it open, a file that was closed without an
error, and whose appends were all accepted, reads back as the rows of its pages in the order in
which they had the lock, each fitted to the columns. -/
theorem export_complete (P : Arrow) (r : Reader P) (disk : Disk P)
    (as : List (Action (Task P) P.Io)) (d : Config (Process P) (Task P))
    (hr : (exports P).run ⟨.start P disk, []⟩ as = some d) (hcalls : d.tasks.length ≤ UInt64.size)
    (path : Text) (columns : List Text) (id : UInt64) (file : List P.Byte)
    (hopened : .opened path columns id ∈ d.tasks) (hclosed : .closed id (.ok ()) file ∈ d.tasks)
    (hok : ∀ a ∈ d.tasks.filterMap answered, a.id = id → a.answer = some (.ok ()))
    (hown : (exports P).Meets (Unshared (P.node path)) ⟨.start P disk, []⟩ as) :
    r.read file = some ⟨columns,
      (ofWriter id (history P disk as)).flatMap fun a => a.rows.map (fitted columns.length)⟩ := by
  obtain ⟨hp, -⟩ := run_tracked hr hcalls
  obtain ⟨x, io, ⟨path', columns', ho, io', x₀, hx₀, hwrote⟩, hanswer, hfile⟩ :=
    run_sealed hr hcalls hown id _ file hclosed
  obtain ⟨rfl, rfl⟩ := opened_unique (hp.nodup hcalls) hopened ho
  obtain ⟨hlen, hempty, htells₀⟩ := create_ok r hx₀
  have hall (a : Append) (ha : a ∈ ofWriter id (history P disk as)) :
      a.answer = some (.ok ()) := by
    obtain ⟨ha, hid⟩ := List.mem_filter.mp ha
    exact hok a ((run_answered hr).mem_iff.mpr ha) (beq_iff_eq.mp hid)
  obtain ⟨-, hcontent, htells⟩ := hwrote.content r hall
  rw [hempty, hlen, List.nil_append] at hcontent
  have hnode : x.node = P.node path' := hwrote.node.trans (create_disk hx₀ disk).1
  rw [hfile hnode, close_ok r hanswer.symm (htells htells₀), hcontent]

/-- A library that keeps everything in memory, and panics in a write where it is told to. -/
abbrev memory : Arrow where
  Io := Bool
  Byte := Table
  zero := ⟨[], []⟩
  Array := List (Option Text)
  Batch := List (List (Option Text))
  Writer := Table
  node path := (path.map (·.toNat)).sum
  createFile _ _ := .ok ()
  tryNewWriter schema := (.ok ⟨schema.map (·.name), []⟩, [])
  stringArray := some
  tryNewBatch _ arrays := if arrays = [] then .error "no columns".toList else .ok arrays
  write panics w b :=
    (if panics then .panicked w else .ok { w with rows := w.rows ++ tableRows b }, [])
  close _ w := (.ok (), [w])

def memoryReader : Reader memory where
  values a := a
  columns b := b
  content w := w
  sent _ := []
  read := List.head?
  stringArray vs a h := (Option.some.inj h).symm
  tryNewBatch schema arrays b h := by
    simp only [memory] at h
    split at h
    · cases h
    · rename_i hne
      cases h
      exact ⟨hne, (List.map_id _).symm⟩
  tryNewWriter schema w bytes h := by
    cases h
    exact ⟨rfl, rfl⟩
  write io w b w' bytes h := by
    cases io <;> cases h
    exact ⟨rfl, rfl⟩
  close io w bytes h := by
    cases h
    rfl

/-- Two exports at once, each over an older file; a write of the first panics, and a page of the
second is ragged. -/
def twoExports : List (Action (Task memory) Bool) :=
  [.spawn (.opening ['a'] [['x']]), .spawn (.opening ['b'] [['y'], ['z']]), .advance 0 false,
    .advance 1 false, .advance 1 false, .advance 0 false, .advance 1 false, .advance 0 false,
    .spawn (.append 1 [[some ['1'], some ['2'], none], []]), .spawn (.append 2 [[some ['3']]]),
    .advance 3 true, .advance 2 false, .spawn (.append 1 [[none, some ['4']]]),
    .advance 4 false, .spawn (.close 1), .advance 5 false, .advance 5 false]

def oldFiles : Disk memory := fun _ => [⟨[['o']], []⟩]

def secondFile : Table :=
  ⟨[['y'], ['z']], [[some ['1'], some ['2']], [none, none], [none, some ['4']]]⟩

def twoExported : Config (Process memory) (Task memory) :=
  ((exports memory).run ⟨.start memory oldFiles, []⟩ twoExports).getD ⟨.start memory oldFiles, []⟩

theorem run_twoExports :
    (exports memory).run ⟨.start memory oldFiles, []⟩ twoExports = some twoExported := rfl

theorem twoExported_tasks : twoExported.tasks = [.opened ['a'] [['x']] 2,
    .opened ['b'] [['y'], ['z']] 1,
    .appended 1 [[some ['1'], some ['2'], none], []] (some (.ok ())),
    .appended 2 [[some ['3']]] none, .appended 1 [[none, some ['4']]] (some (.ok ())),
    .closed 1 (.ok ()) [secondFile]] := rfl

theorem exports_isolated_twoExports :
    ∃ x, Exported memory ['a'] [['x']] (ofWriter 2 (history memory oldFiles twoExports)) x ∧
      (twoExported.shared.lookup 2 = some x ∨
        twoExported.shared.lookup 2 = none ∧ ∃ t ∈ twoExported.tasks, Took t 2 x) :=
  (exports_isolated memory oldFiles twoExports twoExported run_twoExports
    (by rw [twoExported_tasks]; decide)).2.2 ['a'] [['x']] 2 (by rw [twoExported_tasks]; exact .head _)

theorem export_complete_twoExports :
    some secondFile = some ⟨[['y'], ['z']], (ofWriter 1
      (history memory oldFiles twoExports)).flatMap fun a => a.rows.map (fitted 2)⟩ := by
  have hanswers : ∀ a ∈ twoExported.tasks.filterMap answered, a.id = 1 →
      a.answer = some (.ok ()) := by
    rw [twoExported_tasks]
    decide
  exact export_complete memory memoryReader oldFiles twoExports twoExported run_twoExports
    (by rw [twoExported_tasks]; decide) ['b'] [['y'], ['z']] 1 [secondFile]
    (by rw [twoExported_tasks]; exact .tail _ (.head _))
    (by rw [twoExported_tasks]; exact List.mem_of_getElem? (i := 5) rfl) hanswers (by decide +kernel)

end SshCommander.ParquetExports
