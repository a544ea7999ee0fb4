import SshCommander.ConnectionManager

/-!
# Connections dropped without a disconnect

A connection handed to `replace_managed_connection` is with that call, then in the map, then with
the call that takes it out, and then it is disconnected. It leaves this track in two places only:
where it is inserted over, and where the disconnect of its predecessor fails.
-/

namespace SshCommander.DroppedConnections
open InterleavedTasks InterleavedTasks.TaskSystem RustText
open ConnectionManager ConnectionManager.Manager

variable {c c' d : Config Manager ConnectionManager.Task} {m m' : Manager} {id : Text}
  {conn old : ManagedConnection} {next : Option ManagedConnection} {x : Text × ManagedConnection}
  {a : Action ConnectionManager.Task Event} {as : List (Action ConnectionManager.Task Event)}
  {i : ℕ} {e : Event} {t t' : ConnectionManager.Task}

/-- Every connection ever handed over is the entry of its id, or its disconnect was called. -/
def Accounted (m : Manager) : Prop := ∀ x ∈ m.handed,
  m.connections.lookup x.1 = some x.2 ∨ x.2 ∈ m.disconnected

instance : Decidable (Accounted m) := inferInstanceAs (Decidable (∀ x ∈ m.handed, _))

/-- Nothing is inserted over an entry, and no disconnect fails in a call that has a replacement. -/
def keepsConnection (m : Manager) (e : Event) : ConnectionManager.Task → Bool
  | .inserting id _ => (m.connections.lookup id).isNone
  | .disconnecting _ old (some _) => old.kind = .postgres ∨ e.disconnect.isOk
  | _ => true

def KeepsConnection (c : Config Manager ConnectionManager.Task) :
    Action ConnectionManager.Task Event → Prop
  | .spawn _ => True
  | .advance i e => ∀ t ∈ c.tasks[i]?, keepsConnection c.shared e t = true

/-- The connections that a call was handed or has taken. -/
def held : ConnectionManager.Task → List (Text × ManagedConnection)
  | .replacing id conn | .inserting id conn => [(id, conn)]
  | .purgingSession id old next | .purgingGeneration id old next | .disconnecting id old next =>
    (id, old) :: next.toList.map (id, ·)
  | .publishing id next => next.toList.map (id, ·)
  | _ => []

def inMap (x : Text × ManagedConnection) (m : Manager) : ℕ :=
  if m.connections.lookup x.1 = some x.2 then 1 else 0

def share (x : Text × ManagedConnection) (m : Manager) (t : ConnectionManager.Task) : ℕ :=
  inMap x m + (held t).count x

/-- In the map, and with all the calls. -/
def places (x : Text × ManagedConnection) (c : Config Manager ConnectionManager.Task) : ℕ :=
  inMap x c.shared + (c.tasks.map fun t => (held t).count x).sum

@[simp] theorem inMap_disconnect : inMap x (m.disconnect old) = inMap x m := rfl

@[simp] theorem inMap_hand : inMap x (m.hand id conn) = inMap x m := rfl

@[simp] theorem inMap_clear : inMap x (m.clearPendingConnection id) = inMap x m := rfl

@[simp] theorem inMap_open (kind : ProtocolKind) : inMap x (m.openConnection kind).1 = inMap x m := rfl

@[simp] theorem inMap_cancel : inMap x (m.cancelPendingConnection id).1 = inMap x m := by
  simp [inMap]

theorem places_advance (m' : Manager) (hi : c.tasks[i]? = some t) (t' : ConnectionManager.Task) :
    places x ⟨m', c.tasks.set i t'⟩ + share x c.shared t = places x c + share x m' t' := by
  have hsum := sum_map_set (fun t => (held t).count x) hi t'
  simp only [places, share]
  omega

theorem share_le_places (hi : c.tasks[i]? = some t) : share x c.shared t ≤ places x c :=
  Nat.add_le_add_left (le_sum_map (fun t => (held t).count x) hi) _

theorem held_disconnect : held (disconnectManagedConnection id old next) =
    (id, old) :: next.toList.map (id, ·) := by
  unfold disconnectManagedConnection
  split <;> rfl

theorem inMap_remove (h : m.connections.lookup id = some old) :
    inMap x (m.removeConnection id) + [(id, old)].count x = inMap x m := by
  obtain ⟨id', conn⟩ := x
  by_cases hid : id' = id
  · subst hid
    simp [inMap, removeConnection, h, List.count_singleton]
  · have hne : ((id, old) == (id', conn)) = false := by simpa using fun heq => absurd heq.symm hid
    simp [inMap, removeConnection, AList.lookup_erase_ne hid, List.count_singleton, hne]

theorem share_remove (h : m.connections.lookup id = some old) :
    share x (m.removeConnection id) (disconnectManagedConnection id old next) =
      inMap x m + (next.toList.map (id, ·)).count x := by
  have hin := inMap_remove (x := x) h
  rw [List.count_singleton] at hin
  rw [share, held_disconnect, List.count_cons]
  omega

theorem inMap_insert_none (h : m.connections.lookup id = none) :
    inMap x (m.insertConnection id conn) = inMap x m + [(id, conn)].count x := by
  obtain ⟨id', conn'⟩ := x
  by_cases hid : id' = id
  · subst hid
    simp [inMap, insertConnection, h, List.count_singleton]
  · have hne : ((id, conn) == (id', conn')) = false := by simpa using fun heq => absurd heq.symm hid
    simp [inMap, insertConnection, AList.lookup_insert_ne hid, List.count_singleton, hne]

theorem inMap_insert_le :
    inMap x (m.insertConnection id conn) ≤ inMap x m + [(id, conn)].count x := by
  obtain ⟨id', conn'⟩ := x
  by_cases hid : id' = id
  · subst hid
    simp [inMap, insertConnection, List.count_singleton]
  · simp [inMap, insertConnection, AList.lookup_insert_ne hid]

/-- A connection that was opened and not handed over. -/
def unhanded : ConnectionManager.Task → Option ℕ
  | .clearing _ _ (.ok conn) => some conn.number
  | _ => none

/-- A connection handed over is in one place at most, or its disconnect was called. -/
structure Custody (c : Config Manager ConnectionManager.Task) : Prop where
  numbered : Numbered c.shared.opened
    (c.shared.handed.map (·.2.number) ++ c.tasks.filterMap unhanded)
  once : ∀ x, places x c + (if x.2 ∈ c.shared.disconnected then 1 else 0) ≤ 1
  known : ∀ x, 0 < places x c → x ∈ c.shared.handed
  ended : ∀ conn ∈ c.shared.disconnected, ∃ x ∈ c.shared.handed, x.2 = conn

def Kept (c : Config Manager ConnectionManager.Task) : Prop :=
  ∀ x ∈ c.shared.handed, 0 < places x c ∨ x.2 ∈ c.shared.disconnected

theorem Custody.unique (h : Custody c) {y : Text × ManagedConnection} (hx : x ∈ c.shared.handed)
    (hy : y ∈ c.shared.handed) (heq : x.2 = y.2) : x = y :=
  List.inj_on_of_nodup_map (List.nodup_append.mp h.numbered.nodup).1 hx hy (congrArg (·.number) heq)

/-- A connection that some call or the map has was not disconnected. -/
theorem Custody.live (h : Custody c) (hx : 0 < places x c) : x.2 ∉ c.shared.disconnected := by
  intro hd
  have hone := h.once x
  rw [if_pos hd] at hone
  omega

/-- A step that moves connections about, or loses them. -/
theorem Custody.move (h : Custody c) (hi : c.tasks[i]? = some t)
    (hn : Numbered m'.opened (m'.handed.map (·.2.number) ++ (c.tasks.set i t').filterMap unhanded))
    (hh : m'.handed = c.shared.handed) (hd : m'.disconnected = c.shared.disconnected)
    (hle : ∀ x, share x m' t' ≤ share x c.shared t) : Custody ⟨m', c.tasks.set i t'⟩ := by
  have hplaces (x : Text × ManagedConnection) : places x ⟨m', c.tasks.set i t'⟩ ≤ places x c := by
    have hstep := places_advance (x := x) m' hi t'
    have hx := hle x
    omega
  refine ⟨hn, fun x => ?_, fun x hx => ?_, ?_⟩
  · simp only [hd]
    exact (Nat.add_le_add_right (hplaces x) _).trans (h.once x)
  · exact hh ▸ h.known x (hx.trans_le (hplaces x))
  · simp only [hh, hd]
    exact h.ended

theorem kept_move_iff (hi : c.tasks[i]? = some t) (hh : m'.handed = c.shared.handed)
    (hd : m'.disconnected = c.shared.disconnected)
    (heq : ∀ x, share x m' t' = share x c.shared t) :
    Kept ⟨m', c.tasks.set i t'⟩ ↔ Kept c := by
  have hplaces (x : Text × ManagedConnection) : places x ⟨m', c.tasks.set i t'⟩ = places x c := by
    have hstep := places_advance (x := x) m' hi t'
    have hx := heq x
    omega
  simp only [Kept, hh, hd, hplaces]

/-- A connection that the step loses is in no place then. -/
theorem not_kept_of_lost (m' : Manager) (t' : ConnectionManager.Task) (h : Custody c)
    (hi : c.tasks[i]? = some t) (hh : m'.handed = c.shared.handed) (hlost : share x m' t' < share x c.shared t)
    (hd : x.2 ∉ m'.disconnected) : ¬Kept ⟨m', c.tasks.set i t'⟩ := by
  intro hkept
  have hstep := places_advance (x := x) m' hi t'
  have hle := share_le_places (x := x) hi
  have hone := h.once x
  have hx : x ∈ m'.handed := hh ▸ h.known x (by omega)
  rcases hkept x hx with hpos | hdisc
  · omega
  · exact hd hdisc

/-- The connection goes to the call that replaces with it. -/
theorem Custody.hand (h : Custody c) (hi : c.tasks[i]? = some t)
    (hn : Numbered m'.opened (m'.handed.map (·.2.number) ++ (c.tasks.set i t').filterMap unhanded))
    (hh : m'.handed = (id, conn) :: c.shared.handed) (hd : m'.disconnected = c.shared.disconnected)
    (hshare : ∀ x, share x m' t' = share x c.shared t + [(id, conn)].count x) :
    Custody ⟨m', c.tasks.set i t'⟩ ∧ (Kept ⟨m', c.tasks.set i t'⟩ ↔ Kept c) := by
  have hplaces (x : Text × ManagedConnection) :
      places x ⟨m', c.tasks.set i t'⟩ = places x c + [(id, conn)].count x := by
    have hstep := places_advance (x := x) m' hi t'
    have hx := hshare x
    omega
  have hnew : conn.number ∉ c.shared.handed.map (·.2.number) := by
    have hnodup := (List.nodup_append.mp hn.nodup).1
    rw [hh] at hnodup
    exact (List.nodup_cons.mp hnodup).1
  have hnone : places (id, conn) c = 0 := by
    by_contra hpos
    exact hnew (List.mem_map_of_mem (f := (·.2.number)) (h.known _ (Nat.pos_of_ne_zero hpos)))
  have hlive : conn ∉ c.shared.disconnected := by
    intro hdisc
    obtain ⟨y, hy, rfl⟩ := h.ended conn hdisc
    exact hnew (List.mem_map_of_mem hy)
  have hother (x : Text × ManagedConnection) (hx : x ≠ (id, conn)) :
      places x ⟨m', c.tasks.set i t'⟩ = places x c := by
    simp [hplaces, Ne.symm hx]
  have hself : places (id, conn) ⟨m', c.tasks.set i t'⟩ = 1 := by
    simp [hplaces, hnone]
  refine ⟨⟨hn, fun x => ?_, fun x hpos => ?_, ?_⟩, ?_⟩
  · by_cases hx : x = (id, conn)
    · subst hx
      simp [hself, hd, hlive]
    · simpa only [hother x hx, hd] using h.once x
  · rw [hh]
    by_cases hx : x = (id, conn)
    · exact hx ▸ List.mem_cons_self
    · exact List.mem_cons_of_mem _ (h.known x (hother x hx ▸ hpos))
  · simp only [hh, hd]
    intro conn' hdisc
    obtain ⟨y, hy, heq⟩ := h.ended conn' hdisc
    exact ⟨y, List.mem_cons_of_mem _ hy, heq⟩
  · have hsame : ∀ x ∈ c.shared.handed, places x ⟨m', c.tasks.set i t'⟩ = places x c := by
      intro x hx
      refine hother x ?_
      rintro rfl
      exact hnew (List.mem_map_of_mem (f := (·.2.number)) hx)
    simp only [Kept, hh, hd, List.forall_mem_cons, hself, Nat.one_pos, true_or, true_and]
    exact forall₂_congr fun x hx => by rw [hsame x hx]

/-- The connection goes from the call that has taken it to its disconnect. -/
theorem Custody.disconnect (h : Custody c) (hi : c.tasks[i]? = some t)
    (hn : Numbered m'.opened (m'.handed.map (·.2.number) ++ (c.tasks.set i t').filterMap unhanded))
    (hh : m'.handed = c.shared.handed) (hd : m'.disconnected = old :: c.shared.disconnected)
    (hshare : ∀ x, share x m' t' + [(id, old)].count x ≤ share x c.shared t) :
    Custody ⟨m', c.tasks.set i t'⟩ := by
  have hplaces (x : Text × ManagedConnection) :
      places x ⟨m', c.tasks.set i t'⟩ + [(id, old)].count x ≤ places x c := by
    have hstep := places_advance (x := x) m' hi t'
    have hx := hshare x
    omega
  have hown : (id, old) ∈ c.shared.handed := by
    refine h.known _ ?_
    have hold := hplaces (id, old)
    simp only [List.count_singleton_self] at hold
    omega
  refine ⟨hn, fun x => ?_, fun x hpos => ?_, ?_⟩
  · have hx := hplaces x
    have hone := h.once x
    by_cases hx' : x = (id, old)
    · subst hx'
      simp only [List.count_singleton_self] at hx
      split <;> omega
    · by_cases hold : x.2 = old
      · have hzero : places x c = 0 := by
          by_contra hpos
          exact hx' (h.unique (h.known x (Nat.pos_of_ne_zero hpos)) hown hold)
        split <;> omega
      · simp only [hd, List.mem_cons, hold, false_or]
        omega
  · have hx := hplaces x
    exact hh ▸ h.known x (by omega)
  · simp only [hh, hd, List.forall_mem_cons]
    exact ⟨⟨_, hown, rfl⟩, h.ended⟩

theorem kept_disconnect_iff (h : Custody c) (hi : c.tasks[i]? = some t)
    (hh : m'.handed = c.shared.handed) (hd : m'.disconnected = old :: c.shared.disconnected)
    (hshare : ∀ x, share x m' t' + [(id, old)].count x = share x c.shared t) :
    Kept ⟨m', c.tasks.set i t'⟩ ↔ Kept c := by
  have hplaces (x : Text × ManagedConnection) :
      places x ⟨m', c.tasks.set i t'⟩ + [(id, old)].count x = places x c := by
    have hstep := places_advance (x := x) m' hi t'
    have hx := hshare x
    have hle := share_le_places (x := x) hi
    omega
  have hpos : 0 < places (id, old) c := by
    have hold := hplaces (id, old)
    simp only [List.count_singleton_self] at hold
    omega
  simp only [Kept, hh, hd]
  refine forall₂_congr fun x hx => ?_
  by_cases hx' : x = (id, old)
  · subst hx'
    simp [hpos]
  · have hne : x.2 ≠ old := fun heq => hx' (h.unique hx (h.known _ hpos) heq)
    have hsame := hplaces x
    simp only [List.count_singleton, beq_eq_false_iff_ne.mpr (Ne.symm hx'), Bool.false_eq_true,
      if_false, Nat.add_zero] at hsame
    simp [hsame, hne]

theorem unhanded_disconnect : unhanded (disconnectManagedConnection id old next) = none := by
  unfold disconnectManagedConnection
  split <;> rfl

/-- A step that leaves every connection where it is, or takes it out of the map. -/
theorem custody_quiet (h : Custody c) (hi : c.tasks[i]? = some t) (ho : m'.opened = c.shared.opened)
    (hh : m'.handed = c.shared.handed) (hd : m'.disconnected = c.shared.disconnected)
    (hu : unhanded t' = unhanded t) (heq : ∀ x, share x m' t' = share x c.shared t) :
    Custody ⟨m', c.tasks.set i t'⟩ ∧ (Kept ⟨m', c.tasks.set i t'⟩ ↔ Kept c) := by
  have hn := h.numbered.keep hi hu
  rw [← ho, ← hh] at hn
  exact ⟨h.move hi hn hh hd fun x => (heq x).le, kept_move_iff hi hh hd heq⟩

/-- A connection that is inserted over is lost. -/
theorem custody_insert (h : Custody c) (hi : c.tasks[i]? = some (.inserting id conn)) :
    Custody ⟨c.shared.insertConnection id conn, c.tasks.set i (.announcing id)⟩ ∧
      (Kept ⟨c.shared.insertConnection id conn, c.tasks.set i (.announcing id)⟩ ↔
        Kept c ∧ keepsConnection c.shared e (.inserting id conn) = true) := by
  refine ⟨h.move hi (h.numbered.keep hi rfl) rfl rfl fun x => inMap_insert_le, ?_⟩
  cases hl : c.shared.connections.lookup id with
  | none =>
    have hmove :
        Kept ⟨c.shared.insertConnection id conn, c.tasks.set i (.announcing id)⟩ ↔ Kept c :=
      kept_move_iff hi rfl rfl fun x => by simp [share, held, inMap_insert_none hl]
    simp [hmove, keepsConnection, hl]
  | some old =>
    have hle := share_le_places (x := (id, old)) hi
    have hin : inMap (id, old) c.shared = 1 := by simp [inMap, hl]
    simp only [share, held, hin] at hle
    have hne : old ≠ conn := by
      rintro rfl
      have hone := h.once (id, old)
      simp only [List.count_singleton_self] at hle
      omega
    have hlost := not_kept_of_lost (x := (id, old)) (c.shared.insertConnection id conn)
      (.announcing id) h hi rfl (by simp [share, held, inMap, insertConnection, hl, Ne.symm hne])
      (h.live (by omega))
    simp [hlost, keepsConnection, hl]

/-- A replacement is lost when the disconnect of its predecessor fails. -/
theorem custody_disconnectFailed {message : Text} (h : Custody c)
    (hi : c.tasks[i]? = some (.disconnecting id old next)) (hk : old.kind ≠ .postgres)
    (hfail : e.disconnect = .error message) :
    Custody ⟨c.shared.disconnect old, c.tasks.set i (.failed message)⟩ ∧
      (Kept ⟨c.shared.disconnect old, c.tasks.set i (.failed message)⟩ ↔
        Kept c ∧ keepsConnection c.shared e (.disconnecting id old next) = true) := by
  cases next with
  | none =>
    have hshare (x : Text × ManagedConnection) :
        share x (c.shared.disconnect old) (.failed message) + [(id, old)].count x =
          share x c.shared (.disconnecting id old none) := rfl
    have hkept : Kept ⟨c.shared.disconnect old, c.tasks.set i (.failed message)⟩ ↔ Kept c :=
      kept_disconnect_iff h hi rfl rfl hshare
    refine ⟨h.disconnect hi (h.numbered.keep hi rfl) rfl rfl fun x => (hshare x).le, ?_⟩
    exact hkept.trans (and_iff_left rfl).symm
  | some conn =>
    have hshare (x : Text × ManagedConnection) :
        share x (c.shared.disconnect old) (.failed message) + [(id, conn)].count x +
          [(id, old)].count x = share x c.shared (.disconnecting id old (some conn)) := by
      simp only [share, held, inMap_disconnect, Option.toList_some, List.map_cons, List.map_nil,
        List.count_cons, List.count_nil]
      omega
    have hle (x : Text × ManagedConnection) :
        share x (c.shared.disconnect old) (.failed message) + [(id, old)].count x ≤
          share x c.shared (.disconnecting id old (some conn)) := by
      have hx := hshare x
      omega
    refine ⟨h.disconnect hi (h.numbered.keep hi rfl) rfl rfl hle, ?_⟩
    · have hle := share_le_places (x := (id, conn)) hi
      have hown := hshare (id, conn)
      have hone := h.once (id, conn)
      simp only [List.count_singleton_self] at hown
      have hne : conn ≠ old := by
        rintro rfl
        simp only [List.count_singleton_self] at hown
        omega
      have hlost := not_kept_of_lost (x := (id, conn)) (c.shared.disconnect old)
        (.failed message) h hi rfl (by omega)
        (by simpa [Manager.disconnect, hne] using h.live (x := (id, conn)) (by omega))
      simp [hlost, keepsConnection, hk, hfail, Except.isOk, Except.toBool]

theorem custody_advance (h : Custody c) (hi : c.tasks[i]? = some t)
    (hs : Transition c.shared e t m' t') : Custody ⟨m', c.tasks.set i t'⟩ ∧
      (Kept ⟨m', c.tasks.set i t'⟩ ↔ Kept c ∧ keepsConnection c.shared e t = true) := by
  have hcond (hk : keepsConnection c.shared e t = true)
      (hp : Custody ⟨m', c.tasks.set i t'⟩ ∧ (Kept ⟨m', c.tasks.set i t'⟩ ↔ Kept c)) :
      Custody ⟨m', c.tasks.set i t'⟩ ∧
        (Kept ⟨m', c.tasks.set i t'⟩ ↔ Kept c ∧ keepsConnection c.shared e t = true) :=
    ⟨hp.1, hp.2.trans (and_iff_left hk).symm⟩
  cases hs with
  | connected =>
    refine hcond rfl ⟨h.move hi (h.numbered.take_fresh hi rfl rfl) rfl rfl fun x => le_rfl, ?_⟩
    exact kept_move_iff hi rfl rfl fun x => rfl
  | cleared =>
    refine hcond rfl (h.hand hi (h.numbered.hand_over hi rfl rfl) rfl rfl fun x => ?_)
    simp [share, held]
  | @opened id kind =>
    have hn : Numbered c.shared.opened (c.shared.handed.map (·.2.number) ++
        (c.tasks.set i (.replacing id (c.shared.openConnection kind).2)).filterMap unhanded) :=
      h.numbered.keep hi rfl
    refine hcond rfl (h.hand hi hn.fresh rfl rfl fun x => ?_)
    simp [share, held]
  | removedPrevious hl =>
    exact hcond rfl (custody_quiet h hi rfl rfl rfl unhanded_disconnect fun x => share_remove hl)
  | taken hl =>
    exact hcond rfl (custody_quiet h hi rfl rfl rfl unhanded_disconnect fun x => share_remove hl)
  | @disconnected id old next hok =>
    have hshare (x : Text × ManagedConnection) :
        share x (c.shared.disconnect old) (.publishing id next) + [(id, old)].count x =
          share x c.shared (.disconnecting id old next) := by
      simp [share, held, List.count_cons, Nat.add_assoc]
    have hkeeps : keepsConnection c.shared e (.disconnecting id old next) = true := by
      cases next with
      | none => rfl
      | some conn =>
        rcases hok with hok | hok <;> simp [keepsConnection, hok, Except.isOk, Except.toBool]
    refine hcond hkeeps
      ⟨h.disconnect hi (h.numbered.keep hi rfl) rfl rfl fun x => (hshare x).le, ?_⟩
    exact kept_disconnect_iff h hi rfl rfl hshare
  | disconnectFailed hk hfail => exact custody_disconnectFailed h hi hk hfail
  | inserted => exact custody_insert h hi
  | answered =>
    refine hcond rfl (custody_quiet h hi ?_ ?_ ?_ rfl fun x => ?_) <;> simp [share, held]
  | _ => exact hcond rfl (custody_quiet h hi rfl rfl rfl rfl fun x => rfl)

theorem custody_act (h : Custody c) (hact : manager.act c a = some c') :
    Custody c' ∧ (Kept c' ↔ Kept c ∧ KeepsConnection c a) := by
  rcases act_cases hact with ⟨t, rfl, ht, rfl⟩ | ⟨i, e, t, m', t', rfl, hi, hs, rfl⟩
  · have hheld : held t = [] := by
      cases t <;> first | rfl | cases ht
    have hu : unhanded t = none := by
      cases t <;> first | rfl | cases ht
    have hplaces (x : Text × ManagedConnection) :
        places x ⟨c.shared, c.tasks ++ [t]⟩ = places x c := by
      simp [places, hheld]
    refine ⟨⟨?_, fun x => ?_, fun x hx => h.known x (hplaces x ▸ hx), h.ended⟩, ?_⟩
    · simpa [List.filterMap_append, hu] using h.numbered
    · rw [hplaces]
      exact h.once x
    · simp only [Kept, hplaces]
      exact (and_iff_left trivial).symm
  · obtain ⟨hcustody, hkept⟩ := custody_advance h hi (step_transition hs)
    refine ⟨hcustody, hkept.trans (and_congr_right fun _ => ?_)⟩
    simp [KeepsConnection, hi]

theorem custody_new : Custody ⟨.new, []⟩ :=
  ⟨.nil, fun x => by simp [places, inMap, Manager.new],
    fun x hx => by simp [places, inMap, Manager.new] at hx, by simp [Manager.new]⟩

theorem inMap_pos : 0 < inMap x m ↔ m.connections.lookup x.1 = some x.2 := by
  unfold inMap
  split <;> simp [*]

theorem kept_iff_accounted (hdone : ∀ t ∈ c.tasks, t.done = true) :
    Kept c ↔ Accounted c.shared := by
  have hheld (x : Text × ManagedConnection) : (c.tasks.map fun t => (held t).count x).sum = 0 := by
    refine sum_map_eq_zero _ fun t ht => ?_
    have hd := hdone t ht
    cases t with
    | started | answered | finished | failed => rfl
    | _ => cases hd
  refine forall₂_congr fun x hx => or_congr_left ?_
  rw [places, hheld, Nat.add_zero, inMap_pos]

/-- When no call is left after a run, every connection ever handed over is the entry of its id or
was disconnected, exactly when the run inserted none over another, and no disconnect failed in a
call that had a replacement. -/
theorem connections_accounted_iff (hr : manager.run ⟨.new, []⟩ as = some d)
    (hdone : ∀ t ∈ d.tasks, t.done = true) :
    Accounted d.shared ↔ manager.Meets KeepsConnection ⟨.new, []⟩ as := by
  rw [← kept_iff_accounted hdone, run_iff (fun c a c' h hact => (custody_act h hact).1)
    (fun c a c' h hact => (custody_act h hact).2) custody_new hr]
  exact and_iff_right (by rintro x ⟨⟩)

def replacedClose : List (Action ConnectionManager.Task Event) :=
  .spawn (.create "c".toList .sftp) :: advances 0 5 ++
    .spawn (.create "c".toList .ssh) :: advances 1 8 ++
    .spawn (.close "c".toList .ssh) :: advances 2 5

theorem connections_accounted_replacedClose : ∃ d, manager.run ⟨.new, []⟩ replacedClose = some d ∧
    d.shared.handed.length = 2 ∧ manager.Meets KeepsConnection ⟨.new, []⟩ replacedClose := by
  have hrun : ∃ d, manager.run ⟨.new, []⟩ replacedClose = some d ∧ (∀ t ∈ d.tasks, t.done = true) ∧
      d.shared.handed.length = 2 ∧ Accounted d.shared := run_decided (by decide +kernel)
  obtain ⟨d, hd, hdone, hlen, hacc⟩ := hrun
  exact ⟨d, hd, hlen, (connections_accounted_iff hd hdone).mp hacc⟩

/-- Two calls create a connection for one id at once. -/
def createdTwice : List (Action ConnectionManager.Task Event) :=
  .spawn (.create "c".toList .ssh) :: .spawn (.create "c".toList .ssh) ::
    (advances 0 4 ++ advances 1 4 ++ advances 0 2 ++ advances 1 2)

/-- The first connection is in the map no longer, and nobody has disconnected it. -/
theorem createdTwice_drops : ∃ d, manager.run ⟨.new, []⟩ createdTwice = some d ∧
    (∀ t ∈ d.tasks, t.done = true) ∧ ¬Accounted d.shared := run_decided (by decide +kernel)

end SshCommander.DroppedConnections
