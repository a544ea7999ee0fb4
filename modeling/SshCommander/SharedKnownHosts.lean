import SshCommander.HostKeyRestarts

/-!
# Several stores on one known_hosts file

Each store writes back the whole map it once loaded. A key that was trusted last stays on disk
where every writing store holds what the file holds for the other hosts.
-/

namespace SshCommander.SharedKnownHosts
open RustText KnownHosts HostKeyRestarts

variable {Key : Type} (K : KeyFormat Key)

/-- The stores of one path, any number of them, and their file. -/
structure Shared where
  stores : ℕ → HostKeyStore
  file : File

def Shared.call (x : Shared) (i : ℕ) (call : Call Key) : Shared :=
  let after := call.onStore K (x.stores i) x.file
  ⟨fun j => if j = i then after.1 else x.stores j, after.2.1⟩

def Shared.calls (x : Shared) (calls : List (ℕ × Call Key)) : Shared :=
  calls.foldl (fun x c => x.call K c.1 c.2) x

def unused (path : StorePath) (file : File) : Shared := ⟨fun _ => new path, file⟩

def Changes (host : Text) (port : UInt16) : Call Key → Prop
  | .trust host' port' _ | .forget host' port' => host' = host ∧ port' = port
  | _ => False

/-- The last `trust` or `forget` of the host and port trusted the key. -/
def LastTrusted (calls : List (ℕ × Call Key)) (host : Text) (port : UInt16) (key : Key) : Prop :=
  ∃ before i after, calls = before ++ (i, .trust host port key) :: after ∧
    ∀ c ∈ after, ¬Changes host port c.2

/-- The id a call writes for, if it writes: a `forget` of an id its store does not hold writes
nothing. -/
def writes (e : Entries) : Call Key → Option Text
  | .trust host port _ => some (makeKey host port)
  | .forget host port =>
    if (e.lookup (makeKey host port)).isSome then some (makeKey host port) else none
  | _ => none

/-- Where store `i` writes, it holds every entry that the file has for another host. -/
def UpToDate (x : Shared) (i : ℕ) (call : Call Key) : Prop :=
  ∀ e d, (x.stores i).entries x.file = .ok e → loadFromDisk (x.stores i).path x.file = .ok d →
    ∀ id ∈ writes e call, ∀ other, other ≠ id → ∀ blob, d.lookup other = some blob →
      e.lookup other = some blob

def Each (good : Shared → ℕ → Call Key → Prop) : Shared → List (ℕ × Call Key) → Prop
  | _, [] => True
  | x, c :: cs => good x c.1 c.2 ∧ Each good (x.call K c.1 c.2) cs

structure Backed (path : StorePath) (m : TrustedKeys) (x : Shared) : Prop where
  paths : ∀ i, (x.stores i).path = path
  memory : ∀ i e, (x.stores i).state = some e → Storable e
  disk : ∃ d, loadFromDisk path x.file = .ok d ∧
    ∀ host port, Resolvable host → ∀ blob, m host port = some blob →
      d.lookup (makeKey host port) = some blob

variable {K} {path : StorePath} {m : TrustedKeys} {x : Shared}

/-- A store that holds what the file holds may write. -/
theorem upToDate_of_entries {i : ℕ} (call : Call Key)
    (h : (x.stores i).entries x.file = loadFromDisk (x.stores i).path x.file) :
    UpToDate x i call := by
  intro e d he hd id _ other _ blob hb
  obtain rfl : e = d := Except.ok.inj (he.symm.trans (h.trans hd))
  exact hb

theorem Backed.entries (h : Backed path m x) (i : ℕ) :
    ∃ e, (x.stores i).entries x.file = .ok e ∧ Storable e := by
  obtain ⟨d, hd, -⟩ := h.disk
  rw [HostKeyStore.entries]
  cases hs : (x.stores i).state with
  | none => exact ⟨d, by rw [h.paths i]; exact hd, storable_load hd⟩
  | some e => exact ⟨e, rfl, h.memory i e hs⟩

/-- A call that leaves its store with storable entries and the file with what was trusted. -/
theorem Backed.after (h : Backed path m x) {m' : TrustedKeys} (i : ℕ) (store : HostKeyStore)
    {file : File} {d : Entries} (hpath : store.path = path)
    (hmemory : ∀ e, store.state = some e → Storable e) (hload : loadFromDisk path file = .ok d)
    (hdisk : ∀ host port, Resolvable host → ∀ blob, m' host port = some blob →
      d.lookup (makeKey host port) = some blob) :
    Backed path m' ⟨fun j => if j = i then store else x.stores j, file⟩ := by
  refine ⟨?_, ?_, d, hload, hdisk⟩
  · intro j
    by_cases hj : j = i
    · simp only [hj, if_true, hpath]
    · simp only [hj, if_false, h.paths j]
  · intro j e he
    by_cases hj : j = i
    · simp only [hj, if_true] at he
      exact hmemory e he
    · simp only [hj, if_false] at he
      exact h.memory j e he

/-- A snapshot that differs from the file at the id of the call only keeps what was trusted. -/
theorem Backed.written (h : Backed path m x) (i : ℕ) {host : Text} {port : UInt16}
    {blob : Option Text} {snapshot : Entries} (hhost : Resolvable host) (hs : Storable snapshot)
    (hown : ∀ b, blob = some b → snapshot.lookup (makeKey host port) = some b)
    (hother : ∀ d, loadFromDisk path x.file = .ok d → ∀ id, id ≠ makeKey host port →
      ∀ b, d.lookup id = some b → snapshot.lookup id = some b) :
    Backed path (m.set host port blob)
      ⟨fun j => if j = i then { x.stores i with state := some snapshot } else x.stores j,
        .text (render snapshot)⟩ := by
  obtain ⟨d, hd, hm⟩ := h.disk
  obtain ⟨d', hd', hsame⟩ := load_render path hs
  apply h.after i { x.stores i with state := some snapshot } (h.paths i)
    (fun e he => Option.some.inj he ▸ hs) hd'
  intro host' port' hhost' b hb
  rw [hsame]
  by_cases hid : host' = host ∧ port' = port
  · obtain ⟨rfl, rfl⟩ := hid
    exact hown b (by rwa [TrustedKeys.set_own] at hb)
  · rw [m.set_other hid] at hb
    have hne : makeKey host' port' ≠ makeKey host port := fun heq =>
      hid (makeKey_injective hhost' hhost heq)
    exact hother d hd _ hne b (hm host' port' hhost' b hb)

/-- Forgetting only takes away. -/
theorem Backed.forgotten (h : Backed path m x) (host : Text) (port : UInt16) :
    Backed path (m.set host port none) x := by
  obtain ⟨d, hd, hm⟩ := h.disk
  refine ⟨h.paths, h.memory, d, hd, ?_⟩
  intro host' port' hhost' b hb
  by_cases hid : host' = host ∧ port' = port
  · obtain ⟨rfl, rfl⟩ := hid
    rw [TrustedKeys.set_own] at hb
    cases hb
  · rw [m.set_other hid] at hb
    exact hm host' port' hhost' b hb

/-- Having loaded the file changes nothing. -/
theorem Backed.loaded (h : Backed path m x) (i : ℕ) {e : Entries} (hs : Storable e) :
    Backed path m ⟨fun j => if j = i then { x.stores i with state := some e } else x.stores j,
      x.file⟩ := by
  obtain ⟨d, hd, hm⟩ := h.disk
  exact h.after i { x.stores i with state := some e } (h.paths i)
    (fun e' he => Option.some.inj he ▸ hs) hd hm

theorem backed_call (hbase64 : ∀ key, Word (K.publicKeyBase64 key)) (h : Backed path m x) (i : ℕ)
    (call : Call Key) (hhost : ∀ host ∈ call.host?, Resolvable host) (hup : UpToDate x i call) :
    Backed path (call.onMap K m).1 (x.call K i call) := by
  obtain ⟨e, he, hs⟩ := h.entries i
  cases call with
  | verify host port key =>
    simp only [Shared.call, Call.onStore, HostKeyStore.verify, he]
    exact h.loaded i hs
  | trust host port key =>
    have hresolvable := hhost host rfl
    have hword := hbase64 key
    have hentry : StorableEntry (makeKey host port, K.publicKeyBase64 key) := by
      refine ⟨storable_makeKey hresolvable port, hword.trimmed, ?_⟩
      intro hm
      exact absurd (hword.solid _ hm) (by decide)
    simp only [Shared.call, Call.onStore, HostKeyStore.trust_done he]
    apply h.written i hresolvable (hs.insert hentry)
    · intro b hb
      rw [AList.lookup_insert, Option.some.inj hb]
    · intro d hd id hid b hb
      rw [AList.lookup_insert_ne hid]
      exact hup e d he (by rw [h.paths i]; exact hd) _ rfl id hid b hb
  | forget host port =>
    have hresolvable := hhost host rfl
    simp only [Shared.call, Call.onStore, HostKeyStore.forget, he]
    cases hheld : e.lookup (makeKey host port) with
    | none =>
      simp only [Option.isSome_none, Bool.false_eq_true, if_false]
      exact (h.loaded i hs).forgotten host port
    | some held =>
      simp only [Option.isSome_some, if_true, HostKeyStore.commit, HostKeyStore.writeToDisk_done]
      apply h.written i hresolvable (hs.erase _)
      · intro b hb
        cases hb
      · intro d hd id hid b hb
        rw [AList.lookup_erase_ne hid]
        have hwrites : makeKey host port ∈ writes e (.forget host port : Call Key) := by
          simp [writes, hheld]
        exact hup e d he (by rw [h.paths i]; exact hd) _ hwrites id hid b hb
  | restart =>
    obtain ⟨d, hd, hm⟩ := h.disk
    exact h.after i (new (x.stores i).path) (h.paths i) (fun e he => by cases he) hd hm

def mapAfter (K : KeyFormat Key) (m : TrustedKeys) (calls : List (ℕ × Call Key)) : TrustedKeys :=
  calls.foldl (fun m c => (c.2.onMap K m).1) m

theorem backed_calls (hbase64 : ∀ key, Word (K.publicKeyBase64 key)) (calls : List (ℕ × Call Key))
    (hhosts : ∀ c ∈ calls, ∀ host ∈ c.2.host?, Resolvable host)
    (h : Backed path m x) (hup : Each K UpToDate x calls) :
    Backed path (mapAfter K m calls) (x.calls K calls) := by
  induction calls generalizing m x with
  | nil => exact h
  | cons c cs ih =>
    have hstep := backed_call hbase64 h c.1 c.2 (hhosts c (by simp)) hup.1
    exact ih (fun c' hc' => hhosts c' (by simp [hc'])) hstep hup.2

theorem mapAfter_of_unchanged {host : Text} {port : UInt16} {calls : List (ℕ × Call Key)}
    (h : ∀ c ∈ calls, ¬Changes host port c.2) :
    mapAfter K m calls host port = m host port := by
  induction calls generalizing m with
  | nil => rfl
  | cons c cs ih =>
    have hc := h c (by simp)
    rw [mapAfter, List.foldl_cons, ← mapAfter, ih fun c' hc' => h c' (by simp [hc'])]
    obtain ⟨i, call⟩ := c
    cases call with
    | verify host' port' key => rfl
    | trust host' port' key =>
      apply m.set_other
      rintro ⟨rfl, rfl⟩
      exact hc ⟨rfl, rfl⟩
    | forget host' port' =>
      apply m.set_other
      rintro ⟨rfl, rfl⟩
      exact hc ⟨rfl, rfl⟩
    | restart => rfl

theorem mapAfter_of_lastTrusted {host : Text} {port : UInt16} {key : Key}
    {calls : List (ℕ × Call Key)} (h : LastTrusted calls host port key) :
    mapAfter K m calls host port = some (K.publicKeyBase64 key) := by
  obtain ⟨before, i, after, rfl, hafter⟩ := h
  rw [mapAfter, List.foldl_append, List.foldl_cons, ← mapAfter, mapAfter_of_unchanged hafter]
  exact TrustedKeys.set_own _ host port _

theorem unused_backed (path : StorePath) {file : File} (hfile : file ≠ .unreadable) :
    Backed path (fun _ _ => none) (unused path file) := by
  have hload : ∃ d, loadFromDisk path file = .ok d := by
    cases file with
    | missing => exact ⟨_, rfl⟩
    | unreadable => exact absurd rfl hfile
    | text content => exact ⟨_, rfl⟩
  obtain ⟨d, hd⟩ := hload
  refine ⟨fun _ => rfl, ?_, d, hd, ?_⟩
  · intro i e he
    cases he
  · intro host port _ blob hb
    cases hb

/-- A new store knows the keys that were trusted last, after a run whose writing stores were up to
date. -/
theorem lastTrusted_known (K : KeyFormat Key) (hbase64 : ∀ key, Word (K.publicKeyBase64 key))
    (path : StorePath) (file : File) (hfile : file ≠ .unreadable) (calls : List (ℕ × Call Key))
    (hhosts : ∀ c ∈ calls, ∀ host ∈ c.2.host?, Resolvable host)
    (hup : Each K UpToDate (unused path file) calls) (host : Text) (port : UInt16) (key : Key)
    (hlast : LastTrusted calls host port key) :
    ((new path).verify K ((unused path file).calls K calls).file host port key).2 = .ok .known := by
  have hbacked := backed_calls hbase64 calls hhosts (unused_backed path hfile) hup
  have hm : mapAfter K (fun _ _ => none) calls host port = some (K.publicKeyBase64 key) :=
    mapAfter_of_lastTrusted hlast
  have hhost : Resolvable host := by
    obtain ⟨before, i, after, rfl, -⟩ := hlast
    exact hhosts (i, .trust host port key) (by simp) host rfl
  obtain ⟨d, hd, hdisk⟩ := hbacked.disk
  have hentries : (new path).entries ((unused path file).calls K calls).file = .ok d := hd
  simp only [HostKeyStore.verify, hentries, hdisk host port hhost _ hm, verdictOf, if_true]

theorem resolvable_letter {host : Text} (h : host = ['a'] ∨ host = ['b']) : Resolvable host := by
  rcases h with rfl | rfl <;> exact ⟨word_of_all (by decide) (by decide), by decide⟩

/-- The first store trusts a host and the second, having loaded the file after that, another. -/
def takingTurns : List (ℕ × Call Bool) :=
  [(0, .trust ['a'] 22 true), (1, .verify ['b'] 22 true), (1, .trust ['b'] 22 true)]

theorem resolvable_takingTurns :
    ∀ c ∈ takingTurns, ∀ host ∈ c.2.host?, Resolvable host := by
  intro c hc host hhost
  apply resolvable_letter
  simp only [takingTurns, List.mem_cons, List.not_mem_nil, or_false] at hc
  rcases hc with rfl | rfl | rfl <;> simp_all [Call.host?]

theorem upToDate_takingTurns (path : StorePath) :
    Each twoKeys UpToDate (unused path .missing) takingTurns := by
  refine ⟨?_, ?_, ?_, trivial⟩
  · exact upToDate_of_entries _ rfl
  · exact upToDate_of_entries _ rfl
  · exact upToDate_of_entries _ rfl

theorem lastTrusted_known_takingTurns :
    ((new ⟨"known_hosts".toList, none⟩).verify twoKeys
      ((unused ⟨"known_hosts".toList, none⟩ .missing).calls twoKeys takingTurns).file
        ['a'] 22 true).2 = .ok .known := by
  apply lastTrusted_known twoKeys word_twoKeys _ _ (by decide) takingTurns resolvable_takingTurns
  · exact upToDate_takingTurns _
  · refine ⟨[], 0, takingTurns.tail, rfl, ?_⟩
    intro c hc
    simp only [takingTurns, List.tail_cons, List.mem_cons, List.not_mem_nil, or_false] at hc
    rcases hc with rfl | rfl <;> simp [Changes]

def crossed : List (ℕ × Call Bool) :=
  [(0, .verify ['a'] 22 true), (1, .verify ['b'] 22 true), (0, .trust ['a'] 22 true),
    (1, .trust ['b'] 22 true)]

/-- The second store writes back the map it loaded before the first trusted its host. -/
theorem crossed_unknown :
    (∀ c ∈ crossed, ∀ host ∈ c.2.host?, Resolvable host) ∧ LastTrusted crossed ['a'] 22 true ∧
      ((new ⟨"known_hosts".toList, none⟩).verify twoKeys
        ((unused ⟨"known_hosts".toList, none⟩ .missing).calls twoKeys crossed).file
          ['a'] 22 true).2.toOption = some .unknown := by
  refine ⟨?_, ?_, ?_⟩
  · intro c hc host hhost
    apply resolvable_letter
    simp only [crossed, List.mem_cons, List.not_mem_nil, or_false] at hc
    rcases hc with rfl | rfl | rfl | rfl <;> simp_all [Call.host?]
  · refine ⟨crossed.take 2, 0, crossed.drop 3, rfl, ?_⟩
    intro c hc
    obtain rfl : c = (1, .trust ['b'] 22 true) := by simpa [crossed] using hc
    simp [Changes]
  · decide +kernel

end SshCommander.SharedKnownHosts
