import SshCommander.KnownHostsFile

/-!
# The store of host keys as a map that outlives the store

A run of `verify`, `trust`, `forget` and restarts on one path answers as a map from host and port
to key blob does, which trusting and forgetting change at their own host and port only.
-/

namespace SshCommander.HostKeyRestarts
open RustText KnownHosts

/-- What a host name that can be resolved, or an address literal, guarantees. -/
structure Resolvable (host : Text) : Prop where
  word : Word host
  plain : host.head? ≠ some '#' ∧ host.head? ≠ some '['

def portText (port : UInt16) : Text := (toString port.toNat).toList

theorem isDigit_portText {port : UInt16} {c : Char} (h : c ∈ portText port) : c.isDigit := by
  apply Nat.isDigit_of_mem_toDigits (b := 10) (n := port.toNat) (by decide) (by decide)
  simpa [portText] using h

theorem portText_injective {port port' : UInt16} (h : portText port = portText port') :
    port = port' := by
  apply UInt16.toNat_inj.mp
  have hdigits : Nat.toDigits 10 port.toNat = Nat.toDigits 10 port'.toNat := by
    simpa [portText] using h
  rw [← Nat.ofDigitChars_ten_toDigits (n := port.toNat), hdigits, Nat.ofDigitChars_ten_toDigits]

theorem bracket_notMem_portText (port : UInt16) : ']' ∉ portText port := by
  intro h
  exact absurd (isDigit_portText h) (by decide)

/-- The last `]` of an id tells the host from the port. -/
theorem bracketed_injective {host host' tail tail' : Text} (ht : ']' ∉ tail) (ht' : ']' ∉ tail')
    (h : host ++ ']' :: tail = host' ++ ']' :: tail') : host = host' ∧ tail = tail' := by
  rcases List.append_eq_append_iff.mp h with ⟨m, hm, hcut⟩ | ⟨m, hm, hcut⟩
  · cases m with
    | nil => simp_all
    | cons c m =>
      obtain ⟨rfl, htail⟩ := List.cons_eq_cons.mp hcut
      exact absurd (by simp [htail]) ht
  · cases m with
    | nil => simp_all
    | cons c m =>
      obtain ⟨rfl, htail⟩ := List.cons_eq_cons.mp hcut
      exact absurd (by simp [htail]) ht'

theorem makeKey_port {port : UInt16} (h : port ≠ 22) (host : Text) :
    makeKey host port = '[' :: host ++ ']' :: ':' :: portText port := by
  rw [makeKey, if_neg h]
  simp [portText]

theorem makeKey_default (host : Text) : makeKey host 22 = host := rfl

/-- Each host and port has its own id. -/
theorem makeKey_injective {host host' : Text} {port port' : UInt16} (hh : Resolvable host)
    (hh' : Resolvable host') (h : makeKey host port = makeKey host' port') :
    host = host' ∧ port = port' := by
  by_cases hp : port = 22
  · subst hp
    by_cases hp' : port' = 22
    · subst hp'
      exact ⟨h, rfl⟩
    · rw [makeKey_default, makeKey_port hp'] at h
      exact absurd (by simp [h]) hh.plain.2
  · by_cases hp' : port' = 22
    · subst hp'
      rw [makeKey_default, makeKey_port hp] at h
      exact absurd (by simp [← h]) hh'.plain.2
    · rw [makeKey_port hp, makeKey_port hp', List.cons_append, List.cons_append,
        List.cons.injEq] at h
      have hbracket (port : UInt16) : ']' ∉ ':' :: portText port := by
        rw [List.mem_cons]
        rintro (h | h)
        · exact absurd h (by decide)
        · exact bracket_notMem_portText port h
      obtain ⟨hhost, htail⟩ := bracketed_injective (hbracket port) (hbracket port') h.2
      exact ⟨hhost, portText_injective (List.cons_eq_cons.mp htail).2⟩

theorem storable_makeKey {host : Text} (h : Resolvable host) (port : UInt16) :
    StorableId (makeKey host port) := by
  by_cases hp : port = 22
  · subst hp
    exact ⟨h.word, h.plain.1⟩
  · rw [makeKey_port hp]
    refine ⟨⟨by simp, ?_⟩, by simp⟩
    intro c hc
    simp only [List.cons_append, List.mem_cons, List.mem_append] at hc
    rcases hc with rfl | hc | rfl | rfl | hc
    · rfl
    · exact h.word.solid c hc
    · rfl
    · rfl
    · exact isWhitespace_digit (isDigit_portText hc)

/-- What the store is for: the key blob trusted for each host and port. -/
abbrev TrustedKeys := Text → UInt16 → Option Text

def TrustedKeys.set (m : TrustedKeys) (host : Text) (port : UInt16) (blob : Option Text) :
    TrustedKeys :=
  fun host' port' => if host' = host ∧ port' = port then blob else m host' port'

@[simp] theorem TrustedKeys.set_own (m : TrustedKeys) (host : Text) (port : UInt16)
    (blob : Option Text) : m.set host port blob host port = blob :=
  if_pos ⟨rfl, rfl⟩

/-- Every other host and port keeps its key. -/
theorem TrustedKeys.set_other (m : TrustedKeys) {host host' : Text} {port port' : UInt16}
    (h : ¬(host' = host ∧ port' = port)) (blob : Option Text) :
    m.set host port blob host' port' = m host' port' :=
  if_neg h

inductive Call (Key : Type) where
  | verify (host : Text) (port : UInt16) (key : Key)
  | trust (host : Text) (port : UInt16) (key : Key)
  | forget (host : Text) (port : UInt16)
  | restart

inductive Answer where
  | verdict (verdict : Verdict)
  | trusted
  | forgotten (removed : Bool)
  | restarted
  deriving DecidableEq

variable {Key : Type} (K : KeyFormat Key)

namespace Call

def host? : Call Key → Option Text
  | verify host _ _ | trust host _ _ | forget host _ => some host
  | restart => none

def onMap (m : TrustedKeys) : Call Key → TrustedKeys × Answer
  | verify host port key => (m, .verdict (verdictOf K (m host port) key))
  | trust host port key => (m.set host port (some (K.publicKeyBase64 key)), .trusted)
  | forget host port => (m.set host port none, .forgotten (m host port).isSome)
  | restart => (m, .restarted)

/-- A call on the store of a path and its file, where every write succeeds. A restart is a new
store on the same path. -/
def onStore (store : HostKeyStore) (file : File) :
    Call Key → HostKeyStore × File × Except Text Answer
  | verify host port key =>
    let (store', verdict) := store.verify K file host port key
    (store', file, verdict.map .verdict)
  | trust host port key =>
    let (store', file', done) := store.trust K file host port key .done
    (store', file', done.map fun _ => .trusted)
  | forget host port =>
    let (store', file', removed) := store.forget file host port .done
    (store', file', removed.map .forgotten)
  | restart => (new store.path, file, .ok .restarted)

def answersOnMap (m : TrustedKeys) : List (Call Key) → List Answer
  | [] => []
  | call :: calls => (call.onMap K m).2 :: answersOnMap (call.onMap K m).1 calls

def answersOnStore (store : HostKeyStore) (file : File) :
    List (Call Key) → List (Except Text Answer)
  | [] => []
  | call :: calls =>
    let after := call.onStore K store file
    after.2.2 :: answersOnStore after.1 after.2.1 calls

end Call

def parsed (content : Text) : TrustedKeys :=
  fun host port => ((lines content).foldl loadLine ∅).lookup (makeKey host port)

/-- What the store works with is what its file holds, and both stand for the map. -/
structure Follows (m : TrustedKeys) (store : HostKeyStore) (file : File) (e d : Entries) :
    Prop where
  memory : store.entries file = .ok e
  disk : loadFromDisk store.path file = .ok d
  same : Same e d
  stands : ∀ host port, Resolvable host → e.lookup (makeKey host port) = m host port

variable {K} {m : TrustedKeys} {store : HostKeyStore} {file : File} {e d : Entries}

theorem Follows.storable (h : Follows m store file e d) : Storable e :=
  h.same.symm.storable (storable_load h.disk)

/-- A write of what stands for a map leaves a store that follows it. -/
theorem follows_written (store : HostKeyStore) {snapshot : Entries} (hs : Storable snapshot)
    (hm : ∀ host port, Resolvable host → snapshot.lookup (makeKey host port) = m host port) :
    ∃ d', Follows m { store with state := some snapshot } (.text (render snapshot)) snapshot d' := by
  obtain ⟨d', hd, hsame⟩ := load_render store.path hs
  exact ⟨d', rfl, hd, hsame.symm, hm⟩

/-- Writing at one host and port is writing at its id. -/
theorem stands_set (h : Follows m store file e d) {host : Text} {port : UInt16}
    (hhost : Resolvable host) {snapshot : Entries} {blob : Option Text}
    (hown : snapshot.lookup (makeKey host port) = blob)
    (hother : ∀ id, id ≠ makeKey host port → snapshot.lookup id = e.lookup id) :
    ∀ host' port', Resolvable host' →
      snapshot.lookup (makeKey host' port') = m.set host port blob host' port' := by
  intro host' port' hhost'
  by_cases hid : host' = host ∧ port' = port
  · obtain ⟨rfl, rfl⟩ := hid
    rw [hown, TrustedKeys.set_own]
  · have hne : makeKey host' port' ≠ makeKey host port := fun heq =>
      hid (makeKey_injective hhost' hhost heq)
    rw [hother _ hne, h.stands host' port' hhost', m.set_other hid]

theorem follows_verify (h : Follows m store file e d) (host : Text) (port : UInt16) (key : Key)
    (hhost : Resolvable host) :
    (store.verify K file host port key).2 = .ok (verdictOf K (m host port) key) ∧
      Follows m (store.verify K file host port key).1 file e d := by
  simp only [HostKeyStore.verify, h.memory]
  constructor
  · rw [h.stands host port hhost]
  · exact ⟨rfl, h.disk, h.same, h.stands⟩

theorem follows_trust (hbase64 : ∀ key, Word (K.publicKeyBase64 key))
    (h : Follows m store file e d) (host : Text) (port : UInt16) (key : Key)
    (hhost : Resolvable host) :
    (store.trust K file host port key .done).2.2 = .ok () ∧
      ∃ e' d', Follows (m.set host port (some (K.publicKeyBase64 key)))
        (store.trust K file host port key .done).1 (store.trust K file host port key .done).2.1
        e' d' := by
  have hword := hbase64 key
  have hentry : StorableEntry (makeKey host port, K.publicKeyBase64 key) := by
    refine ⟨storable_makeKey hhost port, hword.trimmed, ?_⟩
    intro hm
    exact absurd (hword.solid _ hm) (by decide)
  rw [HostKeyStore.trust_done h.memory]
  constructor
  · rfl
  · obtain ⟨d', hd⟩ := follows_written store (h.storable.insert hentry)
      (stands_set h hhost (AList.lookup_insert e) fun id hid => AList.lookup_insert_ne hid)
    exact ⟨_, d', hd⟩

theorem follows_forget (h : Follows m store file e d) (host : Text) (port : UInt16)
    (hhost : Resolvable host) :
    (store.forget file host port .done).2.2 = .ok (m host port).isSome ∧
      ∃ e' d', Follows (m.set host port none) (store.forget file host port .done).1
        (store.forget file host port .done).2.1 e' d' := by
  have hid := h.stands host port hhost
  simp only [HostKeyStore.forget, h.memory, hid]
  cases hm : m host port with
  | none =>
    rw [if_neg (by simp)]
    refine ⟨rfl, e, d, rfl, h.disk, h.same, ?_⟩
    exact stands_set h hhost (hid.trans hm) fun id _ => rfl
  | some blob =>
    rw [Option.isSome_some, if_pos rfl]
    simp only [HostKeyStore.commit, HostKeyStore.writeToDisk_done]
    constructor
    · trivial
    · obtain ⟨d', hd⟩ := follows_written store (h.storable.erase _)
        (stands_set h hhost (AList.lookup_erase (makeKey host port) e) fun id hne =>
          AList.lookup_erase_ne hne)
      exact ⟨_, d', hd⟩

/-- One call answers as the map does and leaves a store that follows the map. -/
theorem follows_call (hbase64 : ∀ key, Word (K.publicKeyBase64 key))
    (h : Follows m store file e d) (call : Call Key) (hhost : ∀ host ∈ call.host?, Resolvable host) :
    (call.onStore K store file).2.2 = .ok (call.onMap K m).2 ∧
      ∃ e' d', Follows (call.onMap K m).1 (call.onStore K store file).1
        (call.onStore K store file).2.1 e' d' := by
  cases call with
  | verify host port key =>
    obtain ⟨hanswer, hfollows⟩ := follows_verify (K := K) h host port key (hhost host rfl)
    constructor
    · simp only [Call.onStore, hanswer]
      rfl
    · exact ⟨e, d, hfollows⟩
  | trust host port key =>
    obtain ⟨hanswer, hfollows⟩ := follows_trust hbase64 h host port key (hhost host rfl)
    constructor
    · simp only [Call.onStore, hanswer]
      rfl
    · exact hfollows
  | forget host port =>
    obtain ⟨hanswer, hfollows⟩ := follows_forget h host port (hhost host rfl)
    constructor
    · simp only [Call.onStore, hanswer]
      rfl
    · exact hfollows
  | restart =>
    constructor
    · rfl
    · exact ⟨d, d, h.disk, h.disk, fun _ => rfl, fun host port hh =>
        (h.same _).symm.trans (h.stands host port hh)⟩

theorem follows_answers (hbase64 : ∀ key, Word (K.publicKeyBase64 key)) (calls : List (Call Key))
    (hhosts : ∀ call ∈ calls, ∀ host ∈ call.host?, Resolvable host)
    (h : Follows m store file e d) :
    Call.answersOnStore K store file calls = (Call.answersOnMap K m calls).map .ok := by
  induction calls generalizing m store file e d with
  | nil => rfl
  | cons call calls ih =>
    obtain ⟨hanswer, e', d', hfollows⟩ := follows_call hbase64 h call (hhosts call (by simp))
    rw [Call.answersOnStore, Call.answersOnMap, List.map_cons, hanswer,
      ih (fun c hc => hhosts c (by simp [hc])) hfollows]

/-- A run of calls on a store answers as the map of its file does, restarts and all. -/
theorem answersOnStore_eq (K : KeyFormat Key) (hbase64 : ∀ key, Word (K.publicKeyBase64 key))
    (path : StorePath) (content : Text) (calls : List (Call Key))
    (hhosts : ∀ call ∈ calls, ∀ host ∈ call.host?, Resolvable host) :
    Call.answersOnStore K (new path) (.text content) calls =
      (Call.answersOnMap K (parsed content) calls).map .ok := by
  have hfollows : Follows (parsed content) (new path) (.text content)
      ((lines content).foldl loadLine ∅) ((lines content).foldl loadLine ∅) :=
    ⟨rfl, rfl, fun _ => rfl, fun _ _ _ => rfl⟩
  exact follows_answers hbase64 calls hhosts hfollows

def twoKeys : KeyFormat Bool where
  publicKeyBase64 key := if key then "AAAA".toList else "BBBB".toList
  fingerprint key := if key then "SHA256:A".toList else "SHA256:B".toList
  parsePublicKeyBase64 blob :=
    if blob = "AAAA".toList then some true
    else if blob = "BBBB".toList then some false
    else none
  parse_base64 key := by cases key <;> decide

theorem word_twoKeys (key : Bool) : Word (twoKeys.publicKeyBase64 key) := by
  cases key <;> exact word_of_all (by decide) (by decide)

def oldFile : Text := "# notes\n\nlonely\nh  AAAA\n[h]:2222 AA BB\nh BBBB".toList

def laterCalls : List (Call Bool) :=
  [.trust "h".toList 2222 true, .restart, .verify "h".toList 22 false, .forget "h".toList 22,
    .restart, .verify "h".toList 22 true, .verify "h".toList 2222 true]

theorem answersOnStore_eq_laterCalls :
    Call.answersOnStore twoKeys (new ⟨"known_hosts".toList, none⟩) (.text oldFile) laterCalls =
      (Call.answersOnMap twoKeys (parsed oldFile) laterCalls).map .ok := by
  apply answersOnStore_eq twoKeys word_twoKeys
  intro call hcall host hhost
  obtain rfl : host = "h".toList := by
    simp only [laterCalls, List.mem_cons, List.not_mem_nil, or_false] at hcall
    rcases hcall with rfl | rfl | rfl | rfl | rfl | rfl | rfl <;> simp_all [Call.host?]
  exact ⟨word_of_all (by decide) (by decide), by decide⟩

end SshCommander.HostKeyRestarts
