import SshCommander.InterleavedTasks
import SshCommander.KnownHosts

/-!
# Trust on first use under concurrent handshakes

`Client::check_server_key` verifies a key and trusts an unknown one in two sections of the store,
so another handshake can trust its own key in between. The accepted keys of a host are all one
key exactly when no handshake overwrites what another has trusted.
-/

namespace SshCommander.ServerKeyCheck
open InterleavedTasks InterleavedTasks.TaskSystem RustText KnownHosts KnownHosts.HostKeyStore

structure HostKeyMismatch where
  host : Text
  port : UInt16
  expectedFingerprint : Text
  gotFingerprint : Text
  storePath : Text
  deriving DecidableEq, Repr

structure HostKeyStoreAccessError where
  host : Text
  port : UInt16
  storePath : Text
  operation : Text
  source : Text
  deriving DecidableEq, Repr

inductive HostKeyVerificationFailure where
  | mismatch (m : HostKeyMismatch)
  | storeAccess (e : HostKeyStoreAccessError)
  deriving DecidableEq, Repr

structure Client (Key : Type) where
  host : Text
  port : UInt16
  key : Key

/-- Where a handshake stands; a returned one has its answer and its failure slot. -/
inductive Task (Key : Type) where
  | verifying (client : Client Key)
  | trusting (client : Client Key)
  | returned (client : Client Key) (answer : Except Text Bool)
      (slot : Option HostKeyVerificationFailure)
  | forgetting (host : Text) (port : UInt16)
  | forgot (answer : Except Text Bool)

structure Shared where
  store : HostKeyStore
  file : File

variable {Key : Type} (K : KeyFormat Key)

def accessFailure (x : Shared) (client : Client Key) (operation source : Text) :
    HostKeyVerificationFailure :=
  .storeAccess ⟨client.host, client.port, x.store.path.display, operation, source⟩

def afterVerify (x : Shared) (client : Client Key) : Except Text Verdict → Task Key
  | .ok .known => .returned client (.ok true) none
  | .ok .unknown => .trusting client
  | .ok (.mismatch expected got) =>
    .returned client (.ok false)
      (some (.mismatch ⟨client.host, client.port, expected, got, x.store.path.display⟩))
  | .error e =>
    .returned client (.error "failed to access SSH host-key store".toList)
      (some (accessFailure x client "read".toList e))

def afterTrust (x : Shared) (client : Client Key) : Except Text Unit → Task Key
  | .ok () => .returned client (.ok true) none
  | .error e =>
    .returned client (.error "failed to persist trusted SSH host key".toList)
      (some (accessFailure x client "write".toList e))

/-- One section under the store's mutex; the environment decides how a write ends. -/
def step (x : Shared) (t : Task Key) (w : DiskWrite) : Option (Shared × Task Key) :=
  match t with
  | .verifying client =>
    let r := x.store.verify K x.file client.host client.port client.key
    some (⟨r.1, x.file⟩, afterVerify x client r.2)
  | .trusting client =>
    let r := x.store.trust K x.file client.host client.port client.key w
    some (⟨r.1, r.2.1⟩, afterTrust x client r.2.2)
  | .forgetting host port =>
    let r := x.store.forget x.file host port w
    some (⟨r.1, r.2.1⟩, .forgot r.2.2)
  | .returned .. | .forgot _ => none

def starts : Task Key → Bool
  | .verifying _ | .forgetting .. => true
  | _ => false

def system : TaskSystem Shared (Task Key) DiskWrite := ⟨starts, step K⟩

def Client.hostId (client : Client Key) : Text := makeKey client.host client.port

def Shared.entries (x : Shared) : Except Text Entries := x.store.entries x.file

variable {K} {c c' d : Config Shared (Task Key)} {a : Action (Task Key) DiskWrite}
  {as : List (Action (Task Key) DiskWrite)} {x x' : Shared} {t t' : Task Key} {id : Text} {i : ℕ}
  {key : Key}

inductive Section (K : KeyFormat Key) (x : Shared) : Task Key → Shared → Task Key → Prop where
  | accepted {client entries x'} (he : x.entries = .ok entries)
      (hl : entries.lookup client.hostId = some (K.publicKeyBase64 client.key))
      (hx : x'.entries = x.entries) :
      Section K x (.verifying client) x' (.returned client (.ok true) none)
  | unknown {client x'} (hx : x'.entries = x.entries) :
      Section K x (.verifying client) x' (.trusting client)
  | refused {client answer slot x'} (ha : answer ≠ .ok true) (hx : x'.entries = x.entries) :
      Section K x (.verifying client) x' (.returned client answer slot)
  | trusted {client entries x'} (he : x.entries = .ok entries)
      (hx : x'.entries = .ok (entries.insert client.hostId (K.publicKeyBase64 client.key))) :
      Section K x (.trusting client) x' (.returned client (.ok true) none)
  | unreadable {client answer slot x' e} (ha : answer ≠ .ok true) (he : x.entries = .error e)
      (hx : x'.entries = x.entries) :
      Section K x (.trusting client) x' (.returned client answer slot)
  | forgets {host port x' answer} : Section K x (.forgetting host port) x' (.forgot answer)

theorem step_section (h : step K x t .done = some (x', t')) : Section K x t x' t' := by
  cases t with
  | verifying client =>
    obtain ⟨rfl, rfl⟩ := Prod.mk.inj (Option.some.inj h)
    have hx := verify_entries K x.store x.file client.host client.port client.key
    cases hv : (x.store.verify K x.file client.host client.port client.key).2 with
    | error e => exact .refused (by simp) hx
    | ok verdict =>
      obtain ⟨entries, he, hverdict⟩ := verify_ok hv
      cases verdict with
      | known => exact .accepted he (verdictOf_known hverdict) hx
      | unknown => exact .unknown hx
      | mismatch => exact .refused (by simp) hx
  | trusting client =>
    obtain ⟨rfl, rfl⟩ := Prod.mk.inj (Option.some.inj h)
    cases he : x.store.entries x.file with
    | error e =>
      rw [trust_error he]
      exact .unreadable (by simp) he rfl
    | ok entries =>
      rw [trust_done he]
      exact .trusted he rfl
  | forgetting host port =>
    obtain ⟨rfl, rfl⟩ := Prod.mk.inj (Option.some.inj h)
    exact .forgets
  | returned | forgot => cases h

/-- The key of a handshake for the identifier that returned Ok(true). -/
def accepted (id : Text) : Task Key → Option Key
  | .returned client (.ok true) _ => if client.hostId = id then some client.key else none
  | _ => none

def forgetting : Task Key → Bool
  | .forgetting .. => true
  | _ => false

/-- All handshakes for the identifier that returned Ok(true) were offered one key. -/
def SameKey (id : Text) (c : Config Shared (Task Key)) : Prop :=
  ∀ t ∈ c.tasks, ∀ t' ∈ c.tasks, ∀ key key', accepted id t = some key →
    accepted id t' = some key' → key = key'

/-- The action trusts no key over another key of the identifier. -/
def NeverReplaces (K : KeyFormat Key) (id : Text) (c : Config Shared (Task Key)) :
    Action (Task Key) DiskWrite → Prop
  | .spawn _ => True
  | .advance i _ => ∀ client entries stored, c.tasks[i]? = some (.trusting client) →
    client.hostId = id → c.shared.entries = .ok entries → entries.lookup id = some stored →
    stored = K.publicKeyBase64 client.key

def Absent (id : Text) (x : Shared) : Prop :=
  ∀ entries, x.entries = .ok entries → entries.lookup id = none

/-- Whatever was accepted is stored. -/
def Pinned (K : KeyFormat Key) (id : Text) (c : Config Shared (Task Key)) : Prop :=
  ∀ t ∈ c.tasks, ∀ key, accepted id t = some key →
    ∃ entries, c.shared.entries = .ok entries ∧
      entries.lookup id = some (K.publicKeyBase64 key)

/-- Whatever is stored was accepted. -/
structure Backed (K : KeyFormat Key) (id : Text) (c : Config Shared (Task Key)) : Prop where
  stored : ∀ entries stored, c.shared.entries = .ok entries → entries.lookup id = some stored →
    ∃ t ∈ c.tasks, ∃ key, accepted id t = some key ∧ K.publicKeyBase64 key = stored
  kept : ∀ t ∈ c.tasks, forgetting t = false

def Split (K : KeyFormat Key) (id : Text) (c : Config Shared (Task Key)) : Prop :=
  ∃ t ∈ c.tasks, ∃ t' ∈ c.tasks, ∃ key key', accepted id t = some key ∧
    accepted id t' = some key' ∧ K.publicKeyBase64 key ≠ K.publicKeyBase64 key'

theorem KeyFormat.injective {key key' : Key} (h : K.publicKeyBase64 key = K.publicKeyBase64 key') :
    key = key' := by
  have hparse := K.parse_base64 key
  rw [h, K.parse_base64 key'] at hparse
  exact (Option.some.inj hparse).symm

theorem Pinned.sameKey (h : Pinned K id c) : SameKey id c := by
  intro t ht t' ht' key key' hk hk'
  obtain ⟨entries, he, hl⟩ := h t ht key hk
  obtain ⟨entries', he', hl'⟩ := h t' ht' key' hk'
  obtain rfl := Except.ok.inj (he.symm.trans he')
  exact KeyFormat.injective (Option.some.inj (hl.symm.trans hl'))

theorem Split.not_sameKey (h : Split K id c) : ¬SameKey id c := by
  obtain ⟨t, ht, t', ht', key, key', hk, hk', hne⟩ := h
  exact fun hsame => hne (by rw [hsame t ht t' ht' key key' hk hk'])

theorem accepted_returned (client : Client Key) (slot : Option HostKeyVerificationFailure) :
    accepted client.hostId (.returned client (.ok true) slot) = some client.key := if_pos rfl

theorem accepted_of_ok {client : Client Key} {slot : Option HostKeyVerificationFailure}
    (h : accepted id (.returned client (.ok true) slot) = some key) :
    client.hostId = id ∧ client.key = key := by
  simpa [accepted] using h

theorem accepted_of_ne {client : Client Key} {answer : Except Text Bool}
    {slot : Option HostKeyVerificationFailure} (ha : answer ≠ .ok true) :
    accepted id (.returned client answer slot) = none := by
  unfold accepted
  split
  · rename_i heq
    exact absurd (Task.returned.inj heq).2.1 ha
  · rfl

/-- An accepted handshake stays in the configuration. -/
theorem accepted_stays (hi : c.tasks[i]? = some t) (hs : Section K c.shared t x' t')
    {u : Task Key} (hu : u ∈ c.tasks) (hk : accepted id u = some key) :
    u ∈ c.tasks.set i t' := by
  rcases mem_set_or_eq hi hu t' with hmem | rfl
  · exact hmem
  · cases hs <;> cases hk

theorem pinned_step {w : DiskWrite} (h : Pinned K id c)
    (hnever : NeverReplaces K id c (.advance i w)) (hf : forgetting t = false)
    (hi : c.tasks[i]? = some t) (hs : Section K c.shared t x' t') :
    Pinned K id ⟨x', c.tasks.set i t'⟩ := by
  intro u hu key hk
  rcases List.mem_or_eq_of_mem_set hu with hu | rfl
  · obtain ⟨entries, he, hl⟩ := h u hu key hk
    cases hs with
    | accepted _ _ hx | unknown hx | refused _ hx | unreadable _ _ hx =>
      exact ⟨entries, hx.trans he, hl⟩
    | @trusted client entries' _ he' hx =>
      obtain rfl := Except.ok.inj (he.symm.trans he')
      refine ⟨_, hx, ?_⟩
      by_cases hid : client.hostId = id
      · rw [hid, AList.lookup_insert, hnever client entries _ hi hid he hl]
      · rw [AList.lookup_insert_ne (Ne.symm hid), hl]
    | forgets => cases hf
  · cases hs with
    | accepted he hl hx =>
      obtain ⟨rfl, rfl⟩ := accepted_of_ok hk
      exact ⟨_, hx.trans he, hl⟩
    | trusted he hx =>
      obtain ⟨rfl, rfl⟩ := accepted_of_ok hk
      exact ⟨_, hx, AList.lookup_insert _⟩
    | refused ha | unreadable ha =>
      rw [accepted_of_ne ha] at hk
      cases hk
    | unknown | forgets => cases hk

theorem backed_step (h : Backed K id c) (hi : c.tasks[i]? = some t)
    (hs : Section K c.shared t x' t') : Backed K id ⟨x', c.tasks.set i t'⟩ := by
  have hf := h.kept t (List.mem_of_getElem? hi)
  have hold {entries : Entries} {stored : Text} (he : c.shared.entries = .ok entries)
      (hl : entries.lookup id = some stored) : ∃ u ∈ c.tasks.set i t', ∃ key,
        accepted id u = some key ∧ K.publicKeyBase64 key = stored := by
    obtain ⟨u, hu, key, hk, hb⟩ := h.stored entries stored he hl
    exact ⟨u, accepted_stays hi hs hu hk, key, hk, hb⟩
  refine ⟨fun entries stored he hl => ?_, fun u hu => ?_⟩
  · cases hs with
    | accepted _ _ hx | unknown hx | refused _ hx | unreadable _ _ hx => exact hold (hx.symm.trans he) hl
    | @trusted client entries' _ he' hx =>
      obtain rfl := Except.ok.inj (hx.symm.trans he)
      by_cases hid : client.hostId = id
      · subst hid
        rw [AList.lookup_insert, Option.some.injEq] at hl
        exact ⟨_, mem_set_self hi _, client.key, accepted_returned client none, hl⟩
      · rw [AList.lookup_insert_ne (Ne.symm hid)] at hl
        exact hold he' hl
    | forgets => cases hf
  · rcases List.mem_or_eq_of_mem_set hu with hu | rfl
    · exact h.kept u hu
    · cases hs <;> rfl

theorem split_step (h : Split K id c) (hi : c.tasks[i]? = some t)
    (hs : Section K c.shared t x' t') : Split K id ⟨x', c.tasks.set i t'⟩ := by
  obtain ⟨u, hu, u', hu', key, key', hk, hk', hne⟩ := h
  exact ⟨u, accepted_stays hi hs hu hk, u', accepted_stays hi hs hu' hk', key, key', hk, hk', hne⟩

/-- A handshake that overwrites an accepted key is accepted with its own. -/
theorem split_of_replaced {w : DiskWrite} (h : Backed K id c)
    (hnever : ¬NeverReplaces K id c (.advance i w)) (hi : c.tasks[i]? = some t)
    (hs : Section K c.shared t x' t') : Split K id ⟨x', c.tasks.set i t'⟩ := by
  simp only [NeverReplaces, not_forall] at hnever
  obtain ⟨client, entries, stored, ht, rfl, he, hl, hne⟩ := hnever
  obtain rfl := Option.some.inj (hi.symm.trans ht)
  obtain ⟨u, hu, key, hk, rfl⟩ := h.stored entries stored he hl
  have hstays := accepted_stays hi hs hu hk
  cases hs with
  | trusted =>
    exact ⟨u, hstays, _, mem_set_self hi _, key, client.key, hk, accepted_returned client none, hne⟩
  | unreadable _ he' => cases he.symm.trans he'

/-- The action forgets no host, and a write it makes succeeds. -/
structure Plain (a : Action (Task Key) DiskWrite) : Prop where
  noForget : ∀ host port, a ≠ .spawn (.forgetting host port)
  written : ∀ i w, a = .advance i w → w = .done

theorem plain_spawn (ha : Plain (.spawn t)) (ht : starts t = true) :
    forgetting t = false ∧ ∀ id, accepted id t = none := by
  cases t with
  | verifying => exact ⟨rfl, fun _ => rfl⟩
  | forgetting host port => exact absurd rfl (ha.noForget host port)
  | _ => cases ht

theorem plain_act (ha : Plain a) (hact : (system K).act c a = some c') :
    (∃ t, a = .spawn t ∧ forgetting t = false ∧ (∀ id, accepted id t = none) ∧
      c' = ⟨c.shared, c.tasks ++ [t]⟩) ∨
    ∃ i w t x' t', a = .advance i w ∧ c.tasks[i]? = some t ∧ Section K c.shared t x' t' ∧
      c' = ⟨x', c.tasks.set i t'⟩ := by
  rcases act_cases hact with ⟨t, rfl, ht, rfl⟩ | ⟨i, w, t, x', t', rfl, hi, hs, rfl⟩
  · exact .inl ⟨t, rfl, (plain_spawn ha ht).1, (plain_spawn ha ht).2, rfl⟩
  · obtain rfl := ha.written i w rfl
    exact .inr ⟨i, _, t, x', t', rfl, hi, step_section hs, rfl⟩

theorem backed_act (h : Backed K id c) (ha : Plain a) (hact : (system K).act c a = some c') :
    Backed K id c' := by
  rcases plain_act ha hact with ⟨t, rfl, hf, -, rfl⟩ | ⟨i, w, t, x', t', rfl, hi, hs, rfl⟩
  · refine ⟨fun entries stored he hl => ?_, fun u hu => ?_⟩
    · obtain ⟨u, hu, hk⟩ := h.stored entries stored he hl
      exact ⟨u, List.mem_append_left _ hu, hk⟩
    · rcases List.mem_append.mp hu with hu | hu
      · exact h.kept u hu
      · exact List.mem_singleton.mp hu ▸ hf
  · exact backed_step h hi hs

theorem pinned_act (h : Pinned K id c) (hb : Backed K id c) (ha : Plain a)
    (hnever : NeverReplaces K id c a) (hact : (system K).act c a = some c') : Pinned K id c' := by
  rcases plain_act ha hact with ⟨t, rfl, -, hnone, rfl⟩ | ⟨i, w, t, x', t', rfl, hi, hs, rfl⟩
  · intro u hu key hk
    rcases List.mem_append.mp hu with hu | hu
    · exact h u hu key hk
    · rw [List.mem_singleton.mp hu, hnone] at hk
      cases hk
  · exact pinned_step h hnever (hb.kept t (List.mem_of_getElem? hi)) hi hs

theorem split_act (h : Split K id c) (ha : Plain a) (hact : (system K).act c a = some c') :
    Split K id c' := by
  rcases plain_act ha hact with ⟨t, rfl, -, -, rfl⟩ | ⟨i, w, t, x', t', rfl, hi, hs, rfl⟩
  · obtain ⟨u, hu, u', hu', h⟩ := h
    exact ⟨u, List.mem_append_left _ hu, u', List.mem_append_left _ hu', h⟩
  · exact split_step h hi hs

theorem split_of_violated (h : Backed K id c) (ha : Plain a) (hnever : ¬NeverReplaces K id c a)
    (hact : (system K).act c a = some c') : Split K id c' := by
  rcases plain_act ha hact with ⟨t, rfl, -, -, rfl⟩ | ⟨i, w, t, x', t', rfl, hi, hs, rfl⟩
  · exact absurd trivial hnever
  · exact split_of_replaced h hnever hi hs

/-- From a store without an entry for the host, in every interleaving of handshakes whose writes
succeed: the accepted handshakes of the host were offered one key exactly when none of them
trusted its key over another. -/
theorem accepted_same_key_iff (K : KeyFormat Key) (host : Text) (port : UInt16) (x : Shared)
    (as : List (Action (Task Key) DiskWrite)) (d : Config Shared (Task Key))
    (habsent : Absent (makeKey host port) x)
    (hforget : ∀ host port, .spawn (.forgetting host port) ∉ as)
    (hdisk : ∀ i w, .advance i w ∈ as → w = .done)
    (hr : (system K).run ⟨x, []⟩ as = some d) :
    SameKey (makeKey host port) d ↔
      (system K).Meets (NeverReplaces K (makeKey host port)) ⟨x, []⟩ as := by
  have hplain : (system K).Meets (fun _ => Plain) ⟨x, []⟩ as := meets_of_forall fun a ha =>
    ⟨fun host port heq => hforget host port (heq ▸ ha), fun i w heq => hdisk i w (heq ▸ ha)⟩
  have hbacked : Backed K (makeKey host port) ⟨x, []⟩ := by
    refine ⟨fun entries stored he hl => ?_, fun t ht => absurd ht List.not_mem_nil⟩
    cases (habsent entries he).symm.trans hl
  have hkeep (c : Config Shared (Task Key)) (a : Action (Task Key) DiskWrite)
      (c' : Config Shared (Task Key)) (h : Backed K (makeKey host port) c) (ha : Plain a)
      (hact : (system K).act c a = some c') : Backed K (makeKey host port) c' :=
    backed_act h ha hact
  constructor
  · intro hsame
    by_contra hm
    refine Split.not_sameKey (K := K) ?_ hsame
    exact run_violated hkeep (fun c a c' h ha hn hact => split_of_violated h ha hn hact)
      (fun c a c' _ ha hs hact => split_act hs ha hact) hbacked hplain hr hm
  · intro hm
    have hstep (c : Config Shared (Task Key)) (a : Action (Task Key) DiskWrite)
        (c' : Config Shared (Task Key))
        (h : Backed K (makeKey host port) c ∧ Pinned K (makeKey host port) c)
        (ha : NeverReplaces K (makeKey host port) c a ∧ Plain a)
        (hact : (system K).act c a = some c') :
        Backed K (makeKey host port) c' ∧ Pinned K (makeKey host port) c' :=
      ⟨hkeep c a c' h.1 ha.2 hact, pinned_act h.2 h.1 ha.2 ha.1 hact⟩
    have hpinned : Pinned K (makeKey host port) ⟨x, []⟩ := fun t ht => absurd ht List.not_mem_nil
    exact (run_invariant hstep ⟨hbacked, hpinned⟩ (meets_and hm hplain) hr).2.sameKey

def textKeys : KeyFormat Text := ⟨fun k => k, fun k => k, some, fun _ => rfl⟩

def newStore : Shared := ⟨new ⟨"known_hosts".toList, none⟩, .missing⟩

def offering (key : Text) : Action (Task Text) DiskWrite := .spawn (.verifying ⟨"h".toList, 22, key⟩)

/-- Two handshakes of a new host find it unknown, and both trust the key they were offered. -/
def racedHandshakes : List (Action (Task Text) DiskWrite) :=
  offering "A".toList :: offering "B".toList :: [0, 1, 0, 1].map (.advance · .done)

theorem newStore_absent : Absent (makeKey "h".toList 22) newStore := by
  intro entries he
  obtain rfl := Except.ok.inj he
  rfl

theorem forgetting_notMem_racedHandshakes (host : Text) (port : UInt16) :
    Action.spawn (.forgetting host port) ∉ racedHandshakes := by
  simp [racedHandshakes, offering]

theorem written_racedHandshakes (i : ℕ) (w : DiskWrite) (h : .advance i w ∈ racedHandshakes) :
    w = .done := by
  simp only [racedHandshakes, offering, List.map_cons, List.map_nil, List.mem_cons, reduceCtorEq,
    Action.advance.injEq, List.not_mem_nil, or_false, false_or] at h
  rcases h with h | h | h | h <;> exact h.2

theorem accepted_same_key_iff_racedHandshakes :
    ∃ d, (system textKeys).run ⟨newStore, []⟩ racedHandshakes = some d ∧
      (SameKey (makeKey "h".toList 22) d ↔
        (system textKeys).Meets (NeverReplaces textKeys (makeKey "h".toList 22)) ⟨newStore, []⟩
          racedHandshakes) := by
  obtain ⟨d, hd⟩ := Option.isSome_iff_exists.mp
    (show ((system textKeys).run ⟨newStore, []⟩ racedHandshakes).isSome by decide +kernel)
  exact ⟨d, hd, accepted_same_key_iff textKeys "h".toList 22 newStore racedHandshakes d
    newStore_absent forgetting_notMem_racedHandshakes written_racedHandshakes hd⟩

/-- Both handshakes returned Ok(true), and their keys differ. -/
theorem racedHandshakes_split :
    Absent (makeKey "h".toList 22) newStore ∧
      (∀ host port, .spawn (.forgetting host port) ∉ racedHandshakes) ∧
      (∀ i w, .advance i w ∈ racedHandshakes → w = .done) ∧
      ∃ d, (system textKeys).run ⟨newStore, []⟩ racedHandshakes = some d ∧
        ¬SameKey (makeKey "h".toList 22) d := by
  refine ⟨newStore_absent, forgetting_notMem_racedHandshakes, written_racedHandshakes, ?_⟩
  have hrun : ∃ d, (system textKeys).run ⟨newStore, []⟩ racedHandshakes = some d ∧
      (∃ t ∈ d.tasks, accepted (makeKey "h".toList 22) t = some "A".toList) ∧
      ∃ t ∈ d.tasks, accepted (makeKey "h".toList 22) t = some "B".toList :=
    run_decided (by decide +kernel)
  obtain ⟨d, hd, ⟨t, ht, hk⟩, t', ht', hk'⟩ := hrun
  refine ⟨d, hd, fun hsame => ?_⟩
  exact absurd (hsame t ht t' ht' _ _ hk hk') (by decide +kernel)

end SshCommander.ServerKeyCheck
