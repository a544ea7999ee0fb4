import SshCommander.AgentAuthentication

/-!
# Whom credentials are sent to

A connect checks the server's key in the handshake and authenticates only after it. So once a host
has a key in the store, whatever other connects, writes and removals go on beside, nothing that
authenticates a user is sent to a server of the host with another key.
-/

namespace SshCommander.PinnedServers
open InterleavedTasks InterleavedTasks.TaskSystem RustText KnownHosts KnownHosts.HostKeyStore
open ServerKeyCheck AgentAuthentication

structure ConnectRequest (Key : Type) where
  host : Text
  port : UInt16
  username : Text
  auth : ResolvedAuth Key
  timeout : ℕ

inductive Network (Key : Type) where
  | elapsed
  | broken
  | up (offered : Key)

/-- The choices of the environment, with the error that russh gives where it fails. -/
structure Event (Key : Type) where
  network : Network Key
  error : Text
  write : DiskWrite
  agent : AgentClient Key
  session : AuthSession Key

/-- Where a connect stands, or a call that manages the store. `server` is the key that was offered.
Only a connect with the handshake `connected` has asked its session for anything. -/
inductive Task (Key : Type) where
  | connecting (req : ConnectRequest Key)
  | checking (req : ConnectRequest Key) (check : ServerKeyCheck.Task Key)
  | returned (req : ConnectRequest Key) (handshake : Handshake) (server : Option Key)
      (answer : Except SshError Unit)
  | managing (call : ServerKeyCheck.Task Key)

inductive CheckOf {Key : Type} (K : KeyFormat Key) (id stored : Text) (req : ConnectRequest Key) :
    ServerKeyCheck.Task Key → Prop where
  | verifying (key : Key) : CheckOf K id stored req (.verifying ⟨req.host, req.port, key⟩)
  | trusting (key : Key) (h : makeKey req.host req.port ≠ id) :
      CheckOf K id stored req (.trusting ⟨req.host, req.port, key⟩)
  | returned (key : Key) (answer : Except Text Bool) (slot : Option HostKeyVerificationFailure)
      (h : makeKey req.host req.port = id → answer = .ok true → K.publicKeyBase64 key = stored) :
      CheckOf K id stored req (.returned ⟨req.host, req.port, key⟩ answer slot)

variable {Key Sig : Type} (K : KeyFormat Key) (russh : Russh Key Sig)

/-- The rest of `connect_authenticated`, once the handshake is over. -/
def finish (req : ConnectRequest Key) (handshake : Handshake) (server : Option Key)
    (e : Event Key) : Task Key :=
  .returned req handshake server
    ((connectAuthenticated russh handshake e.agent e.session req.host req.port req.username req.auth
      req.timeout).map fun _ => ())

def afterCheck (network : Network Key) (error : Text) (answer : Except Text Bool)
    (slot : Option HostKeyVerificationFailure) : Handshake :=
  match network with
  | .elapsed => .elapsed
  | .broken => .failed error slot
  | .up _ =>
    match answer with
    | .ok true => .connected
    | _ => .failed error slot

/-- The timeout can end a handshake in any of its sections. -/
def step (x : Shared) (t : Task Key) (e : Event Key) : Option (Shared × Task Key) :=
  match t with
  | .connecting req =>
    match e.network with
    | .elapsed => some (x, finish russh req .elapsed none e)
    | .broken => some (x, finish russh req (.failed e.error none) none e)
    | .up offered => some (x, .checking req (.verifying ⟨req.host, req.port, offered⟩))
  | .checking req (.returned client answer slot) =>
    some (x, finish russh req (afterCheck e.network e.error answer slot) (some client.key) e)
  | .checking req check =>
    match e.network with
    | .elapsed => some (x, finish russh req .elapsed none e)
    | _ => (ServerKeyCheck.step K x check e.write).map fun r => (r.1, .checking req r.2)
  | .managing call => (ServerKeyCheck.step K x call e.write).map fun r => (r.1, .managing r.2)
  | .returned .. => none

def starts : Task Key → Bool
  | .connecting _ | .managing (.forgetting ..) => true
  | _ => false

def connects : TaskSystem Shared (Task Key) (Event Key) := ⟨starts, step K russh⟩

/-- What is in the store, in memory or on disk, has this entry. -/
def Holds (id stored : Text) (x : Shared) : Prop :=
  ∀ entries, x.entries = .ok entries → entries.lookup id = some stored

variable {K russh} {id stored : Text} {x x' : Shared} {t t' : Task Key} {e : Event Key}
  {req : ConnectRequest Key} {check check' : ServerKeyCheck.Task Key} {store : HostKeyStore}
  {file : File} {w : DiskWrite} {c c' d : Config Shared (Task Key)}
  {a : Action (Task Key) (Event Key)} {as : List (Action (Task Key) (Event Key))}

/-- A commit leaves the entries or the snapshot, also where its write fails. -/
theorem commit_entries (store : HostKeyStore) (file file' : File) (entries snapshot : Entries)
    (w : DiskWrite) : (store.commit file entries snapshot w).1.entries file' = .ok entries ∨
      (store.commit file entries snapshot w).1.entries file' = .ok snapshot := by
  unfold commit
  split
  · exact .inl rfl
  · exact .inr rfl

theorem Holds.of_commit {entries snapshot : Entries} (h : Holds id stored ⟨store, file⟩)
    (he : store.entries file = .ok entries) (hs : snapshot.lookup id = entries.lookup id)
    (file' : File) : Holds id stored ⟨(store.commit file entries snapshot w).1, file'⟩ := by
  intro entries' he'
  have hstored := h entries he
  rcases commit_entries store file file' entries snapshot w with hsame | hsnap
  · obtain rfl := Except.ok.inj (hsame.symm.trans he')
    exact hstored
  · obtain rfl := Except.ok.inj (hsnap.symm.trans he')
    rw [hs, hstored]

theorem Holds.trust (h : Holds id stored x) {host : Text} {port : UInt16} (key : Key)
    (hne : makeKey host port ≠ id) (w : DiskWrite) :
    Holds id stored ⟨(x.store.trust K x.file host port key w).1,
      (x.store.trust K x.file host port key w).2.1⟩ := by
  cases he : x.store.entries x.file with
  | error err =>
    rw [trust_error he]
    exact h
  | ok entries =>
    simp only [HostKeyStore.trust, he]
    exact h.of_commit he (AList.lookup_insert_ne hne.symm) _

theorem Holds.forget (h : Holds id stored x) {host : Text} {port : UInt16}
    (hne : makeKey host port ≠ id) (w : DiskWrite) :
    Holds id stored ⟨(x.store.forget x.file host port w).1,
      (x.store.forget x.file host port w).2.1⟩ := by
  cases he : x.store.entries x.file with
  | error err =>
    simp only [HostKeyStore.forget, he]
    exact h
  | ok entries =>
    have hcommit (file : File) := h.of_commit (w := w) he (AList.lookup_erase_ne hne.symm) file
    simp only [HostKeyStore.forget, he]
    split
    · split
      · rename_i heq
        simpa only [heq] using hcommit _
      · rename_i heq
        simpa only [heq] using hcommit _
    · intro entries' he'
      obtain rfl := Except.ok.inj he'
      exact h entries he

theorem check_step (hc : CheckOf K id stored req check) (h : Holds id stored x)
    (hs : ServerKeyCheck.step K x check w = some (x', check')) :
    Holds id stored x' ∧ CheckOf K id stored req check' := by
  cases hc with
  | verifying key =>
    obtain ⟨rfl, rfl⟩ := Prod.mk.inj (Option.some.inj hs)
    have hkept : Holds id stored ⟨(x.store.verify K x.file req.host req.port key).1, x.file⟩ := by
      intro entries he
      exact h entries ((verify_entries K x.store x.file req.host req.port key).symm.trans he)
    refine ⟨hkept, ?_⟩
    cases hv : (x.store.verify K x.file req.host req.port key).2 with
    | error err => exact .returned key _ _ fun _ hok => by cases hok
    | ok verdict =>
      obtain ⟨entries, he, hverdict⟩ := verify_ok hv
      cases verdict with
      | known =>
        refine .returned key _ _ fun hid _ => ?_
        have hlookup := verdictOf_known hverdict
        rw [hid, h entries he] at hlookup
        exact (Option.some.inj hlookup).symm
      | unknown =>
        refine .trusting key fun hid => ?_
        rw [hid, h entries he, verdictOf] at hverdict
        split at hverdict <;> cases hverdict
      | mismatch expected got => exact .returned key _ _ fun _ hok => by cases hok
  | trusting key hne =>
    obtain ⟨rfl, rfl⟩ := Prod.mk.inj (Option.some.inj hs)
    refine ⟨h.trust key hne w, ?_⟩
    cases (x.store.trust K x.file req.host req.port key w).2.2 with
    | error err => exact .returned key _ _ fun _ hok => by cases hok
    | ok u => exact .returned key _ _ fun hid => absurd hid hne
  | returned => cases hs

/-- Without a handshake the answer is an error, whatever the agent and the session would say. -/
theorem silent (russh : Russh Key Sig) {handshake : Handshake} (h : handshake ≠ .connected) (req : ConnectRequest Key) :
    ∃ err, ∀ agent session, connectAuthenticated russh handshake agent session req.host req.port
      req.username req.auth req.timeout = .error err := by
  cases handshake with
  | connected => exact absurd rfl h
  | elapsed => exact ⟨_, fun _ _ => rfl⟩
  | failed error slot =>
    cases slot with
    | none => exact ⟨_, fun _ _ => rfl⟩
    | some failure => exact ⟨_, fun _ _ => rfl⟩

theorem afterCheck_connected {network : Network Key} {error : Text} {answer : Except Text Bool}
    {slot : Option HostKeyVerificationFailure}
    (h : afterCheck network error answer slot = .connected) : answer = .ok true := by
  unfold afterCheck at h
  split at h
  · cases h
  · cases h
  · split at h
    · rfl
    · cases h

inductive Faithful (K : KeyFormat Key) (russh : Russh Key Sig) (id stored : Text) :
    Task Key → Prop where
  | connecting (req : ConnectRequest Key) : Faithful K russh id stored (.connecting req)
  | checking (req : ConnectRequest Key) (check : ServerKeyCheck.Task Key)
      (h : CheckOf K id stored req check) : Faithful K russh id stored (.checking req check)
  | returned (req : ConnectRequest Key) (handshake : Handshake) (server : Option Key)
      (e : Event Key) (h : handshake = .connected → makeKey req.host req.port = id →
        ∀ key, server = some key → K.publicKeyBase64 key = stored) :
      Faithful K russh id stored (finish russh req handshake server e)
  | forgetting (host : Text) (port : UInt16) (h : makeKey host port ≠ id) :
      Faithful K russh id stored (.managing (.forgetting host port))
  | forgot (answer : Except Text Bool) : Faithful K russh id stored (.managing (.forgot answer))

theorem faithful_step (ht : Faithful K russh id stored t) (h : Holds id stored x)
    (hs : step K russh x t e = some (x', t')) :
    Holds id stored x' ∧ Faithful K russh id stored t' := by
  cases ht with
  | connecting req =>
    simp only [PinnedServers.step] at hs
    split at hs <;> obtain ⟨rfl, rfl⟩ := Prod.mk.inj (Option.some.inj hs)
    · exact ⟨h, .returned req .elapsed none e fun _ _ _ hkey => nomatch hkey⟩
    · exact ⟨h, .returned req _ none e fun hup => nomatch hup⟩
    · exact ⟨h, .checking req _ (.verifying _)⟩
  | checking req check hc =>
    have hstepped (check' : ServerKeyCheck.Task Key) (x' : Shared) (w : DiskWrite)
        (hs : ServerKeyCheck.step K x check w = some (x', check')) :
        Holds id stored x' ∧ Faithful K russh id stored (.checking req check') := by
      obtain ⟨hx, hc'⟩ := check_step hc h hs
      exact ⟨hx, .checking req check' hc'⟩
    have hunfinished (hs : (match e.network with
        | .elapsed => some (x, finish russh req .elapsed none e)
        | _ => (ServerKeyCheck.step K x check e.write).map fun r => (r.1, .checking req r.2)) =
          some (x', t')) : Holds id stored x' ∧ Faithful K russh id stored t' := by
      split at hs
      · obtain ⟨rfl, rfl⟩ := Prod.mk.inj (Option.some.inj hs)
        exact ⟨h, .returned req .elapsed none e fun _ _ _ hkey => nomatch hkey⟩
      · obtain ⟨r, hr, heq⟩ := Option.map_eq_some_iff.mp hs
        obtain ⟨rfl, rfl⟩ := Prod.mk.inj heq
        exact hstepped r.2 r.1 e.write hr
    cases hc with
    | verifying key | trusting key => exact hunfinished hs
    | returned key answer slot hkey =>
      obtain ⟨rfl, rfl⟩ := Prod.mk.inj (Option.some.inj hs)
      refine ⟨h, .returned req _ _ e fun hup hid server hserver => ?_⟩
      obtain rfl := Option.some.inj hserver
      exact hkey hid (afterCheck_connected hup)
  | returned => cases hs
  | forgetting host port hne =>
    simp only [PinnedServers.step] at hs
    obtain ⟨r, hr, heq⟩ := Option.map_eq_some_iff.mp hs
    obtain ⟨rfl, rfl⟩ := Prod.mk.inj heq
    obtain rfl := Option.some.inj hr
    exact ⟨h.forget hne e.write, .forgot _⟩
  | forgot => cases hs

theorem faithful_act {c' : Config Shared (Task Key)} (hx : Holds id stored c.shared)
    (hts : ∀ t ∈ c.tasks, Faithful K russh id stored t)
    (hforget : ∀ host port, a = .spawn (.managing (.forgetting host port)) → makeKey host port ≠ id)
    (hact : (connects K russh).act c a = some c') :
    Holds id stored c'.shared ∧ ∀ t ∈ c'.tasks, Faithful K russh id stored t := by
  obtain ⟨t, rfl, hs, rfl⟩ | ⟨i, e, t, x', t', rfl, hi, hs, rfl⟩ := act_cases hact
  · refine ⟨hx, fun u hu => ?_⟩
    rcases List.mem_append.mp hu with hu | hu
    · exact hts u hu
    · obtain rfl := List.mem_singleton.mp hu
      have hstart : starts u = true := hs
      unfold starts at hstart
      split at hstart
      · exact .connecting _
      · exact .forgetting _ _ (hforget _ _ rfl)
      · cases hstart
  · obtain ⟨hx', ht'⟩ := faithful_step (hts t (List.mem_of_getElem? hi)) hx hs
    refine ⟨hx', fun u hu => ?_⟩
    rcases List.mem_or_eq_of_mem_set hu with hu | rfl
    · exact hts u hu
    · exact ht'

theorem run_faithful (hr : (connects K russh).run c as = some d) (hc : Holds id stored c.shared)
    (hts : ∀ t ∈ c.tasks, Faithful K russh id stored t)
    (hforget : ∀ host port, .spawn (.managing (.forgetting host port)) ∈ as →
      makeKey host port ≠ id) : ∀ t ∈ d.tasks, Faithful K russh id stored t := by
  have hmeets : (connects K russh).Meets (fun _ a => ∀ host port,
      a = .spawn (.managing (.forgetting host port)) → makeKey host port ≠ id) c as :=
    meets_of_forall fun a ha host port heq => hforget host port (heq ▸ ha)
  have hstart : Holds id stored c.shared ∧ ∀ t ∈ c.tasks, Faithful K russh id stored t := ⟨hc, hts⟩
  have hrun : Holds id stored d.shared ∧ ∀ t ∈ d.tasks, Faithful K russh id stored t :=
    run_invariant (fun _ _ _ h hcond hact => faithful_act h.1 h.2 hcond hact) hstart hmeets hr
  exact hrun.2

/-- Where the store has a key of the host and nobody removes it: in every run of connects, with any
races, failing writes, timeouts and removals of other hosts, a connect whose server offers another
key under the host fails with an error that does not depend on its session, so it has sent no
password and no signature. -/
theorem credentials_pinned (K : KeyFormat Key) (russh : Russh Key Sig) (host stored : Text)
    (port : UInt16) (x : Shared) (as : List (Action (Task Key) (Event Key)))
    (d : Config Shared (Task Key)) (hstored : Holds (makeKey host port) stored x)
    (hforget : ∀ host' port', .spawn (.managing (.forgetting host' port')) ∈ as →
      makeKey host' port' ≠ makeKey host port)
    (hr : (connects K russh).run ⟨x, []⟩ as = some d) (req : ConnectRequest Key)
    (handshake : Handshake) (server : Key) (answer : Except SshError Unit)
    (hreturned : .returned req handshake (some server) answer ∈ d.tasks)
    (hhost : makeKey req.host req.port = makeKey host port)
    (hother : K.publicKeyBase64 server ≠ stored) :
    ∃ err, answer = .error err ∧ ∀ agent session, connectAuthenticated russh handshake agent session
      req.host req.port req.username req.auth req.timeout = .error err := by
  have hfaithful := run_faithful hr hstored nofun hforget _ hreturned
  generalize htask : Task.returned req handshake (some server) answer = t at hfaithful
  cases hfaithful with
  | returned req' handshake' server' e h =>
    obtain ⟨rfl, rfl, rfl, rfl⟩ := Task.returned.inj htask
    have hdown : handshake ≠ .connected := fun hup => hother (h hup hhost server rfl)
    obtain ⟨err, herr⟩ := silent russh hdown req
    exact ⟨err, by rw [herr]; rfl, herr⟩
  | _ => cases htask

def textRussh : Russh Text Text :=
  ⟨fun _ => .ed25519, fun key => key, fun key _ => key, [], nofun, fun _ _ _ => rfl⟩

def oneHost : Shared := ⟨new ⟨['k'], none⟩, .text ['h', ' ', 'A', '\n']⟩

def login : ConnectRequest Text := ⟨['h'], 22, ['u'], .password ['p'], 10⟩

def welcome (offered : Text) : Event Text :=
  ⟨.up offered, ['e'], .done, ⟨.ok (), .ok []⟩, ⟨fun _ _ => .ok true, fun _ _ _ => .ok true,
    fun _ _ _ => .ok true⟩⟩

/-- A server in the place of the host offers its own key. -/
def impostor : List (Action (Task Text) (Event Text)) :=
  .spawn (.connecting login) :: List.replicate 3 (.advance 0 (welcome ['B']))

theorem credentials_pinned_impostor :
    ∃ d handshake answer, (connects textKeys textRussh).run ⟨oneHost, []⟩ impostor = some d ∧
      .returned login handshake (some ['B']) answer ∈ d.tasks ∧
      ∃ err, answer = .error err ∧ ∀ agent session, connectAuthenticated textRussh handshake agent
        session ['h'] 22 ['u'] (.password ['p']) 10 = .error err := by
  have hrun : ∃ d handshake answer,
      (connects textKeys textRussh).run ⟨oneHost, []⟩ impostor = some d ∧
        .returned login handshake (some ['B']) answer ∈ d.tasks := ⟨_, _, _, rfl, .head _⟩
  obtain ⟨d, handshake, answer, hd, hreturned⟩ := hrun
  have hstored : Holds (makeKey ['h'] 22) ['A'] oneHost := by
    intro entries he
    obtain rfl := Except.ok.inj he
    rfl
  exact ⟨d, handshake, answer, hd, hreturned, credentials_pinned textKeys textRussh ['h'] ['A'] 22
    oneHost impostor d hstored (by simp [impostor]) hd login handshake ['B'] answer hreturned rfl
    (by decide)⟩

end SshCommander.PinnedServers
