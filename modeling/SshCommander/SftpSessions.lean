import SshCommander.AgentAuthentication
import SshCommander.SftpTransfers

/-!
# The SFTP session of an SSH client

An `SshClient` keeps its session and, in a cell of its own, the SFTP session that was opened on it.
`connect` replaces the one and keeps the other, so file operations stay on the current session
exactly while no successful connect finds the cell filled.
-/

namespace SshCommander.SftpSessions
open RustText AgentAuthentication
open SftpTransfers (TransferError)

inductive AuthMethod where
  | password (password : Text)
  | publicKey (keyPath : Text) (passphrase : Option Text)
  | agent (identityHint : Option Text)

structure SshConfig where
  host : Text
  port : UInt16
  username : Text
  authMethod : AuthMethod

/-- What a connect meets: the key files, the handshake, the agent and the server. -/
structure World (Key : Type) where
  loadPrivateKey : Text → Option Text → Except Text Key
  handshake : Handshake
  agent : AgentClient Key
  session : AuthSession Key

/-- The sessions that a client has opened are numbered. -/
structure Session where
  number : ℕ
  deriving DecidableEq, Repr

structure SftpSession where
  openedOn : Session
  deriving DecidableEq, Repr

structure SshClient where
  session : Option Session
  sftp : Option SftpSession
  nextNumber : ℕ
  deriving DecidableEq, Repr

structure Opening where
  channelOpenSession : Except Text Unit
  requestSubsystem : Except Text Unit
  sftpNew : Except Text Unit

variable {Key Sig : Type} (russh : Russh Key Sig)

def resolveAuth (world : World Key) : AuthMethod → Except SshError (ResolvedAuth Key)
  | .password password => .ok (.password password)
  | .publicKey keyPath passphrase =>
    match world.loadPrivateKey keyPath passphrase with
    | .error message => .error (.keyLoad message)
    | .ok key => .ok (.key key (some keyPath))
  | .agent identityHint => .ok (.agent identityHint)

def dial (config : SshConfig) (world : World Key) : Except SshError (AuthSession Key) :=
  match resolveAuth world config.authMethod with
  | .error e => .error e
  | .ok auth =>
    connectAuthenticated russh world.handshake world.agent world.session config.host config.port
      config.username auth 10

namespace SshClient

def new : SshClient := ⟨none, none, 0⟩

def connect (client : SshClient) (config : SshConfig) (world : World Key) :
    SshClient × Except SshError Unit :=
  match dial russh config world with
  | .error e => (client, .error e)
  | .ok _ =>
    ({ client with session := some ⟨client.nextNumber⟩, nextNumber := client.nextNumber + 1 },
      .ok ())

def disconnect (client : SshClient) : SshClient × Except SshError Unit :=
  ({ client with session := none, sftp := none }, .ok ())

/-- `get_or_try_init` with the opening of the subsystem. -/
def sftpSession (client : SshClient) (opening : Opening) :
    SshClient × Except TransferError SftpSession :=
  match client.session with
  | none => (client, .error (.notConnected "SSH".toList))
  | some session =>
    match client.sftp with
    | some sftp => (client, .ok sftp)
    | none =>
      match opening.channelOpenSession with
      | .error e => (client, .error (.session ("Failed to open SFTP channel: ".toList ++ e)))
      | .ok () =>
        match opening.requestSubsystem with
        | .error e => (client, .error (.session ("Failed to start SFTP subsystem: ".toList ++ e)))
        | .ok () =>
          match opening.sftpNew with
          | .error e =>
            (client, .error (.session ("Failed to initialise SFTP session: ".toList ++ e)))
          | .ok () => ({ client with sftp := some ⟨session⟩ }, .ok ⟨session⟩)

/-- The methods for files are all of this form, with a function of `sftp_ops`. -/
def fileOperation {α : Type} (client : SshClient) (opening : Opening)
    (op : SftpSession → Except TransferError α) : SshClient × Except TransferError α :=
  match client.sftpSession opening with
  | (client, .error e) => (client, .error e)
  | (client, .ok sftp) => (client, op sftp)

end SshClient

inductive Call (Key : Type) where
  | connect (config : SshConfig) (world : World Key)
  | disconnect
  | fileOperation (opening : Opening) (op : SftpSession → Except TransferError Unit)

def perform (client : SshClient) : Call Key → SshClient
  | .connect config world => (client.connect russh config world).1
  | .disconnect => client.disconnect.1
  | .fileOperation opening op => (client.fileOperation opening op).1

def performAll (client : SshClient) (calls : List (Call Key)) : SshClient :=
  calls.foldl (perform russh) client

/-- The session of the last successful connect, if no disconnect came after it, and the number of
the next one. This is what the calls ask for, without the client. -/
def follow (current : Option Session × ℕ) : Call Key → Option Session × ℕ
  | .connect config world =>
    if (dial russh config world).isOk then (some ⟨current.2⟩, current.2 + 1) else current
  | .disconnect => (none, current.2)
  | .fileOperation .. => current

def currentSession (calls : List (Call Key)) : Option Session :=
  (calls.foldl (follow russh) (none, 0)).1

/-- A file operation that comes now does not fail only on an SFTP session of the current session,
and without a current session it fails with `NotConnected`. -/
structure StaysOn (current : Option Session) (client : SshClient) : Prop where
  uses : ∀ {α : Type} (opening : Opening) (op : SftpSession → Except TransferError α) (a : α),
    (client.fileOperation opening op).2 = .ok a →
      ∃ sftp, current = some sftp.openedOn ∧ op sftp = .ok a
  notConnected : current = none →
    ∀ {α : Type} (opening : Opening) (op : SftpSession → Except TransferError α),
      (client.fileOperation opening op).2 = .error (.notConnected "SSH".toList)

/-- The cell is empty, or filled from the session that is stored. -/
def Paired (client : SshClient) : Prop :=
  ∀ sftp, client.sftp = some sftp → client.session = some sftp.openedOn

structure Fresh (client : SshClient) : Prop where
  session : ∀ s, client.session = some s → s.number < client.nextNumber
  sftp : ∀ sftp, client.sftp = some sftp → sftp.openedOn.number < client.nextNumber

variable {russh} {client : SshClient} {opening : Opening} {calls before : List (Call Key)}
  {config : SshConfig} {world : World Key}

/-- All that `sftp_session` can do. -/
theorem sftpSession_cases (client : SshClient) (opening : Opening) :
    (client.session = none ∧
        client.sftpSession opening = (client, .error (.notConnected "SSH".toList))) ∨
      ∃ s, client.session = some s ∧
        ((∃ sftp, client.sftp = some sftp ∧ client.sftpSession opening = (client, .ok sftp)) ∨
          (∃ message, client.sftpSession opening = (client, .error (.session message))) ∨
          client.sftp = none ∧
            client.sftpSession opening = ({ client with sftp := some ⟨s⟩ }, .ok ⟨s⟩)) := by
  unfold SshClient.sftpSession
  cases hs : client.session with
  | none => exact .inl ⟨rfl, rfl⟩
  | some s =>
    refine .inr ⟨s, rfl, ?_⟩
    cases hc : client.sftp with
    | some sftp => exact .inl ⟨sftp, rfl, rfl⟩
    | none =>
      refine .inr ?_
      cases opening.channelOpenSession with
      | error e => exact .inl ⟨_, rfl⟩
      | ok u =>
        cases opening.requestSubsystem with
        | error e => exact .inl ⟨_, rfl⟩
        | ok u =>
          cases opening.sftpNew with
          | error e => exact .inl ⟨_, rfl⟩
          | ok u => exact .inr ⟨rfl, rfl⟩

/-- A file operation leaves the client as `sftp_session` does. -/
theorem fileOperation_client {α : Type} (op : SftpSession → Except TransferError α) :
    (client.fileOperation opening op).1 = (client.sftpSession opening).1 := by
  unfold SshClient.fileOperation
  split <;> simp_all

/-- The client's session and its number are those that the calls ask for. -/
theorem perform_follow (client : SshClient) (call : Call Key) :
    ((perform russh client call).session, (perform russh client call).nextNumber) =
      follow russh (client.session, client.nextNumber) call := by
  cases call with
  | connect config world =>
    simp only [perform, SshClient.connect, follow]
    cases dial russh config world with
    | error e => rfl
    | ok session => rfl
  | disconnect => rfl
  | fileOperation opening op =>
    simp only [perform, fileOperation_client, follow]
    obtain ⟨-, h⟩ | ⟨_, _, ⟨_, _, h⟩ | ⟨_, h⟩ | ⟨_, h⟩⟩ := sftpSession_cases client opening <;>
      rw [h]

theorem perform_fresh (h : Fresh client) (call : Call Key) : Fresh (perform russh client call) := by
  cases call with
  | connect config world =>
    simp only [perform, SshClient.connect]
    cases dial russh config world with
    | error e => exact h
    | ok session =>
      refine ⟨fun s hs => ?_, fun sftp hc => Nat.lt_succ_of_lt (h.sftp sftp hc)⟩
      rw [← Option.some.inj hs]
      exact Nat.lt_succ_self _
  | disconnect => exact ⟨fun _ hs => (by cases hs), fun _ hc => (by cases hc)⟩
  | fileOperation opening op =>
    simp only [perform, fileOperation_client]
    obtain ⟨-, hr⟩ | ⟨s, hs, ⟨_, _, hr⟩ | ⟨_, hr⟩ | ⟨_, hr⟩⟩ := sftpSession_cases client opening <;>
      rw [hr]
    · exact h
    · exact h
    · exact h
    · refine ⟨h.session, fun sftp hc => ?_⟩
      rw [← Option.some.inj hc]
      exact h.session s hs

/-- A successful connect that finds the cell empty, and every other call, keeps the two paired. -/
theorem perform_paired (h : Paired client) {call : Call Key}
    (hempty : ∀ config world, call = .connect config world → (dial russh config world).isOk →
      client.sftp = none) : Paired (perform russh client call) := by
  cases call with
  | connect config world =>
    have hempty := hempty config world rfl
    simp only [perform, SshClient.connect]
    cases hd : dial russh config world with
    | error e => exact h
    | ok session =>
      intro sftp hc
      rw [hd] at hempty
      cases (hempty rfl).symm.trans hc
  | disconnect => exact fun _ hc => (by cases hc)
  | fileOperation opening op =>
    simp only [perform, fileOperation_client]
    obtain ⟨-, hr⟩ | ⟨s, hs, ⟨_, _, hr⟩ | ⟨_, hr⟩ | ⟨_, hr⟩⟩ := sftpSession_cases client opening <;>
      rw [hr]
    · exact h
    · exact h
    · exact h
    · intro sftp hc
      rw [← Option.some.inj hc]
      exact hs

/-- What is paired stays on the stored session. -/
theorem staysOn_of_paired (h : Paired client) : StaysOn client.session client := by
  refine ⟨fun opening op a hok => ?_, fun hs _ opening op => ?_⟩
  · unfold SshClient.fileOperation at hok
    obtain ⟨-, hr⟩ | ⟨s, hs, ⟨sftp, hc, hr⟩ | ⟨_, hr⟩ | ⟨_, hr⟩⟩ :=
      sftpSession_cases client opening <;> rw [hr] at hok
    · cases hok
    · exact ⟨sftp, h sftp hc, hok⟩
    · cases hok
    · exact ⟨⟨s⟩, hs, hok⟩
  · unfold SshClient.fileOperation
    obtain ⟨-, hr⟩ | ⟨s, hs', -⟩ := sftpSession_cases client opening
    · rw [hr]
    · cases hs.symm.trans hs'

/-- A filled cell is used, so it has to be filled from the stored session. -/
theorem openedOn_of_staysOn {s : Session} {sftp : SftpSession} (h : StaysOn (some s) client)
    (hs : client.session = some s) (hc : client.sftp = some sftp) : sftp.openedOn = s := by
  have hused : (client.fileOperation ⟨.ok (), .ok (), .ok ()⟩ fun sftp => .ok sftp).2 = .ok sftp := by
    simp only [SshClient.fileOperation, SshClient.sftpSession, hs, hc]
  obtain ⟨sftp', hcurrent, hop⟩ := h.uses _ _ _ hused
  rw [← Except.ok.inj hop]
  exact (Option.some.inj hcurrent).symm

theorem performAll_concat (client : SshClient) (calls : List (Call Key)) (call : Call Key) :
    performAll russh client (calls ++ [call]) =
      perform russh (performAll russh client calls) call := by
  simp [performAll]

theorem performAll_follow (russh : Russh Key Sig) (client : SshClient) (calls : List (Call Key)) :
    ((performAll russh client calls).session, (performAll russh client calls).nextNumber) =
      calls.foldl (follow russh) (client.session, client.nextNumber) := by
  induction calls generalizing client with
  | nil => rfl
  | cons call calls ih =>
    rw [List.foldl_cons, ← perform_follow]
    exact ih (perform russh client call)

/-- The stored session is the one of the last successful connect. -/
theorem session_eq_currentSession (calls : List (Call Key)) :
    (performAll russh .new calls).session = currentSession russh calls :=
  congrArg Prod.fst (performAll_follow russh .new calls)

theorem performAll_fresh (russh : Russh Key Sig) (h : Fresh client) (calls : List (Call Key)) :
    Fresh (performAll russh client calls) := by
  induction calls generalizing client with
  | nil => exact h
  | cons call calls ih => exact ih (perform_fresh h call)

theorem fresh_new : Fresh .new := ⟨fun _ hs => (by cases hs), fun _ hc => (by cases hc)⟩

/-- No successful connect finds the cell filled. -/
def ConnectsEmpty (russh : Russh Key Sig) (calls : List (Call Key)) : Prop :=
  ∀ before config world, before ++ [.connect config world] <+: calls →
    (dial russh config world).isOk → (performAll russh .new before).sftp = none

theorem performAll_paired (h : ConnectsEmpty russh calls) :
    Paired (performAll russh .new calls) := by
  induction calls using List.reverseRecOn with
  | nil => exact fun _ hc => (by cases hc)
  | append_singleton calls call ih =>
    have hpaired := ih fun before config world hpre =>
      h before config world (hpre.trans (List.prefix_append calls [call]))
    rw [performAll_concat]
    refine perform_paired hpaired fun config world hcall => ?_
    exact h calls config world (hcall ▸ List.prefix_rfl)

/-- File operations stay on the session of the last successful connect, and fail with
`NotConnected` without one, exactly as long as no successful connect finds the cell filled. -/
theorem stays_on_current_iff (russh : Russh Key Sig) (calls : List (Call Key)) :
    (∀ before, before <+: calls →
        StaysOn (currentSession russh before) (performAll russh .new before)) ↔
      ConnectsEmpty russh calls := by
  constructor
  · intro h before config world hpre hok
    have hstays := h _ hpre
    rw [← session_eq_currentSession, performAll_concat] at hstays
    cases hd : dial russh config world with
    | error e => simp [hd, Except.isOk, Except.toBool] at hok
    | ok session =>
      by_contra hfilled
      obtain ⟨sftp, hc⟩ := Option.ne_none_iff_exists'.mp hfilled
      have hafter : perform russh (performAll russh .new before) (.connect config world) =
          { performAll russh .new before with
            session := some ⟨(performAll russh .new before).nextNumber⟩
            nextNumber := (performAll russh .new before).nextNumber + 1 } := by
        simp only [perform, SshClient.connect, hd]
      rw [hafter] at hstays
      -- the number of the cell's session is an old one
      have hnumber := openedOn_of_staysOn hstays rfl hc
      have hlt := (performAll_fresh russh fresh_new before).sftp sftp hc
      rw [hnumber] at hlt
      exact Nat.lt_irrefl _ hlt
  · intro h before hpre
    rw [← session_eq_currentSession]
    exact staysOn_of_paired (performAll_paired fun earlier config world hbefore =>
      h earlier config world (hbefore.trans hpre))

def answering : World Algorithm where
  loadPrivateKey _ _ := .error "no keys".toList
  handshake := .connected
  agent := ⟨.error "no agent".toList, .ok []⟩
  session := ⟨fun _ _ => .ok true, fun _ _ _ => .ok false, fun _ _ _ => .ok false⟩

def login (host : Text) : Call Algorithm :=
  .connect ⟨host, 22, "me".toList, .password "secret".toList⟩ answering

def listing : Call Algorithm := .fileOperation ⟨.ok (), .ok (), .ok ()⟩ fun _ => .ok ()

/-- A second host, and its files are those of the first. -/
theorem reconnect_stale :
    ¬∀ before, before <+: [login "a".toList, listing, login "b".toList] →
      StaysOn (currentSession sampleRussh before) (performAll sampleRussh .new before) := by
  intro h
  have hclient : performAll sampleRussh .new [login "a".toList, listing, login "b".toList] =
      ⟨some ⟨1⟩, some ⟨⟨0⟩⟩, 2⟩ := rfl
  have hcurrent : currentSession sampleRussh [login "a".toList, listing, login "b".toList] =
      some ⟨1⟩ := rfl
  have hstays := h _ List.prefix_rfl
  rw [hclient, hcurrent] at hstays
  cases openedOn_of_staysOn hstays rfl rfl

end SshCommander.SftpSessions
