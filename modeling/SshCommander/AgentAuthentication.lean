import SshCommander.ServerKeyCheck
import SshCommander.TextSplitting

/-!
# Authentication by key file and by agent

`connect_authenticated` offers an RSA key of a file under three signature algorithms and one of the
agent under SHA-1 only. The agent is as capable as the file exactly when this makes no difference
to the server.
-/

namespace SshCommander.AgentAuthentication
open RustText ServerKeyCheck

inductive HashAlg where
  | sha256
  | sha512
  deriving DecidableEq, Repr

/-- `russh::keys::Algorithm`, less the curves and hashes it carries. -/
inductive Algorithm where
  | dsa
  | ecdsa
  | ed25519
  | rsa
  | skEcdsaSha2NistP256
  | skEd25519
  | other (name : Text)
  deriving DecidableEq, Repr

/-- What the code relies on in russh: how a key is written, and the algorithm that a signature
with a key is made under. -/
structure Russh (Key Sig : Type) where
  algorithm : Key → Algorithm
  publicKeyBase64 : Key → Text
  signature : Key → Option HashAlg → Sig
  sha1 : Sig
  rsa_none : ∀ key, algorithm key = .rsa → signature key none = sha1
  others_ignore : ∀ key hash, algorithm key ≠ .rsa → signature key hash = signature key none

/-- An identity of the agent. A certificate has the key that it certifies. -/
inductive AgentIdentity (Key : Type) where
  | publicKey (key : Key) (comment : Text)
  | certificate (key : Key) (comment : Text)
  deriving DecidableEq, Repr

namespace AgentIdentity

def key {Key : Type} : AgentIdentity Key → Key
  | .publicKey key _ => key
  | .certificate key _ => key

end AgentIdentity

structure AgentClient (Key : Type) where
  connectEnv : Except Text Unit
  requestIdentities : Except Text (List (AgentIdentity Key))

inductive SshError where
  | hostKeyVerification (failure : HostKeyVerificationFailure)
  | connectTimeout (seconds : ℕ)
  | connect (host : Text) (port : UInt16) (message : Text)
  | auth (message : Text)
  | keyLoad (message : Text)
  deriving DecidableEq, Repr

/-- What `client::connect` comes to under its timeout. A failure leaves what the handler put in
its slot. -/
inductive Handshake where
  | connected
  | elapsed
  | failed (error : Text) (slot : Option HostKeyVerificationFailure)
  deriving DecidableEq, Repr

/-- A connected session, as far as it answers requests for authentication. -/
structure AuthSession (Key : Type) where
  authenticatePassword : Text → Text → Except Text Bool
  authenticatePublickey : Text → Key → Option HashAlg → Except Text Bool
  authenticatePublickeyWith : Text → Key → Option HashAlg → Except Text Bool

inductive ResolvedAuth (Key : Type) where
  | password (password : Text)
  | key (key : Key) (keyPathHint : Option Text)
  | agent (identityHint : Option Text)

variable {Key Sig : Type} (russh : Russh Key Sig)

def selectAgentIdentity (identities : List (AgentIdentity Key)) (identityHint : Option Text) :
    Option (AgentIdentity Key) :=
  match (identityHint.map trim).filter (! ·.isEmpty) with
  | none => identities.head?
  | some hint => identities.find? fun identity =>
    let encoded := russh.publicKeyBase64 identity.key
    containsText encoded hint || containsText hint encoded

def hostPort (host : Text) (port : UInt16) : Text := host ++ ':' :: (toString port.toNat).toList

def connectMessage (host : Text) (port : UInt16) (e : Text) : Text :=
  if containsText e "reset by peer".toList || containsText e "ConnectionReset".toList ||
      containsText e "kex_exchange_identification".toList then
    "The SSH server at ".toList ++ hostPort host port ++
      " accepted the TCP connection but then reset it during the handshake (".toList ++ e ++
      (").\n\nThis usually means the server is rejecting your source IP or SSH client via a " ++
        "firewall / access list. Try:\n- Confirm your public IP is on the server's allowlist " ++
        "(ask the service operator).\n- Connect over a VPN that terminates inside the allowed " ++
        "network.\n- Verify the host and port are correct for external access (some services " ++
        "publish a different SFTP endpoint).").toList
  else "Failed to connect to ".toList ++ hostPort host port ++ ": ".toList ++ e

def ResolvedAuth.keyHintForError : ResolvedAuth Key → Option Text
  | .password _ => none
  | .key _ keyPathHint => keyPathHint
  | .agent identityHint =>
    some ((identityHint.filter (! ·.isEmpty)).getD "SSH agent".toList)

/-- The signature algorithms that a key file is offered under, in this order. -/
def hashAlgs : Algorithm → List (Option HashAlg)
  | .rsa => [some .sha512, some .sha256, none]
  | _ => [none]

/-- The loop over `hash_algs`. It ends at the first one that the server accepts. -/
def offerKey (session : AuthSession Key) (username : Text) (key : Key) :
    List (Option HashAlg) → Except SshError Bool
  | [] => .ok false
  | hashAlg :: hashAlgs =>
    match session.authenticatePublickey username key hashAlg with
    | .error e =>
      .error (.auth ("Public key authentication failed: ".toList ++ e ++
        ". The key may not be authorized on the server.".toList))
    | .ok success => if success then .ok true else offerKey session username key hashAlgs

def noIdentityMessage (identityHint : Option Text) : Text :=
  match identityHint.filter (! ·.isEmpty) with
  | some hint =>
    "SSH agent has no identity matching '".toList ++ hint ++
      "'. Add the key to your agent or clear the identity hint.".toList
  | none => "SSH agent has no identities. Add a key to your agent and try again.".toList

def authenticateAgent (agent : AgentClient Key) (session : AuthSession Key) (username : Text)
    (identityHint : Option Text) : Except SshError Bool :=
  match agent.connectEnv with
  | .error e =>
    .error (.auth (("SSH agent authentication is enabled, but r-shell could not connect to " ++
      "SSH_AUTH_SOCK: ").toList ++ e))
  | .ok () =>
    match agent.requestIdentities with
    | .error e => .error (.auth ("SSH agent did not return identities: ".toList ++ e))
    | .ok identities =>
      match selectAgentIdentity russh identities identityHint with
      | none => .error (.auth (noIdentityMessage identityHint))
      | some identity =>
        match session.authenticatePublickeyWith username identity.key none with
        | .error e => .error (.auth ("SSH agent authentication failed: ".toList ++ e))
        | .ok success => .ok success

def authenticate (agent : AgentClient Key) (session : AuthSession Key) (username : Text) :
    ResolvedAuth Key → Except SshError Bool
  | .password password =>
    match session.authenticatePassword username password with
    | .error e => .error (.auth ("Password authentication failed: ".toList ++ e))
    | .ok success => .ok success
  | .key key _ => offerKey session username key (hashAlgs (russh.algorithm key))
  | .agent identityHint => authenticateAgent russh agent session username identityHint

def rejectedMessage (username host : Text) : Option Text → Text
  | none =>
    "Authentication failed for ".toList ++ username ++ '@' :: host ++
      " with password authentication.".toList
  | some path =>
    "Authentication failed for ".toList ++ username ++ '@' :: host ++
      " using public key ".toList ++ path ++ ".".toList

/-- `connect_authenticated`, with the handshake, the agent and the session that the handshake
gives as the world answers. -/
def connectAuthenticated (handshake : Handshake) (agent : AgentClient Key)
    (session : AuthSession Key) (host : Text) (port : UInt16) (username : Text)
    (auth : ResolvedAuth Key) (timeout : ℕ) : Except SshError (AuthSession Key) :=
  match handshake with
  | .elapsed => .error (.connectTimeout timeout)
  | .failed _ (some failure) => .error (.hostKeyVerification failure)
  | .failed e none => .error (.connect host port (connectMessage host port e))
  | .connected =>
    match authenticate russh agent session username auth with
    | .error e => .error e
    | .ok true => .ok session
    | .ok false => .error (.auth (rejectedMessage username host auth.keyHintForError))

/-- Whom a server lets in: its passwords, the keys it authorises for a user, and the signature
algorithms it accepts. -/
structure ServerPolicy (Key Sig : Type) where
  password : Text → Text → Bool
  authorized : Text → Key → Bool
  accepted : Sig → Bool

namespace ServerPolicy

def admits (policy : ServerPolicy Key Sig) (username : Text) (key : Key)
    (hashAlg : Option HashAlg) : Bool :=
  policy.authorized username key && policy.accepted (russh.signature key hashAlg)

def session (policy : ServerPolicy Key Sig) : AuthSession Key :=
  ⟨fun username password => .ok (policy.password username password),
    fun username key hashAlg => .ok (policy.admits russh username key hashAlg),
    fun username key hashAlg => .ok (policy.admits russh username key hashAlg)⟩

end ServerPolicy

variable {russh} {policy : ServerPolicy Key Sig} {session : AuthSession Key}
  {agent : AgentClient Key} {identities : List (AgentIdentity Key)} {hint : Option Text}
  {username : Text} {key : Key}

/-- The loop succeeds exactly where one of the algorithms does. -/
theorem offerKey_session (hashAlgs : List (Option HashAlg)) :
    offerKey (policy.session russh) username key hashAlgs =
      .ok (hashAlgs.any (policy.admits russh username key)) := by
  induction hashAlgs with
  | nil => rfl
  | cons hashAlg hashAlgs ih =>
    have hanswer : (policy.session russh).authenticatePublickey username key hashAlg =
        .ok (policy.admits russh username key hashAlg) := rfl
    rw [offerKey, hanswer, List.any_cons]
    cases policy.admits russh username key hashAlg with
    | true => simp
    | false => simpa using ih

theorem authenticateAgent_session (hc : agent.connectEnv = .ok ())
    (hi : agent.requestIdentities = .ok identities)
    (hs : (selectAgentIdentity russh identities hint).map (·.key) = some key) :
    authenticateAgent russh agent (policy.session russh) username hint =
      .ok (policy.admits russh username key none) := by
  obtain ⟨identity, hselect, rfl⟩ := Option.map_eq_some_iff.mp hs
  simp only [authenticateAgent, hc, hi, hselect]
  rfl

/-- A connection succeeds exactly where the handshake and the authentication do. -/
theorem connectAuthenticated_isOk {handshake : Handshake} {host : Text} {port : UInt16}
    {auth : ResolvedAuth Key} {timeout : ℕ} {success : Bool}
    (h : authenticate russh agent session username auth = .ok success) :
    (connectAuthenticated russh handshake agent session host port username auth timeout).isOk ↔
      handshake = .connected ∧ success = true := by
  cases handshake with
  | connected => cases success <;> simp [connectAuthenticated, h, Except.isOk, Except.toBool]
  | elapsed => simp [connectAuthenticated, Except.isOk, Except.toBool]
  | failed e slot => cases slot <;> simp [connectAuthenticated, Except.isOk, Except.toBool]

/-- The file offers more than the agent only where an RSA key comes with a SHA-2 signature. -/
theorem any_admits_iff :
    (hashAlgs (russh.algorithm key)).any (policy.admits russh username key) ↔
      policy.admits russh username key none ∨
        russh.algorithm key = .rsa ∧ (policy.admits russh username key (some .sha512) ∨
          policy.admits russh username key (some .sha256)) := by
  by_cases hrsa : russh.algorithm key = .rsa
  · simp only [hrsa, hashAlgs, List.any_cons, List.any_nil, Bool.or_eq_true, true_and]
    tauto
  · have hone : hashAlgs (russh.algorithm key) = [none] := by
      cases halg : russh.algorithm key <;> simp_all [hashAlgs]
    simp [hone, hrsa]

/-- The agent connects wherever the key file does, exactly when the server does not insist on a
SHA-2 signature of an authorised RSA key. -/
theorem agent_as_capable_iff (russh : Russh Key Sig) (policy : ServerPolicy Key Sig)
    (handshake : Handshake) (agent : AgentClient Key) (identities : List (AgentIdentity Key))
    (hint path : Option Text) (key : Key) (host username : Text) (port : UInt16) (timeout : ℕ)
    (reachable : agent.connectEnv = .ok ()) (lists : agent.requestIdentities = .ok identities)
    (selects : (selectAgentIdentity russh identities hint).map (·.key) = some key) :
    ((connectAuthenticated russh handshake agent (policy.session russh) host port username
        (.key key path) timeout).isOk →
      (connectAuthenticated russh handshake agent (policy.session russh) host port username
        (.agent hint) timeout).isOk) ↔
      (handshake = .connected → russh.algorithm key = .rsa → policy.authorized username key →
        (policy.accepted (russh.signature key (some .sha512)) ∨
          policy.accepted (russh.signature key (some .sha256))) →
        policy.accepted russh.sha1) := by
  have hfile : authenticate russh agent (policy.session russh) username (.key key path) =
      .ok ((hashAlgs (russh.algorithm key)).any (policy.admits russh username key)) :=
    offerKey_session _
  have hagent : authenticate russh agent (policy.session russh) username (.agent hint) =
      .ok (policy.admits russh username key none) :=
    authenticateAgent_session reachable lists selects
  rw [connectAuthenticated_isOk hfile, connectAuthenticated_isOk hagent, any_admits_iff]
  by_cases hrsa : russh.algorithm key = .rsa
  · simp only [ServerPolicy.admits, russh.rsa_none key hrsa, hrsa, Bool.and_eq_true, true_and,
      true_implies]
    tauto
  · simp only [hrsa, false_and, or_false, imp_self, false_implies, implies_true]

/-- RSA keys and others, told apart by the algorithm; a key is written as its first letter. -/
def sampleRussh : Russh Algorithm (Option HashAlg × Algorithm) where
  algorithm := id
  publicKeyBase64 key := if key = .rsa then "AAAAB3NzaC1yc2E".toList else "AAAAC3NzaC1lZDI1".toList
  signature key hash := if key = .rsa then (hash, .rsa) else (none, key)
  sha1 := (none, .rsa)
  rsa_none _ h := if_pos h
  others_ignore _ _ h := (if_neg h).trans (if_neg h).symm

/-- A server that authorises everyone's keys and, as OpenSSH does, no longer takes SHA-1. -/
def modernPolicy : ServerPolicy Algorithm (Option HashAlg × Algorithm) :=
  ⟨fun _ _ => false, fun _ _ => true, fun sig => sig ≠ (none, .rsa)⟩

def rsaAgent : AgentClient Algorithm :=
  ⟨.ok (), .ok [.publicKey .rsa "me@laptop".toList]⟩

theorem agent_as_capable_modern :
    (connectAuthenticated sampleRussh .connected rsaAgent (modernPolicy.session sampleRussh)
      "h".toList 22 "me".toList (.key .rsa none) 10).isOk ∧
      ¬(connectAuthenticated sampleRussh .connected rsaAgent (modernPolicy.session sampleRussh)
        "h".toList 22 "me".toList (.agent none) 10).isOk := by
  decide

def mixedAgent : AgentClient Algorithm :=
  ⟨.ok (), .ok [.publicKey .rsa [], .certificate .ed25519 []]⟩

/-- An Ed25519 key that a hint finds is taken from the agent too. -/
theorem agent_as_capable_ed25519 :
    (connectAuthenticated sampleRussh .connected mixedAgent (modernPolicy.session sampleRussh)
      "h".toList 22 "me".toList (.agent (some "NzaC1lZDI1".toList)) 10).isOk :=
  (agent_as_capable_iff sampleRussh modernPolicy .connected mixedAgent
    [.publicKey .rsa [], .certificate .ed25519 []]
    (some "NzaC1lZDI1".toList) none .ed25519 "h".toList "me".toList 22 10 rfl rfl
    (by decide +kernel)).mpr (fun _ hrsa => by cases hrsa) (by decide +kernel)

end SshCommander.AgentAuthentication
