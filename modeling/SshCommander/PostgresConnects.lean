import SshCommander.DroppedConnections

/-!
# Opening Postgres connections

`create_postgres_connection` before, around and after the manager's own steps: the credential is
resolved, the tunnel is opened through an SSH connection of the manager, and the pool and the guard
of the tunnel go together from there on. A call can be dropped wherever it waits.
-/

namespace SshCommander.PostgresConnects
open InterleavedTasks RustText ConnectionManager DroppedConnections

inductive PgAuthMethod where
  | password (password : Text)
  | keychain (account : Text)
  deriving DecidableEq, Repr

inductive PgTlsMode where
  | disable
  | prefer
  | require
  | verifyFull
  deriving DecidableEq, Repr

structure PgConfig where
  host : Text
  port : UInt16
  database : Text
  user : Text
  auth : PgAuthMethod
  tls : PgTlsMode
  applicationName : Option Text
  connectTimeoutSecs : Option ℕ
  maxPoolSize : Option ℕ
  idleTimeoutSecs : Option ℕ
  minIdleConnections : Option ℕ
  deriving DecidableEq, Repr

structure SshTunnelRef where
  sshConnectionId : Text
  remoteHost : Text
  remotePort : UInt16
  deriving DecidableEq, Repr

inductive PgError where
  | connect (message : Text)
  | auth (message : Text)
  | unresolvedCredential (message : Text)
  | tunnel (message : Text)
  | tunnelSourceMissing (message : Text)
  deriving DecidableEq, Repr

def PgError.display : PgError → Text
  | .connect message => "postgres connect failed: ".toList ++ message
  | .auth message => "postgres auth failed: ".toList ++ message
  | .unresolvedCredential message => "unresolved credential: ".toList ++ message
  | .tunnel message => "ssh tunnel error: ".toList ++ message
  | .tunnelSourceMissing message => "ssh tunnel source not found: ".toList ++ message

inductive SslMode where
  | disable
  | prefer
  | require
  deriving DecidableEq, Repr

structure DriverConfig where
  host : Text
  port : UInt16
  dbname : Text
  user : Text
  password : Option Text
  applicationName : Option Text
  connectTimeout : Option ℕ
  sslMode : SslMode
  deriving DecidableEq, Repr

def PgTlsMode.sslMode : PgTlsMode → SslMode
  | .disable => .disable
  | .prefer => .prefer
  | .require | .verifyFull => .require

def buildDriverConfig (cfg : PgConfig) : Except PgError DriverConfig :=
  match cfg.auth with
  | .keychain account => .error (.unresolvedCredential
      ("keychain credential for account '".toList ++ account ++ ("' must be resolved to a password " ++
        "before PgPool::connect (ssh-commander-core's ConnectionManager does this)").toList))
  | .password password => .ok ⟨cfg.host, cfg.port, cfg.database, cfg.user,
      if password.isEmpty then none else some password, cfg.applicationName,
      cfg.connectTimeoutSecs, cfg.tls.sslMode⟩

/-- `PgPool::connect`, with what the driver's connect comes to. -/
def connectPool (cfg : PgConfig) (connect : Except PgError Unit) : Except PgError Unit :=
  (buildDriverConfig cfg).bind fun _ => connect

/-- What the blocking pool brings: a join error, or the answer of `load_password`. -/
abbrev KeychainAnswer := Except Text (Except Text (Option Text))

def resolvePgCredentials (config : PgConfig) (answer : KeychainAnswer) : Except Text PgConfig :=
  match config.auth with
  | .password _ => .ok config
  | .keychain account =>
    match answer with
    | .error e => .error ("keychain lookup task failed: ".toList ++ e)
    | .ok (.error e) => .error (PgError.auth
        ("keychain load failed for ".toList ++ account ++ ": ".toList ++ e)).display
    | .ok (.ok none) => .error (PgError.auth
        ("no keychain entry for postgres account ".toList ++ account)).display
    | .ok (.ok (some password)) => .ok { config with auth := .password password }

structure Request where
  connectionId : Text
  config : PgConfig
  tunnel : Option SshTunnelRef
  deriving DecidableEq, Repr

/-- An `SshTunnel` that was opened. It forwards through the client of `source`. -/
structure Tunnel where
  source : ManagedConnection
  remoteHost : Text
  remotePort : UInt16
  localPort : UInt16
  cancelled : Bool
  deriving DecidableEq, Repr

structure Pool where
  request : Request
  config : PgConfig
  tunnel : Option ℕ
  deriving DecidableEq, Repr

structure Shared where
  manager : Manager
  tunnels : List Tunnel
  pools : List (ManagedConnection × Pool)

namespace Shared

def new : Shared := ⟨.new, [], []⟩

def tunnelOf (x : Shared) (conn : ManagedConnection) : Option ℕ :=
  (x.pools.lookup conn).bind (·.tunnel)

def close (x : Shared) (ks : List ℕ) : Shared :=
  { x with tunnels := x.tunnels.mapIdx fun k tun =>
      if k ∈ ks then { tun with cancelled := true } else tun }

end Shared

/-- Where a call stands. `guard` is a tunnel that the call has next to its connections. -/
inductive Stage where
  | resolving
  | lookingUp (config : PgConfig) (tunnel : SshTunnelRef)
  | binding (config : PgConfig) (tunnel : SshTunnelRef) (source : ManagedConnection)
  | refused (message : Text)
  | within (t : ConnectionManager.Task) (config : Option PgConfig) (guard : Option ℕ)
  | dropped (t : ConnectionManager.Task)
  deriving DecidableEq

/-- A call of the manager; `request` where it is a `create_postgres_connection`. -/
structure Call where
  request : Option Request
  stage : Stage
  deriving DecidableEq

structure Event where
  manager : ConnectionManager.Event
  connect : Except PgError Unit
  keychain : KeychainAnswer
  bind : Except Text UInt16
  dropped : Bool

def starts (c : Call) : Bool :=
  match c.request, c.stage with
  | some _, .resolving => true
  | none, .within (.create _ kind) none none => kind != .postgres
  | none, .within t none none => ConnectionManager.starts t
  | _, _ => false

def Call.done (c : Call) : Bool :=
  match c.stage with
  | .refused _ | .dropped _ => true
  | .within t _ _ => t.done
  | _ => false

def owned : ConnectionManager.Task → List (Text × ManagedConnection)
  | .clearing id _ (.ok conn) => [(id, conn)]
  | t => held t

/-- The tunnels that go when the call goes. -/
def guards (x : Shared) : Stage → List ℕ
  | .within t _ guard => guard.toList ++ (owned t).filterMap fun y => x.tunnelOf y.2
  | _ => []

/-- The manager's task of a call; a call that is not there yet is one that has not begun. -/
def Call.task (c : Call) : ConnectionManager.Task :=
  match c.stage with
  | .within t _ _ | .dropped t => t
  | _ => .create (c.request.elim [] (·.connectionId)) .postgres

/-- What becomes of the pools, the guards and the call's own guard when the task moves on. -/
def settle (x : Shared) (request : Option Request) (config : Option PgConfig) (guard : Option ℕ)
    (t t' : ConnectionManager.Task) : Shared × Option PgConfig × Option ℕ :=
  match t, t' with
  | .create .., _ | .selecting .., .clearing _ _ (.error _) => (x, config, guard)
  | .selecting _ .postgres _, .clearing _ _ (.ok conn) =>
    match request, config with
    | some r, some config =>
      ({ x with pools := (conn, ⟨r, config, guard⟩) :: x.pools }, none, none)
    | _, _ => (x, config, guard)
  -- `connect_result?` returns with the guard
  | .clearing _ _ (.error _), _ => (x.close guard.toList, none, none)
  -- the pool was shut down; the rest of the connection is dropped where the function returns
  | .disconnecting _ old _, .publishing _ _ => (x, none, x.tunnelOf old)
  | .publishing .., _ => (x.close guard.toList, none, none)
  | .disconnecting _ old next, .failed _ =>
    (x.close ((old :: next.toList).filterMap x.tunnelOf), none, none)
  -- `insert` drops what was there
  | .inserting id _, _ =>
    (x.close ((x.manager.connections.lookup id).toList.filterMap x.tunnelOf), none, none)
  | _, _ => (x, config, guard)

def step (x : Shared) (c : Call) (e : Event) : Option (Shared × Call) :=
  if c.done then none
  else if e.dropped then some (x.close (guards x c.stage), ⟨c.request, .dropped c.task⟩)
  else
    match c.stage with
    | .resolving =>
      c.request.bind fun r =>
        match resolvePgCredentials r.config e.keychain with
        | .error message => some (x, ⟨c.request, .refused message⟩)
        | .ok config =>
          match r.tunnel with
          | none => some (x, ⟨c.request, .within (.create r.connectionId .postgres) config none⟩)
          | some t => some (x, ⟨c.request, .lookingUp config t⟩)
    | .lookingUp config t =>
      match x.manager.getConnection t.sshConnectionId with
      | none => some (x, ⟨c.request, .refused (PgError.tunnelSourceMissing ("ssh connection '".toList ++
          t.sshConnectionId ++ "' is not registered or has been closed".toList)).display⟩)
      | some source => some (x, ⟨c.request, .binding config t source⟩)
    | .binding config t source =>
      c.request.bind fun r =>
        match e.bind with
        | .error message => some (x, ⟨c.request, .refused (PgError.tunnel message).display⟩)
        | .ok localPort =>
          some ({ x with tunnels := x.tunnels ++ [⟨source, t.remoteHost, t.remotePort, localPort, false⟩] },
            ⟨c.request, .within (.create r.connectionId .postgres)
              (some { config with host := "127.0.0.1".toList, port := localPort }) x.tunnels.length⟩)
    | .within t config guard =>
      let connect := config.elim e.manager.connect fun config =>
        (connectPool config e.connect).mapError PgError.display
      (ConnectionManager.step x.manager t { e.manager with connect := connect }).map fun (m', t') =>
        let (x', config', guard') := settle x c.request config guard t t'
        ({ x' with manager := m' }, ⟨c.request, .within t' config' guard'⟩)
    | .refused _ | .dropped _ => none

def connects : TaskSystem Shared Call Event := ⟨starts, step⟩

end SshCommander.PostgresConnects
