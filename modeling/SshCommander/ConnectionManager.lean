import SshCommander.PtyRegistry

/-!
# The connection manager

`ConnectionManager` as calls over its shared state: the map of connections, the PTY registry, the
map of pending connects and the event sink. A step of a call is one section under one of the
locks, one event, or one wait for the network. Tokens, connections and sessions are numbers, and
no number is given out twice.
-/

namespace SshCommander.ConnectionManager
open InterleavedTasks RustText PtyRegistry

abbrev Token := ℕ

inductive ProtocolKind where
  | ssh
  | sftp
  | ftp
  | rdp
  | vnc
  | postgres
  deriving DecidableEq, Repr

def ProtocolKind.asStr : ProtocolKind → Text
  | .ssh => "SSH".toList
  | .sftp => "SFTP".toList
  | .ftp => "FTP".toList
  | .rdp => "RDP".toList
  | .vnc => "VNC".toList
  | .postgres => "POSTGRES".toList

/-- One managed connection, which is the `number`th to be opened. -/
structure ManagedConnection where
  kind : ProtocolKind
  number : ℕ
  deriving DecidableEq, Repr

inductive ConnectionSlotKind where
  | ssh
  | sftp
  | ftp
  | desktop
  | postgres
  deriving DecidableEq, Repr

namespace ConnectionSlotKind

def label : ConnectionSlotKind → Text
  | .ssh => "SSH".toList
  | .sftp => "SFTP".toList
  | .ftp => "FTP".toList
  | .desktop => "desktop".toList
  | .postgres => "postgres".toList

def isMatch : ConnectionSlotKind → ManagedConnection → Bool
  | .ssh, m => m.kind = .ssh
  | .sftp, m => m.kind = .sftp
  | .ftp, m => m.kind = .ftp
  | .desktop, m => m.kind = .rdp ∨ m.kind = .vnc
  | .postgres, m => m.kind = .postgres

end ConnectionSlotKind

inductive ConnectionStatus where
  | connected
  | disconnected
  deriving DecidableEq, Repr

structure Manager where
  connections : AList fun _ : Text => ManagedConnection
  ptys : Registry
  pendingConnections : AList fun _ : Text => Token
  /-- How many tokens were made, and how many connections were opened. -/
  tokens : ℕ
  opened : ℕ
  cancelled : List Token
  /-- The connections handed to `replace_managed_connection`, each with its id. -/
  handed : List (Text × ManagedConnection)
  /-- The connections whose disconnect or shutdown was called. -/
  disconnected : List ManagedConnection
  /-- The published status events, the last one first. -/
  events : List (Text × ConnectionStatus)

/-- What the network and `tokio::select!` decide in one step. -/
structure Event where
  connect : Except Text Unit
  /-- `select!` takes the branch of the token; it may when the token is cancelled. -/
  choosesCancel : Bool
  /-- What `disconnect` returns; every client of today returns `Ok`, whatever the peer does. -/
  disconnect : Except Text Unit
  pty : Except Text Unit

def Event.fine : Event := ⟨.ok (), false, .ok (), .ok ()⟩

namespace Manager

def new : Manager := ⟨∅, .new, ∅, 0, 0, [], [], [], []⟩

def registerPendingConnection (m : Manager) (id : Text) : Manager × Token :=
  ({ m with pendingConnections := m.pendingConnections.insert id m.tokens, tokens := m.tokens + 1 },
    m.tokens)

def clearPendingConnection (m : Manager) (id : Text) : Manager :=
  { m with pendingConnections := m.pendingConnections.erase id }

def cancelPendingConnection (m : Manager) (id : Text) : Manager × Option Token :=
  match m.pendingConnections.lookup id with
  | none => (m, none)
  | some token =>
    ({ m with pendingConnections := m.pendingConnections.erase id, cancelled := token :: m.cancelled },
      some token)

def openConnection (m : Manager) (kind : ProtocolKind) : Manager × ManagedConnection :=
  ({ m with opened := m.opened + 1 }, ⟨kind, m.opened⟩)

def hand (m : Manager) (id : Text) (conn : ManagedConnection) : Manager :=
  { m with handed := (id, conn) :: m.handed }

def removeConnection (m : Manager) (id : Text) : Manager :=
  { m with connections := m.connections.erase id }

/-- `connections.insert`: a connection that was there is dropped. -/
def insertConnection (m : Manager) (id : Text) (conn : ManagedConnection) : Manager :=
  { m with connections := m.connections.insert id conn }

def disconnect (m : Manager) (conn : ManagedConnection) : Manager :=
  { m with disconnected := conn :: m.disconnected }

def publish (m : Manager) (id : Text) (status : ConnectionStatus) : Manager :=
  { m with events := (id, status) :: m.events }

def setPtys (m : Manager) (ptys : Registry) : Manager := { m with ptys := ptys }

def getConnection (m : Manager) (id : Text) : Option ManagedConnection :=
  (m.connections.lookup id).filter (·.kind = .ssh)

variable (m : Manager) (id : Text)

@[simp] theorem cancelPendingConnection_connections :
    (m.cancelPendingConnection id).1.connections = m.connections := by
  unfold cancelPendingConnection
  split <;> rfl

@[simp] theorem cancelPendingConnection_ptys :
    (m.cancelPendingConnection id).1.ptys = m.ptys := by
  unfold cancelPendingConnection
  split <;> rfl

@[simp] theorem cancelPendingConnection_opened :
    (m.cancelPendingConnection id).1.opened = m.opened := by
  unfold cancelPendingConnection
  split <;> rfl

@[simp] theorem cancelPendingConnection_handed :
    (m.cancelPendingConnection id).1.handed = m.handed := by
  unfold cancelPendingConnection
  split <;> rfl

@[simp] theorem cancelPendingConnection_disconnected :
    (m.cancelPendingConnection id).1.disconnected = m.disconnected := by
  unfold cancelPendingConnection
  split <;> rfl

@[simp] theorem cancelPendingConnection_events :
    (m.cancelPendingConnection id).1.events = m.events := by
  unfold cancelPendingConnection
  split <;> rfl

end Manager

/-- Where a call stands. `next` is the replacement that `replace_managed_connection` goes on to
insert; a close has none. -/
inductive Task where
  | create (id : Text) (kind : ProtocolKind)
  | selecting (id : Text) (kind : ProtocolKind) (token : Token)
  | clearing (id : Text) (token : Token) (result : Except Text ManagedConnection)
  | opening (id : Text) (kind : ProtocolKind)
  | replacing (id : Text) (conn : ManagedConnection)
  | close (id : Text) (expected : ConnectionSlotKind)
  | purgingSession (id : Text) (old : ManagedConnection) (next : Option ManagedConnection)
  | purgingGeneration (id : Text) (old : ManagedConnection) (next : Option ManagedConnection)
  | disconnecting (id : Text) (old : ManagedConnection) (next : Option ManagedConnection)
  | publishing (id : Text) (next : Option ManagedConnection)
  | inserting (id : Text) (conn : ManagedConnection)
  | announcing (id : Text)
  | startPty (id : Text)
  | cancellingPty (id : Text) (conn : ManagedConnection)
  | creatingPty (id : Text) (conn : ManagedConnection)
  | bumping (id : Text) (s : PtySession)
  | storing (id : Text) (s : PtySession) (g : ℕ)
  | closePty (id : Text) (expectedGen : Option ℕ)
  | removingPty (id : Text) (g : ℕ)
  | cancelPending (id : Text)
  | started (g : ℕ)
  | answered (token : Option Token)
  | finished
  | failed (message : Text)
  deriving DecidableEq

/-- Only the SSH and the Postgres connect can be cancelled. -/
def ProtocolKind.cancellable : ProtocolKind → Bool
  | .ssh | .postgres => true
  | _ => false

/-- `disconnect_managed_connection`: an SSH connection takes its PTY state with it. -/
def disconnectManagedConnection (id : Text) (old : ManagedConnection)
    (next : Option ManagedConnection) : Task :=
  if old.kind = .ssh then .purgingSession id old next else .disconnecting id old next

def kindMismatch (id : Text) (conn : ManagedConnection) (expected : ConnectionSlotKind) : Text :=
  "Connection '".toList ++ id ++ "' is ".toList ++ conn.kind.asStr ++ ", not ".toList ++
    expected.label

def cancelledByUser : Text := "Connection cancelled by user".toList

def starts : Task → Bool
  | .create .. | .close .. | .startPty _ | .closePty .. | .cancelPending _ => true
  | _ => false

def Task.done : Task → Bool
  | .started _ | .answered _ | .finished | .failed _ => true
  | _ => false

/-- One step of one call; `none` while it waits, and at its end. A disconnect may fail here, as its
type lets it: no client of today makes it fail. -/
def step (m : Manager) (t : Task) (e : Event) : Option (Manager × Task) :=
  match t with
  | .create id kind =>
    if kind.cancellable then
      let (m', token) := m.registerPendingConnection id
      some (m', .selecting id kind token)
    else some (m, .opening id kind)
  | .selecting id kind token =>
    if e.choosesCancel then
      if token ∈ m.cancelled then some (m, .clearing id token (.error cancelledByUser)) else none
    else
      match e.connect with
      | .error message => some (m, .clearing id token (.error message))
      | .ok () =>
        let (m', conn) := m.openConnection kind
        some (m', .clearing id token (.ok conn))
  | .clearing id _ (.error message) => some (m.clearPendingConnection id, .failed message)
  | .clearing id _ (.ok conn) => some ((m.clearPendingConnection id).hand id conn, .replacing id conn)
  | .opening id kind =>
    match e.connect with
    | .error message => some (m, .failed message)
    | .ok () =>
      let (m', conn) := m.openConnection kind
      some (m'.hand id conn, .replacing id conn)
  | .replacing id conn =>
    match m.connections.lookup id with
    | none => some (m, .inserting id conn)
    | some old => some (m.removeConnection id, disconnectManagedConnection id old (some conn))
  | .close id expected =>
    match m.connections.lookup id with
    | none => some (m, .finished)
    | some current =>
      if expected.isMatch current then
        some (m.removeConnection id, disconnectManagedConnection id current none)
      else some (m, .failed (kindMismatch id current expected))
  | .purgingSession id old next =>
    some (m.setPtys (m.ptys.take id), .purgingGeneration id old next)
  | .purgingGeneration id old next =>
    some (m.setPtys (m.ptys.forget id), .disconnecting id old next)
  | .disconnecting id old next =>
    match old.kind, e.disconnect with
    | .postgres, _ | _, .ok () => some (m.disconnect old, .publishing id next)
    | _, .error message => some (m.disconnect old, .failed message)
  | .publishing id next =>
    some (m.publish id .disconnected, match next with
      | none => .finished
      | some conn => .inserting id conn)
  | .inserting id conn => some (m.insertConnection id conn, .announcing id)
  | .announcing id => some (m.publish id .connected, .finished)
  | .startPty id =>
    match m.getConnection id with
    | none => some (m, .failed "Connection not found".toList)
    | some conn => some (m, .cancellingPty id conn)
  | .cancellingPty id conn => some (m.setPtys (m.ptys.cancelExisting id), .creatingPty id conn)
  | .creatingPty id conn =>
    if conn ∈ m.disconnected then some (m, .failed "Not connected".toList)
    else
      match e.pty with
      | .error message => some (m, .failed message)
      | .ok () =>
        let (ptys, s) := m.ptys.create
        some (m.setPtys ptys, .bumping id s)
  | .bumping id s => some (m.setPtys (m.ptys.bump id).1, .storing id s (m.ptys.bump id).2)
  | .storing id s g => some (m.setPtys (m.ptys.store id s g), .started g)
  | .closePty id none => some (m.setPtys (m.ptys.take id), .finished)
  | .closePty id (some g) =>
    some (m, if m.ptys.currentGen id = g then .removingPty id g else .finished)
  | .removingPty id _ => some (m.setPtys (m.ptys.take id), .finished)
  | .cancelPending id =>
    some ((m.cancelPendingConnection id).1, .answered (m.cancelPendingConnection id).2)
  | .started _ | .answered _ | .finished | .failed _ => none

def manager : TaskSystem Manager Task Event := ⟨starts, step⟩

def advances (i n : ℕ) : List (Action Task Event) := List.replicate n (.advance i .fine)

inductive Transition (m : Manager) (e : Event) : Task → Manager → Task → Prop where
  | registered {id kind} (h : kind.cancellable = true) :
      Transition m e (.create id kind) (m.registerPendingConnection id).1
        (.selecting id kind (m.registerPendingConnection id).2)
  | notCancellable {id kind} (h : kind.cancellable = false) :
      Transition m e (.create id kind) m (.opening id kind)
  | sawCancel {id kind token} (hc : e.choosesCancel = true) (h : token ∈ m.cancelled) :
      Transition m e (.selecting id kind token) m (.clearing id token (.error cancelledByUser))
  | connectFailed {id kind token message} (hc : e.choosesCancel = false)
      (h : e.connect = .error message) :
      Transition m e (.selecting id kind token) m (.clearing id token (.error message))
  | connected {id kind token} (hc : e.choosesCancel = false) (h : e.connect = .ok ()) :
      Transition m e (.selecting id kind token) (m.openConnection kind).1
        (.clearing id token (.ok (m.openConnection kind).2))
  | clearedFailure {id token message} : Transition m e (.clearing id token (.error message))
      (m.clearPendingConnection id) (.failed message)
  | cleared {id token conn} : Transition m e (.clearing id token (.ok conn))
      ((m.clearPendingConnection id).hand id conn) (.replacing id conn)
  | openFailed {id kind message} (h : e.connect = .error message) :
      Transition m e (.opening id kind) m (.failed message)
  | opened {id kind} (h : e.connect = .ok ()) : Transition m e (.opening id kind)
      ((m.openConnection kind).1.hand id (m.openConnection kind).2)
      (.replacing id (m.openConnection kind).2)
  | nothingToReplace {id conn} (h : m.connections.lookup id = none) :
      Transition m e (.replacing id conn) m (.inserting id conn)
  | removedPrevious {id conn old} (h : m.connections.lookup id = some old) :
      Transition m e (.replacing id conn) (m.removeConnection id)
        (disconnectManagedConnection id old (some conn))
  | nothingToClose {id expected} (h : m.connections.lookup id = none) :
      Transition m e (.close id expected) m .finished
  | taken {id expected old} (h : m.connections.lookup id = some old)
      (hkind : expected.isMatch old = true) :
      Transition m e (.close id expected) (m.removeConnection id)
        (disconnectManagedConnection id old none)
  | otherKind {id expected old} (h : m.connections.lookup id = some old)
      (hkind : ¬expected.isMatch old = true) :
      Transition m e (.close id expected) m (.failed (kindMismatch id old expected))
  | purgedSession {id old next} : Transition m e (.purgingSession id old next)
      (m.setPtys (m.ptys.take id)) (.purgingGeneration id old next)
  | purgedGeneration {id old next} : Transition m e (.purgingGeneration id old next)
      (m.setPtys (m.ptys.forget id)) (.disconnecting id old next)
  | disconnected {id old next} (h : old.kind = .postgres ∨ e.disconnect = .ok ()) :
      Transition m e (.disconnecting id old next) (m.disconnect old) (.publishing id next)
  | disconnectFailed {id old next message} (hk : old.kind ≠ .postgres)
      (h : e.disconnect = .error message) :
      Transition m e (.disconnecting id old next) (m.disconnect old) (.failed message)
  | closed {id} : Transition m e (.publishing id none) (m.publish id .disconnected) .finished
  | previousClosed {id conn} : Transition m e (.publishing id (some conn))
      (m.publish id .disconnected) (.inserting id conn)
  | inserted {id conn} : Transition m e (.inserting id conn) (m.insertConnection id conn)
      (.announcing id)
  | announced {id} : Transition m e (.announcing id) (m.publish id .connected) .finished
  | noClient {id} (h : m.getConnection id = none) :
      Transition m e (.startPty id) m (.failed "Connection not found".toList)
  | client {id conn} (h : m.getConnection id = some conn) :
      Transition m e (.startPty id) m (.cancellingPty id conn)
  | ptyCancelled {id conn} : Transition m e (.cancellingPty id conn)
      (m.setPtys (m.ptys.cancelExisting id)) (.creatingPty id conn)
  | notConnected {id conn} (h : conn ∈ m.disconnected) :
      Transition m e (.creatingPty id conn) m (.failed "Not connected".toList)
  | ptyFailed {id conn message} (hc : conn ∉ m.disconnected) (h : e.pty = .error message) :
      Transition m e (.creatingPty id conn) m (.failed message)
  | ptyCreated {id conn} (hc : conn ∉ m.disconnected) (h : e.pty = .ok ()) :
      Transition m e (.creatingPty id conn) (m.setPtys m.ptys.create.1)
        (.bumping id m.ptys.create.2)
  | bumped {id s} : Transition m e (.bumping id s) (m.setPtys (m.ptys.bump id).1)
      (.storing id s (m.ptys.bump id).2)
  | stored {id s g} : Transition m e (.storing id s g) (m.setPtys (m.ptys.store id s g)) (.started g)
  | ptyRemoved {id} : Transition m e (.closePty id none) (m.setPtys (m.ptys.take id)) .finished
  | closeStale {id g} (h : m.ptys.currentGen id ≠ g) :
      Transition m e (.closePty id (some g)) m .finished
  | closeCurrent {id g} (h : m.ptys.currentGen id = g) :
      Transition m e (.closePty id (some g)) m (.removingPty id g)
  | ptyTaken {id g} : Transition m e (.removingPty id g) (m.setPtys (m.ptys.take id)) .finished
  | answered {id} : Transition m e (.cancelPending id) (m.cancelPendingConnection id).1
      (.answered (m.cancelPendingConnection id).2)

theorem step_transition {m m' : Manager} {t t' : Task} {e : Event}
    (h : step m t e = some (m', t')) : Transition m e t m' t' := by
  cases t with
  | create id kind =>
    simp only [step] at h
    split at h <;> obtain ⟨rfl, rfl⟩ := h
    · exact .registered ‹_›
    · exact .notCancellable (Bool.eq_false_of_not_eq_true ‹_›)
  | selecting id kind token =>
    simp only [step] at h
    split at h
    · split at h
      · obtain ⟨rfl, rfl⟩ := h
        exact .sawCancel ‹_› ‹_›
      · cases h
    · have hc : e.choosesCancel = false := Bool.eq_false_of_not_eq_true ‹_›
      split at h <;> obtain ⟨rfl, rfl⟩ := h
      · exact .connectFailed hc ‹_›
      · exact .connected hc ‹_›
  | clearing id token result =>
    cases result <;> obtain ⟨rfl, rfl⟩ := h
    · exact .clearedFailure
    · exact .cleared
  | opening id kind =>
    simp only [step] at h
    split at h <;> obtain ⟨rfl, rfl⟩ := h
    · exact .openFailed ‹_›
    · exact .opened ‹_›
  | replacing id conn =>
    simp only [step] at h
    split at h <;> obtain ⟨rfl, rfl⟩ := h
    · exact .nothingToReplace ‹_›
    · exact .removedPrevious ‹_›
  | close id expected =>
    simp only [step] at h
    split at h
    · obtain ⟨rfl, rfl⟩ := h
      exact .nothingToClose ‹_›
    · split at h <;> obtain ⟨rfl, rfl⟩ := h
      · exact .taken ‹_› ‹_›
      · exact .otherKind ‹_› ‹_›
  | purgingSession id old next => obtain ⟨rfl, rfl⟩ := h; exact .purgedSession
  | purgingGeneration id old next => obtain ⟨rfl, rfl⟩ := h; exact .purgedGeneration
  | disconnecting id old next =>
    simp only [step] at h
    split at h <;> obtain ⟨rfl, rfl⟩ := h
    · exact .disconnected (.inl ‹_›)
    · exact .disconnected (.inr ‹_›)
    · exact .disconnectFailed ‹_› ‹_›
  | publishing id next =>
    cases next <;> obtain ⟨rfl, rfl⟩ := h
    · exact .closed
    · exact .previousClosed
  | inserting id conn => obtain ⟨rfl, rfl⟩ := h; exact .inserted
  | announcing id => obtain ⟨rfl, rfl⟩ := h; exact .announced
  | startPty id =>
    simp only [step] at h
    split at h <;> obtain ⟨rfl, rfl⟩ := h
    · exact .noClient ‹_›
    · exact .client ‹_›
  | cancellingPty id conn => obtain ⟨rfl, rfl⟩ := h; exact .ptyCancelled
  | creatingPty id conn =>
    simp only [step] at h
    split at h
    · obtain ⟨rfl, rfl⟩ := h
      exact .notConnected ‹_›
    · split at h <;> obtain ⟨rfl, rfl⟩ := h
      · exact .ptyFailed ‹_› ‹_›
      · exact .ptyCreated ‹_› ‹_›
  | bumping id s => obtain ⟨rfl, rfl⟩ := h; exact .bumped
  | storing id s g => obtain ⟨rfl, rfl⟩ := h; exact .stored
  | closePty id expectedGen =>
    cases expectedGen with
    | none =>
      obtain ⟨rfl, rfl⟩ := h
      exact .ptyRemoved
    | some g =>
      obtain ⟨rfl, rfl⟩ := h
      split
      · exact .closeCurrent ‹_›
      · exact .closeStale ‹_›
  | removingPty id g => obtain ⟨rfl, rfl⟩ := h; exact .ptyTaken
  | cancelPending id => obtain ⟨rfl, rfl⟩ := h; exact .answered
  | started | answered | finished | failed => cases h

end SshCommander.ConnectionManager
