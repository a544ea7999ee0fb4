import SshCommander.Utf8Lossy

/-!
# Commands over an SSH channel

The two ways in which `SshClient` runs a command: to its end, with the whole output, and with the
output sent on line by line.
-/

namespace SshCommander.RemoteCommands
open RustText Utf8Lossy

/-- What `channel.wait()` returns. Messages that carry nothing of the command's result (success,
failure, window changes) are `other`. -/
inductive ChannelMsg where
  | data (data : List UInt8)
  | extendedData (ext : ℕ) (data : List UInt8)
  | exitStatus (exitStatus : UInt32)
  | eof
  | close
  | other
  deriving DecidableEq, Repr

inductive SshError where
  | notConnected
  | transport (message : Text)
  deriving DecidableEq, Repr

structure CommandOutput where
  stdout : Text
  stderr : Text
  exitCode : Option UInt32
  deriving DecidableEq, Repr

/-- An open session: whether a channel opens, and what the server sends for a command. The list
ends where the channel is gone. -/
structure Session where
  channelOpenSession : Except Text Unit
  exec : Text → Except Text (List ChannelMsg)

structure SshClient where
  session : Option Session

namespace CommandOutput

def isSuccess (out : CommandOutput) : Bool := out.exitCode == some 0

/-- stdout, then stderr, with a newline between them where stdout does not end in one. -/
def combined (out : CommandOutput) : Text :=
  if out.stderr.isEmpty then out.stdout
  else if out.stdout.isEmpty then out.stderr
  else if out.stdout.getLast? = some '\n' then out.stdout ++ out.stderr
  else out.stdout ++ '\n' :: out.stderr

end CommandOutput

/-- The receive loop of `execute_command_full`, with whether the end of the output was seen. -/
def receiveOutput : List ChannelMsg → CommandOutput → Bool → CommandOutput
  | [], out, _ => out
  | .data data :: msgs, out, eof =>
    receiveOutput msgs { out with stdout := out.stdout ++ fromUtf8Lossy data } eof
  | .extendedData _ data :: msgs, out, eof =>
    receiveOutput msgs { out with stderr := out.stderr ++ fromUtf8Lossy data } eof
  | .exitStatus code :: msgs, out, eof =>
    let out := { out with exitCode := some code }
    if eof then out else receiveOutput msgs out eof
  | .eof :: msgs, out, _ => if out.exitCode.isSome then out else receiveOutput msgs out true
  | .close :: _, out, _ => out
  | .other :: msgs, out, eof => receiveOutput msgs out eof

namespace SshClient

def startCommand (client : SshClient) (command : Text) : Except SshError (List ChannelMsg) :=
  match client.session with
  | none => .error .notConnected
  | some session =>
    match session.channelOpenSession with
    | .error e => .error (.transport e)
    | .ok () =>
      match session.exec command with
      | .error e => .error (.transport e)
      | .ok msgs => .ok msgs

def executeCommandFull (client : SshClient) (command : Text) : Except SshError CommandOutput :=
  (client.startCommand command).map (receiveOutput · ⟨[], [], none⟩ false)

def executeCommand (client : SshClient) (command : Text) : Except SshError Text :=
  (client.executeCommandFull command).map (·.combined)

end SshClient

def trimEnds (line : Text) : Text := line.rdropWhile fun c => c == '\r' || c == '\n'

/-- The complete lines that are drained from a buffer, and what stays in it. The first argument
is what was read of the first line. -/
def drainLines : Text → Text → List Text × Text
  | line, [] => ([], line)
  | line, c :: rest =>
    if c = '\n' then
      let drained := drainLines [] rest
      (trimEnds (line ++ [c]) :: drained.1, drained.2)
    else drainLines (line ++ [c]) rest

/-- A line of stderr is sent behind this mark. -/
def mark (line : Text) : Text := '!' :: line

def lastLine (buffer : Text) : List Text := if buffer.isEmpty then [] else [trimEnds buffer]

/-- The task of `execute_command_streaming`: the lines that it sends from here on, with the two
buffers. The token fires before the message that `cancelAt` counts to. -/
def streamTask : Option ℕ → List ChannelMsg → Text → Text → List Text
  | some 0, _, _, _ => []
  | _, [], stdout, stderr => lastLine stdout ++ (lastLine stderr).map mark
  | cancelAt, .data data :: msgs, stdout, stderr =>
    let drained := drainLines [] (stdout ++ fromUtf8Lossy data)
    drained.1 ++ streamTask (cancelAt.map (· - 1)) msgs drained.2 stderr
  | cancelAt, .extendedData _ data :: msgs, stdout, stderr =>
    let drained := drainLines [] (stderr ++ fromUtf8Lossy data)
    drained.1.map mark ++ streamTask (cancelAt.map (· - 1)) msgs stdout drained.2
  | _, .eof :: _, stdout, stderr => lastLine stdout ++ (lastLine stderr).map mark
  | _, .close :: _, stdout, stderr => lastLine stdout ++ (lastLine stderr).map mark
  | cancelAt, .exitStatus _ :: msgs, stdout, stderr =>
    streamTask (cancelAt.map (· - 1)) msgs stdout stderr
  | cancelAt, .other :: msgs, stdout, stderr =>
    streamTask (cancelAt.map (· - 1)) msgs stdout stderr

def SshClient.executeCommandStreaming (client : SshClient) (command : Text)
    (cancelAt : Option ℕ) : Except SshError (List Text) :=
  (client.startCommand command).map (streamTask cancelAt · [] [])

end SshCommander.RemoteCommands
