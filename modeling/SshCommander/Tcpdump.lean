import SshCommander.RemoteCommands

/-!
# Packet captures

`TcpdumpRegistry::start` runs `tcpdump` over a streaming channel and forwards its lines as events.
-/

namespace SshCommander.Tcpdump
open RustText RemoteCommands

inductive ToolsError where
  | sshExec (message : Text)
  | parse (message : Text)
  | captureNotFound (id : UInt64)
  deriving DecidableEq, Repr

structure TcpdumpLine where
  captureId : UInt64
  line : Text
  isStderr : Bool
  deriving DecidableEq, Repr

def validateInterface (iface : Text) : Except ToolsError Unit :=
  if iface.isEmpty || (utf8 iface).length > 32 ||
      !iface.all fun c => c.isAlphanum || c == '.' || c == '-' || c == '_' || c == ':' then
    .error (.parse ("invalid interface: ".toList ++ iface))
  else .ok ()

def validateFilter (filter : Text) : Except ToolsError Unit :=
  if filter.contains '\'' then .error (.parse "filter may not contain single quotes".toList)
  else if (utf8 filter).length > 4096 then .error (.parse "filter too long".toList)
  else .ok ()

def tcpdumpCommand (interface filter : Text) (snaplen : Option UInt32) : Text :=
  let snap := (toString (snaplen.getD 96).toNat).toList
  let cmd := "sudo -n tcpdump -lnn -s ".toList ++ snap ++ " -i ".toList ++ interface
  if (trim filter).isEmpty then cmd else cmd ++ " '".toList ++ filter ++ "'".toList

def errorText : SshError → Text
  | .notConnected => "Not connected".toList
  | .transport message => message

/-- The stream that a line comes from, and the line without its mark. -/
def stripMark : Text → Bool × Text
  | '!' :: rest => (true, rest)
  | line => (false, line)

def forward (id : UInt64) (lines : List Text) : List TcpdumpLine :=
  lines.map fun line => ⟨id, (stripMark line).2, (stripMark line).1⟩

structure TcpdumpRegistry where
  nextId : UInt64
  captures : List UInt64
  deriving DecidableEq, Repr

namespace TcpdumpRegistry

def new : TcpdumpRegistry := ⟨1, []⟩

/-- A capture, with the events of its task. The identifiers wrap around. -/
def start (registry : TcpdumpRegistry) (client : SshClient) (interface filter : Text)
    (snaplen : Option UInt32) (cancelAt : Option ℕ) :
    Except ToolsError (TcpdumpRegistry × UInt64 × List TcpdumpLine) :=
  match validateInterface interface with
  | .error e => .error e
  | .ok () =>
    match validateFilter filter with
    | .error e => .error e
    | .ok () =>
      match client.executeCommandStreaming (tcpdumpCommand interface filter snaplen) cancelAt with
      | .error e => .error (.sshExec (errorText e))
      | .ok lines =>
        let id := registry.nextId
        .ok (⟨id + 1, registry.captures.insert id⟩, id, forward id lines)

def stop (registry : TcpdumpRegistry) (id : UInt64) : Except ToolsError TcpdumpRegistry :=
  if id ∈ registry.captures then
    .ok { registry with captures := registry.captures.erase id }
  else .error (.captureNotFound id)

end TcpdumpRegistry

def TcpdumpLine.pair (e : TcpdumpLine) : Bool × Text := (e.isStderr, e.line)

theorem forward_pairs (id : UInt64) (lines : List Text) :
    (forward id lines).map TcpdumpLine.pair = lines.map stripMark := by
  rw [forward, List.map_map]
  rfl

end SshCommander.Tcpdump
