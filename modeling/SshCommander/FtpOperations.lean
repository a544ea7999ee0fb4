import SshCommander.ControlChannel

/-!
# The FTP client

The file operations of `FtpClient` over the control channel. The methods of `suppaftp` are a
parameter, with what its documentation says of the replies they take. What the local disk and the
data connection do is given with each operation.
-/

namespace SshCommander.FtpOperations
open RustText ControlChannel

/-- A transfer is opened with a preliminary reply, and its other reply comes when it has ended. -/
def isTransfer (line : Text) : Bool :=
  "RETR".toList.isPrefixOf line || "STOR".toList.isPrefixOf line || "LIST".toList.isPrefixOf line

/-- A request gets one final reply, and a transfer may get a preliminary one before. -/
def Conforms (server : Server) : Prop := ∀ n line,
  (∃ code, 200 ≤ code ∧ server n line = [code]) ∨
    (isTransfer line = true ∧ ∃ opening code, (opening = 125 ∨ opening = 150) ∧ 200 ≤ code ∧
      server n line = [opening, code])

/-- The methods of the stream. Opening gives the data stream, which the operations read or write. -/
structure Suppaftp where
  list : Text → Except Text (List Text) → Talk (Except Text (List Text))
  retrAsStream : Text → Talk (Except Text Unit)
  finalizeRetrStream : Talk (Except Text Unit)
  putWithStream : Text → Talk (Except Text Unit)
  finalizePutStream : Talk (Except Text Unit)
  mkdir : Text → Talk (Except Text Unit)
  rename : Text → Text → Talk (Except Text Unit)
  rm : Text → Talk (Except Text Unit)
  rmdir : Text → Talk (Except Text Unit)

/-- The method takes all replies to its requests. -/
structure TakesAll {α : Type} (t : Talk α) : Prop where
  asks : t.Asks
  inStep : ∀ server ch, Conforms server → ch.InStep → (t.run server ch).1.InStep

/-- The method takes the preliminary reply. Without one there is nothing more to take. -/
structure TakesPreliminary (t : Talk (Except Text Unit)) : Prop where
  asks : t.Asks
  opened : ∀ server ch, Conforms server → ch.InStep → (t.run server ch).2 = .ok () →
    (t.run server ch).1.Owed
  refused : ∀ server ch e, Conforms server → ch.InStep → (t.run server ch).2 = .error e →
    (t.run server ch).1.InStep

def TakesCompletion (t : Talk (Except Text Unit)) : Prop :=
  ∀ server ch, ch.Owed → (t.run server ch).1.InStep

structure Suppaftp.Lawful (ftp : Suppaftp) : Prop where
  list : ∀ path lines, TakesAll (ftp.list path lines)
  retrAsStream : ∀ path, TakesPreliminary (ftp.retrAsStream path)
  finalizeRetrStream : TakesCompletion ftp.finalizeRetrStream
  putWithStream : ∀ path, TakesPreliminary (ftp.putWithStream path)
  finalizePutStream : TakesCompletion ftp.finalizePutStream
  mkdir : ∀ path, TakesAll (ftp.mkdir path)
  rename : ∀ oldPath newPath, TakesAll (ftp.rename oldPath newPath)
  rm : ∀ path, TakesAll (ftp.rm path)
  rmdir : ∀ path, TakesAll (ftp.rmdir path)

inductive TransferError where
  | notConnected (protocol : Text)
  | operation (message : Text)
  deriving DecidableEq, Repr

structure FtpClient where
  stream : Option Channel
  deriving DecidableEq, Repr

/-- The local file and the data connection of a transfer. The source ends with a chunk of no bytes,
or with the list; a write for which the list has nothing succeeds. -/
structure Transfer where
  localFile : Except Text Unit
  reads : List (Except Text ℕ)
  writes : List (Except Text Unit)
  flush : Except Text Unit

def copyLoop (readFailed writeFailed : Text) :
    List (Except Text ℕ) → List (Except Text Unit) → ℕ → Except Text ℕ
  | [], _, total | .ok 0 :: _, _, total => .ok total
  | .error e :: _, _, _ => .error (readFailed ++ e)
  | .ok (_ + 1) :: _, .error e :: _, _ => .error (writeFailed ++ e)
  | .ok (n + 1) :: reads, writes, total =>
    copyLoop readFailed writeFailed reads writes.tail (total + (n + 1))

/-- What `download_file` does between opening the data stream and finalizing it. -/
def receiveFile (localPath : Text) (io : Transfer) : Except Text ℕ :=
  match io.localFile with
  | .error e => .error ("Failed to create local file '".toList ++ localPath ++ "': ".toList ++ e)
  | .ok () =>
    match copyLoop "Failed to read download stream: ".toList "Failed to write local file: ".toList
        io.reads io.writes 0 with
    | .error message => .error message
    | .ok total =>
      match io.flush with
      | .error e => .error ("Failed to flush local file: ".toList ++ e)
      | .ok () => .ok total

/-- What `upload_file` does between opening the data stream and finalizing it. -/
def sendFile (localPath : Text) (io : Transfer) : Except Text ℕ :=
  match io.localFile with
  | .error e => .error ("Failed to open local file '".toList ++ localPath ++ "': ".toList ++ e)
  | .ok () =>
    copyLoop "Failed to read local file: ".toList "Failed to write upload stream: ".toList
      io.reads io.writes 0

/-- A method of the stream, with the text that stands before its error. -/
def call {α : Type} (server : Server) (t : Talk (Except Text α)) (failed : Text) (ch : Channel) :
    Channel × Except TransferError α :=
  match t.run server ch with
  | (ch, .ok a) => (ch, .ok a)
  | (ch, .error e) => (ch, .error (.operation (failed ++ e)))

def transfer (server : Server) (opening finalizing : Talk (Except Text Unit))
    (openFailed finalizeFailed : Text) (copied : Except Text ℕ) (ch : Channel) :
    Channel × Except TransferError ℕ :=
  match call server opening openFailed ch with
  | (ch, .error e) => (ch, .error e)
  | (ch, .ok ()) =>
    match copied with
    | .error message => (ch, .error (.operation message))
    | .ok total =>
      match call server finalizing finalizeFailed ch with
      | (ch, .error e) => (ch, .error e)
      | (ch, .ok ()) => (ch, .ok total)

namespace FtpClient

def ftpStream {α : Type} (client : FtpClient) (body : Channel → Channel × Except TransferError α) :
    FtpClient × Except TransferError α :=
  match client.stream with
  | none => (client, .error (.notConnected "FTP".toList))
  | some ch => (⟨some (body ch).1⟩, (body ch).2)

variable (ftp : Suppaftp) (server : Server) (client : FtpClient)

/-- The lines of the listing, before they are parsed and sorted. -/
def listDir (path : Text) (lines : Except Text (List Text)) :
    FtpClient × Except TransferError (List Text) :=
  client.ftpStream (call server (ftp.list path lines)
    ("Failed to list directory '".toList ++ path ++ "': ".toList))

def downloadFile (remotePath localPath : Text) (io : Transfer) :
    FtpClient × Except TransferError ℕ :=
  client.ftpStream (transfer server (ftp.retrAsStream remotePath) ftp.finalizeRetrStream
    ("Failed to download file '".toList ++ remotePath ++ "': ".toList)
    "Failed to finalize download: ".toList (receiveFile localPath io))

def uploadFile (localPath remotePath : Text) (io : Transfer) :
    FtpClient × Except TransferError ℕ :=
  client.ftpStream (transfer server (ftp.putWithStream remotePath) ftp.finalizePutStream
    "Failed to open upload stream: ".toList "Failed to finalize upload: ".toList
    (sendFile localPath io))

def createDir (path : Text) : FtpClient × Except TransferError Unit :=
  client.ftpStream (call server (ftp.mkdir path)
    ("Failed to create directory '".toList ++ path ++ "': ".toList))

def rename (oldPath newPath : Text) : FtpClient × Except TransferError Unit :=
  client.ftpStream (call server (ftp.rename oldPath newPath)
    ("Failed to rename '".toList ++ oldPath ++ "' to '".toList ++ newPath ++ "': ".toList))

def deleteFile (path : Text) : FtpClient × Except TransferError Unit :=
  client.ftpStream (call server (ftp.rm path)
    ("Failed to delete file '".toList ++ path ++ "': ".toList))

def deleteDir (path : Text) : FtpClient × Except TransferError Unit :=
  client.ftpStream (call server (ftp.rmdir path)
    ("Failed to delete directory '".toList ++ path ++ "': ".toList))

end FtpClient

inductive Operation where
  | listDir (path : Text) (lines : Except Text (List Text))
  | downloadFile (remotePath localPath : Text) (io : Transfer)
  | uploadFile (localPath remotePath : Text) (io : Transfer)
  | createDir (path : Text)
  | rename (oldPath newPath : Text)
  | deleteFile (path : Text)
  | deleteDir (path : Text)

def perform (ftp : Suppaftp) (server : Server) (client : FtpClient) : Operation → FtpClient
  | .listDir path lines => (client.listDir ftp server path lines).1
  | .downloadFile remotePath localPath io => (client.downloadFile ftp server remotePath localPath io).1
  | .uploadFile localPath remotePath io => (client.uploadFile ftp server localPath remotePath io).1
  | .createDir path => (client.createDir ftp server path).1
  | .rename oldPath newPath => (client.rename ftp server oldPath newPath).1
  | .deleteFile path => (client.deleteFile ftp server path).1
  | .deleteDir path => (client.deleteDir ftp server path).1

def performAll (ftp : Suppaftp) (server : Server) (client : FtpClient) (ops : List Operation) :
    FtpClient :=
  ops.foldl (perform ftp server) client

end SshCommander.FtpOperations
