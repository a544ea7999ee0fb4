import SshCommander.FtpControl
import SshCommander.SftpTransfers

/-!
# Files behind FTP transfers

What `FtpClient::upload_file` and `FtpClient::download_file` do to the files on the other side. The
upload opens its stream before the local file, so one whose local file cannot be opened has
replaced the remote file already.
-/

namespace SshCommander.FtpTransfers
open RustText ControlChannel ChunkedCopy FtpOperations
open SftpTransfers (Bytes Files Io fileTransferChunkSize zeroed)

/-- The loop of both transfers. There is no token to check. -/
def copy (io : Io) (content : Bytes) : Copy UInt8 × Ending Text :=
  copyLoop (fun i => { io.turns i with cancelled := false }) 0 (zeroed fileTransferChunkSize)
    content .start

def copied (readFailed writeFailed : Text) (total : ℕ) : Ending Text → Except Text ℕ
  | .readFailed e => .error (readFailed ++ e)
  | .writeFailed e => .error (writeFailed ++ e)
  | .finished | .cancelled => .ok total

structure Transferred where
  client : FtpClient
  files : Files
  result : Except TransferError ℕ

/-- What `upload_file` does between opening the stream and finalizing it. An accepted `STOR` has
emptied the remote file, or created it, and what is sent goes into it. -/
def sent (io : Io) (localPath remotePath : Text) (files : Files) : Files × Except Text ℕ :=
  match io.opened with
  | .error e =>
    (Function.update files remotePath (some []),
      .error ("Failed to open local file '".toList ++ localPath ++ "': ".toList ++ e))
  | .ok content =>
    let r := copy io content
    (Function.update files remotePath (some r.1.accepted),
      copied "Failed to read local file: ".toList "Failed to write upload stream: ".toList
        r.1.total r.2)

/-- What `download_file` does between opening the stream, which delivers the content, and
finalizing it. -/
def received (io : Io) (content : Bytes) (localPath : Text) (files : Files) :
    Files × Except Text ℕ :=
  match io.created with
  | .error e =>
    (files, .error ("Failed to create local file '".toList ++ localPath ++ "': ".toList ++ e))
  | .ok () =>
    let r := copy io content
    let written := Function.update files localPath (some r.1.accepted)
    match copied "Failed to read download stream: ".toList "Failed to write local file: ".toList
        r.1.total r.2 with
    | .error message => (written, .error message)
    | .ok total =>
      match io.flush with
      | .error (e, left) =>
        (Function.update files localPath (some left),
          .error ("Failed to flush local file: ".toList ++ e))
      | .ok () => (written, .ok total)

def transfer (server : Server) (client : FtpClient) (opening finalizing : Talk (Except Text Unit))
    (openFailed finalizeFailed : Text) (files : Files) (body : Files × Except Text ℕ) :
    Transferred :=
  match client.stream with
  | none => ⟨client, files, .error (.notConnected "FTP".toList)⟩
  | some ch =>
    match call server opening openFailed ch with
    | (ch, .error e) => ⟨⟨some ch⟩, files, .error e⟩
    | (ch, .ok ()) =>
      match body.2 with
      | .error message => ⟨⟨some ch⟩, body.1, .error (.operation message)⟩
      | .ok total =>
        match call server finalizing finalizeFailed ch with
        | (ch, .error e) => ⟨⟨some ch⟩, body.1, .error e⟩
        | (ch, .ok ()) => ⟨⟨some ch⟩, body.1, .ok total⟩

variable (ftp : Suppaftp) (server : Server) (client : FtpClient)

def uploadFile (io : Io) (localPath remotePath : Text) (files : Files) : Transferred :=
  transfer server client (ftp.putWithStream remotePath) ftp.finalizePutStream
    "Failed to open upload stream: ".toList "Failed to finalize upload: ".toList files
    (sent io localPath remotePath files)

def downloadFile (io : Io) (content : Bytes) (remotePath localPath : Text) (files : Files) :
    Transferred :=
  transfer server client (ftp.retrAsStream remotePath) ftp.finalizeRetrStream
    ("Failed to download file '".toList ++ remotePath ++ "': ".toList)
    "Failed to finalize download: ".toList files (received io content localPath files)

variable {ftp server client} {io : Io} {content : Bytes} {localPath remotePath : Text}
  {files : Files} {opening finalizing : Talk (Except Text Unit)} {openFailed finalizeFailed : Text}
  {body : Files × Except Text ℕ} {ch : Channel}

/-- With the files left aside, a transfer is one of `FtpClient`. -/
theorem transfer_operation :
    ((transfer server client opening finalizing openFailed finalizeFailed files body).client,
      (transfer server client opening finalizing openFailed finalizeFailed files body).result) =
      client.ftpStream
        (FtpOperations.transfer server opening finalizing openFailed finalizeFailed body.2) := by
  unfold transfer FtpClient.ftpStream FtpOperations.transfer
  cases client.stream with
  | none => rfl
  | some ch =>
    simp only
    split
    · simp_all
    · split
      · simp_all
      · split <;> simp_all

def loopOf (total : ℕ) : Ending Text → List (Except Text ℕ) × List (Except Text Unit)
  | .readFailed e => ([.error e], [])
  | .writeFailed e => ([.ok 1], [.error e])
  | .finished | .cancelled => ([.ok total], [])

theorem copyLoop_loopOf (readFailed writeFailed : Text) (total : ℕ) (ending : Ending Text) :
    FtpOperations.copyLoop readFailed writeFailed (loopOf total ending).1 (loopOf total ending).2 0 =
      copied readFailed writeFailed total ending := by
  cases ending <;> cases total <;> simp [loopOf, copied, FtpOperations.copyLoop]

theorem sent_operation (io : Io) (localPath remotePath : Text) (files : Files) :
    ∃ t : Transfer, sendFile localPath t = (sent io localPath remotePath files).2 := by
  cases ho : io.opened with
  | error e => exact ⟨⟨.error e, [], [], .ok ()⟩, by simp [sendFile, sent, ho]⟩
  | ok content =>
    refine ⟨⟨.ok (), (loopOf (copy io content).1.total (copy io content).2).1,
      (loopOf (copy io content).1.total (copy io content).2).2, .ok ()⟩, ?_⟩
    simp only [sendFile, sent, ho, copyLoop_loopOf]

theorem received_operation (io : Io) (content : Bytes) (localPath : Text) (files : Files) :
    ∃ t : Transfer, receiveFile localPath t = (received io content localPath files).2 := by
  refine ⟨⟨io.created, (loopOf (copy io content).1.total (copy io content).2).1,
    (loopOf (copy io content).1.total (copy io content).2).2, io.flush.mapError (·.1)⟩, ?_⟩
  cases hc : io.created with
  | error e => simp only [receiveFile, received, hc]
  | ok u =>
    simp only [receiveFile, received, hc, copyLoop_loopOf]
    split
    · simp_all
    · cases hf : io.flush <;> simp_all [Except.mapError]

theorem uploadFile_operation (ftp : Suppaftp) (server : Server) (client : FtpClient) (io : Io)
    (localPath remotePath : Text) (files : Files) :
    ∃ t : Transfer, client.uploadFile ftp server localPath remotePath t =
      ((uploadFile ftp server client io localPath remotePath files).client,
        (uploadFile ftp server client io localPath remotePath files).result) := by
  obtain ⟨t, ht⟩ := sent_operation io localPath remotePath files
  exact ⟨t, by rw [FtpClient.uploadFile, ht]; exact transfer_operation.symm⟩

theorem downloadFile_operation (ftp : Suppaftp) (server : Server) (client : FtpClient) (io : Io)
    (content : Bytes) (remotePath localPath : Text) (files : Files) :
    ∃ t : Transfer, client.downloadFile ftp server remotePath localPath t =
      ((downloadFile ftp server client io content remotePath localPath files).client,
        (downloadFile ftp server client io content remotePath localPath files).result) := by
  obtain ⟨t, ht⟩ := received_operation io content localPath files
  exact ⟨t, by rw [FtpClient.downloadFile, ht]; exact transfer_operation.symm⟩

/-- A transfer has failed and left the files as they were. -/
def FailedUntouched {ε : Type} (before after : Files) (result : Except ε ℕ) : Prop :=
  (∃ e, result = .error e) ∧ after = before

theorem transferFile_unopened {held : Copy UInt8 → Bytes} {e : Text} (h : io.opened = .error e)
    (path : Text) :
    FailedUntouched files
      (SftpTransfers.transferFile openFailed finalizeFailed io held path files).files
      (SftpTransfers.transferFile openFailed finalizeFailed io held path files).result := by
  rw [SftpTransfers.transferFile, h]
  exact ⟨⟨_, rfl⟩, rfl⟩

theorem call_error {α : Type} {t : Talk (Except Text α)} {failed e : Text}
    (h : (t.run server ch).2 = .error e) :
    call server t failed ch = ((t.run server ch).1, .error (.operation (failed ++ e))) := by
  unfold call
  split <;> simp_all

theorem call_ok {α : Type} {t : Talk (Except Text α)} {failed : Text} {a : α}
    (h : (t.run server ch).2 = .ok a) : call server t failed ch = ((t.run server ch).1, .ok a) := by
  unfold call
  split <;> simp_all

/-- A stream that is not opened is all that a transfer does. -/
theorem transfer_unopened
    (h : ∀ ch, client.stream = some ch → ∃ e, (opening.run server ch).2 = .error e) :
    FailedUntouched files
      (transfer server client opening finalizing openFailed finalizeFailed files body).files
      (transfer server client opening finalizing openFailed finalizeFailed files body).result := by
  unfold transfer
  cases hs : client.stream with
  | none => exact ⟨⟨_, rfl⟩, rfl⟩
  | some ch =>
    obtain ⟨e, he⟩ := h ch hs
    simp only [call_error he]
    exact ⟨⟨_, rfl⟩, rfl⟩

/-- Once the stream is open, what the upload does with the remote file has happened. -/
theorem uploadFile_opened (localPath : Text) (files : Files) {e : Text}
    (ho : io.opened = .error e) (hs : client.stream = some ch)
    (hstor : ((ftp.putWithStream remotePath).run server ch).2 = .ok ()) :
    (uploadFile ftp server client io localPath remotePath files).files =
        Function.update files remotePath (some []) ∧
      ∃ e, (uploadFile ftp server client io localPath remotePath files).result = .error e := by
  simp only [uploadFile, transfer, hs, call_ok hstor, sent, ho]
  exact ⟨trivial, _, rfl⟩

theorem uploadFile_untouched_iff {e : Text} (ho : io.opened = .error e) :
    FailedUntouched files (uploadFile ftp server client io localPath remotePath files).files
        (uploadFile ftp server client io localPath remotePath files).result ↔
      ∀ ch, client.stream = some ch →
        ((ftp.putWithStream remotePath).run server ch).2 = .ok () →
        files remotePath = some [] := by
  by_cases hopened : ∃ ch, client.stream = some ch ∧
      ((ftp.putWithStream remotePath).run server ch).2 = .ok ()
  · obtain ⟨ch, hs, hstor⟩ := hopened
    obtain ⟨hfiles, hresult⟩ := uploadFile_opened localPath files ho hs hstor
    rw [FailedUntouched, hfiles, Function.update_eq_self_iff, eq_comm, and_iff_right hresult]
    refine ⟨fun h _ _ _ => h, fun h => h ch hs hstor⟩
  · have hrefused : ∀ ch, client.stream = some ch →
        ∃ e, ((ftp.putWithStream remotePath).run server ch).2 = .error e := by
      intro ch hs
      cases hstor : ((ftp.putWithStream remotePath).run server ch).2 with
      | error e => exact ⟨e, rfl⟩
      | ok u => exact absurd ⟨ch, hs, hstor⟩ hopened
    exact iff_of_true (transfer_unopened hrefused)
      fun ch hs hstor => absurd ⟨ch, hs, hstor⟩ hopened

/-- Of the four transfers, an FTP upload alone touches the other side before its source is open,
and that shows unless the target is an empty file already. -/
theorem failed_open_untouched_iff (ftp : Suppaftp) (server : Server) (client : FtpClient)
    (up down : Io) (content : Bytes) (e e' : Text) (localPath remotePath : Text)
    (localFiles remoteFiles : Files) (unreadable : up.opened = .error e)
    (unopened : down.opened = .error e')
    (refused : ∀ ch, client.stream = some ch →
      ∃ e, ((ftp.retrAsStream remotePath).run server ch).2 = .error e) :
    (FailedUntouched remoteFiles
        (uploadFile ftp server client up localPath remotePath remoteFiles).files
        (uploadFile ftp server client up localPath remotePath remoteFiles).result ∧
      FailedUntouched remoteFiles
        (SftpTransfers.uploadFile up localPath remotePath remoteFiles).files
        (SftpTransfers.uploadFile up localPath remotePath remoteFiles).result ∧
      FailedUntouched localFiles
        (downloadFile ftp server client down content remotePath localPath localFiles).files
        (downloadFile ftp server client down content remotePath localPath localFiles).result ∧
      FailedUntouched localFiles
        (SftpTransfers.downloadFile down remotePath localPath localFiles).files
        (SftpTransfers.downloadFile down remotePath localPath localFiles).result) ↔
      ∀ ch, client.stream = some ch →
        ((ftp.putWithStream remotePath).run server ch).2 = .ok () →
        remoteFiles remotePath = some [] := by
  rw [uploadFile_untouched_iff unreadable]
  exact and_iff_left ⟨transferFile_unopened unreadable _, transfer_unopened refused,
    transferFile_unopened unopened _⟩

def missing : Io where
  opened := .error "No such file or directory".toList
  created := .ok ()
  turns _ := ⟨false, .ok ⟨1, by decide, Nat.le_of_ble_eq_true rfl⟩, .ok ()⟩
  landed := 0
  flush := .ok ()

/-- The remote side before: one file of three bytes. -/
def oneFile : Files := fun path => if path = "r".toList then some [1, 2, 3] else none

/-- A mistyped local path, and the remote file is empty. -/
theorem mistyped_upload_empties :
    ¬FailedUntouched oneFile
      (uploadFile FtpControl.documented FtpControl.accepting ⟨some .new⟩ missing "l".toList
        "r".toList oneFile).files
      (uploadFile FtpControl.documented FtpControl.accepting ⟨some .new⟩ missing "l".toList
        "r".toList oneFile).result := by
  rintro ⟨-, hsame⟩
  have hstor : ((FtpControl.documented.putWithStream "r".toList).run FtpControl.accepting .new).2 =
      .ok () := by decide +kernel
  have hstream : (⟨some .new⟩ : FtpClient).stream = some .new := rfl
  have hempty := (uploadFile_opened "l".toList oneFile (show missing.opened = .error _ from rfl)
    hstream hstor).1
  have hone := congrFun (hempty.symm.trans hsame) "r".toList
  simp [oneFile] at hone

def uploadsOnly : Server := fun n line =>
  if "RETR".toList.isPrefixOf line then [550] else FtpControl.accepting n line

theorem failed_open_untouched_empty :
    FailedUntouched (fun _ => some [])
      (uploadFile FtpControl.documented uploadsOnly ⟨some .new⟩ missing "l".toList "r".toList
        fun _ => some []).files
      (uploadFile FtpControl.documented uploadsOnly ⟨some .new⟩ missing "l".toList "r".toList
        fun _ => some []).result :=
  have hrefused : ∀ ch, (⟨some .new⟩ : FtpClient).stream = some ch →
      ∃ e, ((FtpControl.documented.retrAsStream "r".toList).run uploadsOnly ch).2 = .error e := by
    rintro _ ⟨rfl⟩
    exact ⟨"unexpected reply".toList, by decide +kernel⟩
  ((failed_open_untouched_iff FtpControl.documented uploadsOnly ⟨some .new⟩ missing missing []
    "No such file or directory".toList "No such file or directory".toList "l".toList "r".toList
    (fun _ => some []) (fun _ => some []) rfl rfl hrefused).mpr fun _ _ _ => rfl).1

end SshCommander.FtpTransfers
