import SshCommander.ChunkedCopy
import SshCommander.RustText

/-!
# Transfers over SFTP

The four transfers of `sftp_ops`. What they leave at their destination is exact, also where they
stop early, except that a download that is cancelled does not wait for its last write.
-/

namespace SshCommander.SftpTransfers
open RustText ChunkedCopy

abbrev Bytes := List UInt8

abbrev Files := Text → Option Bytes

inductive TransferError where
  | notConnected (protocol : Text)
  | cancelled
  | session (message : Text)
  | operation (message : Text)
  | io (e : Text)
  deriving DecidableEq, Repr

def fileTransferChunkSize : ℕ := 32 * 1024

def sftpChunkSize : ℕ := fileTransferChunkSize

def zeroed (n : ℕ) : Buffer UInt8 n := ⟨List.replicate n 0, List.length_replicate⟩

/-- What the two sides answer to a transfer: the content that the source opens with, whether the
destination is created, each turn of the loop, and the flush. A write fails in the turn that sees it
fail. Of a write that nothing has waited for, `landed` bytes are in place when the destination is
looked at. -/
structure Io where
  opened : Except Text Bytes
  created : Except Text Unit
  turns : ℕ → Turn UInt8 Text sftpChunkSize
  landed : ℕ
  flush : Except (Text × Bytes) Unit

structure Transferred where
  files : Files
  progress : List (Report UInt8)
  result : Except TransferError ℕ

/-- A `tokio::fs::File` writes in the background. The next write and the flush wait for it, dropping
the file does not. -/
def localFile (io : Io) (c : Copy UInt8) : Bytes := c.settled io.landed

/-- A write to a remote file waits for the server's status. -/
def remoteFile (c : Copy UInt8) : Bytes := c.accepted

/-- What follows the loop of a transfer, with what the destination holds without a flush. -/
def afterLoop (io : Io) (held : Copy UInt8 → Bytes) (path : Text) (files : Files)
    (c : Copy UInt8) : Ending Text → Transferred
  | .cancelled => ⟨Function.update files path (some (held c)), c.progress, .error .cancelled⟩
  | .readFailed e => ⟨Function.update files path (some (held c)), c.progress, .error (.io e)⟩
  | .writeFailed e => ⟨Function.update files path (some (held c)), c.progress, .error (.io e)⟩
  | .finished =>
    match io.flush with
    | .error (e, left) => ⟨Function.update files path (some left), c.progress, .error (.io e)⟩
    | .ok () => ⟨Function.update files path (some c.accepted), c.progress, .ok c.total⟩

def copyInto (io : Io) (held : Copy UInt8 → Bytes) (content : Bytes) (path : Text)
    (files : Files) : Transferred :=
  let r := copyLoop io.turns 0 (zeroed sftpChunkSize) content .start
  afterLoop io held path files r.1 r.2

def transferFile (openFailed createFailed : Text) (io : Io) (held : Copy UInt8 → Bytes)
    (path : Text) (files : Files) : Transferred :=
  match io.opened with
  | .error e => ⟨files, [], .error (.operation (openFailed ++ e))⟩
  | .ok content =>
    match io.created with
    | .error e => ⟨files, [], .error (.operation (createFailed ++ e))⟩
    | .ok () => copyInto io held content path files

def downloadFile (io : Io) (remotePath localPath : Text) (files : Files) : Transferred :=
  transferFile ("Failed to open remote file '".toList ++ remotePath ++ "': ".toList)
    ("Failed to create local file '".toList ++ localPath ++ "': ".toList) io (localFile io)
    localPath files

def uploadFile (io : Io) (localPath remotePath : Text) (files : Files) : Transferred :=
  transferFile ("Failed to open local file '".toList ++ localPath ++ "': ".toList)
    ("Failed to create remote file '".toList ++ remotePath ++ "': ".toList) io remoteFile
    remotePath files

def downloadToMemory (opened : Except Text Bytes)
    (reads : ℕ → Except Text (ReadSize sftpChunkSize)) (remotePath : Text) :
    Except TransferError Bytes :=
  match opened with
  | .error e =>
    .error (.operation ("Failed to open remote file '".toList ++ remotePath ++ "': ".toList ++ e))
  | .ok content =>
    match readLoop reads 0 (zeroed sftpChunkSize) content [] with
    | .error e => .error (.io e)
    | .ok buffer => .ok buffer

def afterWrites (flush : Except (Text × Bytes) Unit) (data : Bytes) (remotePath : Text)
    (files : Files) (dest : Bytes) : Except Text Unit → Files × Except TransferError ℕ
  | .error e => (Function.update files remotePath (some dest), .error (.io e))
  | .ok () =>
    match flush with
    | .error (e, left) => (Function.update files remotePath (some left), .error (.io e))
    | .ok () => (Function.update files remotePath (some dest), .ok data.length)

def uploadFromBytes (created : Except Text Unit) (writes : ℕ → Except (Text × Bytes) Unit)
    (flush : Except (Text × Bytes) Unit) (data : Bytes) (remotePath : Text) (files : Files) :
    Files × Except TransferError ℕ :=
  match created with
  | .error e =>
    (files, .error (.operation
      ("Failed to create remote file '".toList ++ remotePath ++ "': ".toList ++ e)))
  | .ok () =>
    let r := writeLoop writes 0 [] (chunks sftpChunkSize data)
    afterWrites flush data remotePath files r.1 r.2

/-- A finished transfer has copied the content, a cancelled one the part it last reported, and the
reports are the lengths of longer and longer parts. -/
structure CopiesExactly (content : Bytes) (path : Text) (t : Transferred) : Prop where
  ok : ∀ n, t.result = .ok n → t.files path = some content ∧ n = content.length
  cancelled : t.result = .error .cancelled →
    ∃ held, t.files path = some held ∧ held <+: content ∧ held.length = lastTotal t.progress
  reported : Reported content t.progress

variable {content : Bytes} {io : Io} {held : Copy UInt8 → Bytes} {path : Text} {files : Files}

/-- A transfer is exact where the destination of a cancelled one holds what was accepted. -/
theorem afterLoop_exact {r : Copy UInt8 × Ending Text} (h : Exact content r)
    (hheld : r.2 = .cancelled → held r.1 = r.1.accepted) :
    CopiesExactly content path (afterLoop io held path files r.1 r.2) := by
  obtain ⟨c, ending⟩ := r
  cases ending with
  | cancelled =>
    obtain ⟨hpre, hlen⟩ := h.cancelled rfl
    have hsame : held c = c.accepted := hheld rfl
    exact ⟨by simp [afterLoop],
      fun _ => ⟨c.accepted, by simp [afterLoop, hsame], hpre, hlen⟩, h.reported⟩
  | readFailed e => exact ⟨by simp [afterLoop], by simp [afterLoop], h.reported⟩
  | writeFailed e => exact ⟨by simp [afterLoop], by simp [afterLoop], h.reported⟩
  | finished =>
    obtain ⟨haccepted, htotal⟩ := h.finished rfl
    simp only [afterLoop]
    cases io.flush with
    | error r => exact ⟨by simp, by simp, h.reported⟩
    | ok u => exact ⟨by simp_all, by simp, h.reported⟩

theorem transferFile_refused {openFailed createFailed e : Text} (ho : io.opened = .ok content)
    (hc : io.created = .error e) :
    CopiesExactly content path (transferFile openFailed createFailed io held path files) := by
  rw [transferFile, ho, hc]
  exact ⟨by simp, by simp, by simp, by simp, by simp⟩

theorem transferFile_copies {openFailed createFailed : Text} (ho : io.opened = .ok content)
    (hc : io.created = .ok ()) :
    transferFile openFailed createFailed io held path files = copyInto io held content path files := by
  rw [transferFile, ho, hc]

theorem uploadFile_exact (ho : io.opened = .ok content) (localPath : Text) :
    CopiesExactly content path (uploadFile io localPath path files) := by
  cases hc : io.created with
  | error e => exact transferFile_refused ho hc
  | ok u =>
    rw [uploadFile, transferFile_copies ho hc]
    exact afterLoop_exact (copyLoop_exact (inStep_start content)) fun _ => rfl

theorem copyInto_cancelled
    (hend : (copyLoop io.turns 0 (zeroed sftpChunkSize) content .start).2 = .cancelled) :
    copyInto io held content path files = ⟨Function.update files path
        (some (held (copyLoop io.turns 0 (zeroed sftpChunkSize) content .start).1)),
      (copyLoop io.turns 0 (zeroed sftpChunkSize) content .start).1.progress,
      .error .cancelled⟩ := by
  rw [copyInto, hend, afterLoop]

/-- Where the token fires, the write that was accepted last is in place. -/
def LastWriteLands (io : Io) (content : Bytes) : Prop :=
  io.created = .ok () → LandsAll io.turns content io.landed

theorem downloadFile_exact_iff (ho : io.opened = .ok content) (remotePath : Text) :
    CopiesExactly content path (downloadFile io remotePath path files) ↔
      LastWriteLands io content := by
  cases hc : io.created with
  | error e =>
    exact iff_of_true (transferFile_refused ho hc) fun h => by rw [hc] at h; cases h
  | ok u =>
    have hexact : Exact content (copyLoop io.turns 0 (zeroed sftpChunkSize) content .start) :=
      copyLoop_exact (inStep_start content)
    rw [downloadFile, transferFile_copies ho hc, LastWriteLands, imp_iff_right hc,
      landsAll_iff (zeroed sftpChunkSize)]
    constructor
    · intro h hend
      obtain ⟨-, hlen⟩ := hexact.cancelled hend
      rw [copyInto_cancelled hend] at h
      obtain ⟨held, hfile, -, hheld⟩ := h.cancelled rfl
      simp only [Function.update_self, Option.some.injEq] at hfile
      subst hfile
      exact pending_le (hlen.trans hheld.symm).le
    · exact fun h => afterLoop_exact hexact fun hend => settled_eq (h hend)

theorem downloadToMemory_ok {reads : ℕ → Except Text (ReadSize sftpChunkSize)} {data : Bytes}
    (h : downloadToMemory (.ok content) reads path = .ok data) : data = content := by
  simp only [downloadToMemory] at h
  cases hr : readLoop reads 0 (zeroed sftpChunkSize) content [] with
  | error e => simp [hr] at h
  | ok buffer =>
    simp only [hr, Except.ok.injEq] at h
    rw [← h, readLoop_ok hr, List.nil_append]

theorem afterWrites_ok {flush : Except (Text × Bytes) Unit} {data dest : Bytes}
    {written : Except Text Unit} {n : ℕ}
    (h : (afterWrites flush data path files dest written).2 = .ok n) :
    written = .ok () ∧ (afterWrites flush data path files dest written).1 path = some dest ∧
      n = data.length := by
  cases written with
  | error e => cases h
  | ok u =>
    cases flush with
    | error r => cases h
    | ok u => exact ⟨rfl, Function.update_self .., (Except.ok.inj h).symm⟩

theorem uploadFromBytes_ok {created : Except Text Unit} {writes : ℕ → Except (Text × Bytes) Unit}
    {flush : Except (Text × Bytes) Unit} {data : Bytes} {n : ℕ}
    (h : (uploadFromBytes created writes flush data path files).2 = .ok n) :
    (uploadFromBytes created writes flush data path files).1 path = some data ∧
      n = data.length := by
  cases created with
  | error e => cases h
  | ok u =>
    obtain ⟨hw, hfile, hn⟩ := afterWrites_ok h
    have hdest := writeLoop_ok hw
    rw [List.nil_append, flatten_chunks] at hdest
    exact ⟨hfile.trans (congrArg some hdest), hn⟩

/-- Whatever the sizes of the reads are, and wherever a transfer is cancelled or fails, the four
transfers are exact exactly where a cancelled download finds its last write in place. -/
theorem transfers_exact_iff (down up : Io) (content : Bytes) (downloads : down.opened = .ok content)
    (uploads : up.opened = .ok content) (localPath remotePath : Text) (files : Files)
    (reads : ℕ → Except Text (ReadSize sftpChunkSize)) (created : Except Text Unit)
    (writes : ℕ → Except (Text × Bytes) Unit) (flush : Except (Text × Bytes) Unit) :
    (CopiesExactly content localPath (downloadFile down remotePath localPath files) ∧
      CopiesExactly content remotePath (uploadFile up localPath remotePath files) ∧
      (∀ data, downloadToMemory down.opened reads remotePath = .ok data → data = content) ∧
      ∀ n, (uploadFromBytes created writes flush content remotePath files).2 = .ok n →
        (uploadFromBytes created writes flush content remotePath files).1 remotePath =
          some content ∧ n = content.length) ↔ LastWriteLands down content := by
  rw [downloadFile_exact_iff downloads]
  refine and_iff_left ⟨uploadFile_exact uploads localPath, ?_, fun _ => uploadFromBytes_ok⟩
  rw [downloads]
  exact fun _ => downloadToMemory_ok

/-- Two bytes arrive, then one, then the end of the content, and the token fires in between. -/
def shortReads (landed : ℕ) : Io where
  opened := .ok [1, 2, 3]
  created := .ok ()
  turns i := ⟨i == 1, .ok ⟨2, by decide, Nat.le_of_ble_eq_true rfl⟩, .ok ()⟩
  landed := landed
  flush := .ok ()

theorem shortReads_lands : LastWriteLands (shortReads 2) [1, 2, 3] := by
  intro _ i source piece hcopied _
  cases hcopied with
  | start => exact Nat.zero_le 2
  | turn h live read more write =>
    cases read
    exact List.length_take_le _ _

theorem transfers_exact_short :
    CopiesExactly [1, 2, 3] "l".toList
        (downloadFile (shortReads 2) "r".toList "l".toList fun _ => none) ∧
      CopiesExactly [1, 2, 3] "r".toList
        (uploadFile (shortReads 0) "l".toList "r".toList fun _ => none) :=
  have h := (transfers_exact_iff (shortReads 2) (shortReads 0) [1, 2, 3] rfl rfl "l".toList
    "r".toList (fun _ => none) (fun i => ((shortReads 2).turns i).read) (.ok ()) (fun _ => .ok ())
    (.ok ())).mpr shortReads_lands
  ⟨h.1, h.2.1⟩

/-- Two bytes are reported, and one of them is there. -/
theorem cancelled_download_behind :
    ¬CopiesExactly [1, 2, 3] "l".toList
      (downloadFile (shortReads 1) "r".toList "l".toList fun _ => none) := by
  rw [downloadFile_exact_iff (show (shortReads 1).opened = .ok [1, 2, 3] from rfl)]
  intro h
  have hread : ((shortReads 1).turns 0).read =
      .ok ⟨2, by decide, Nat.le_of_ble_eq_true rfl⟩ := rfl
  have hcopied : Copied (shortReads 1).turns [1, 2, 3] 1 [3] [1, 2] :=
    .turn .start rfl hread (by simp) rfl
  exact absurd (h rfl 1 [3] [1, 2] hcopied rfl) (by decide)

end SshCommander.SftpTransfers
