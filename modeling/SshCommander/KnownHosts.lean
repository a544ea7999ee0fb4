import Mathlib.Data.List.AList
import SshCommander.RustText

/-!
# The store of trusted host keys

`host_keys.rs`: the known_hosts file, its lazy load into memory, and `verify`, `trust` and
`forget`. Each operation is one section under the store's mutex, from what is in memory or, at
first use, on disk.
-/

namespace SshCommander.KnownHosts
open RustText

/-- What the store uses of `russh::keys`: parsing takes back what the encoding wrote. -/
structure KeyFormat (Key : Type) where
  publicKeyBase64 : Key → Text
  fingerprint : Key → Text
  parsePublicKeyBase64 : Text → Option Key
  parse_base64 : ∀ k, parsePublicKeyBase64 (publicKeyBase64 k) = some k

abbrev Entries := AList fun _ : Text => Text

inductive Verdict where
  | known
  | unknown
  | mismatch (expectedFingerprint gotFingerprint : Text)
  deriving DecidableEq, Repr

/-- `unreadable` is every read error but `NotFound`. -/
inductive File where
  | missing
  | unreadable
  | text (content : Text)
  deriving DecidableEq, Repr

/-- How `write_to_disk` ends: a failed write may leave anything in the file. -/
inductive DiskWrite where
  | done
  | parentFailed
  | failed (left : File)
  deriving DecidableEq, Repr

structure StorePath where
  display : Text
  parent : Option Text
  deriving DecidableEq, Repr

structure HostKeyStore where
  path : StorePath
  /-- `None` until the first use. -/
  state : Option Entries

def new (path : StorePath) : HostKeyStore := ⟨path, none⟩

def makeKey (host : Text) (port : UInt16) : Text :=
  if port = 22 then host
  else "[".toList ++ host ++ "]:".toList ++ (toString port.toNat).toList

/-- One line: blank lines, comments and lines of one word are skipped. -/
def loadLine (map : Entries) (line : Text) : Entries :=
  let trimmed := trim line
  if trimmed.isEmpty ∨ trimmed.head? = some '#' then map
  else
    match splitAtWhitespace trimmed with
    | (hostId, some keyBlob) => map.insert hostId (trim keyBlob)
    | (_, none) => map

def loadFromDisk (path : StorePath) : File → Except Text Entries
  | .missing => .ok ∅
  | .unreadable => .error ("failed to read known_hosts at ".toList ++ path.display)
  | .text content => .ok ((lines content).foldl loadLine ∅)

def header : Text := "# r-shell known hosts — auto-managed, one entry per host\n".toList

def render (entries : Entries) : Text :=
  header ++ (entries.keys.mergeSort textLe).flatMap fun k =>
    match entries.lookup k with
    | some v => k ++ [' '] ++ v ++ ['\n']
    | none => []

/-- A path without a parent has no directory to create. -/
def writeToDisk (path : StorePath) (entries : Entries) (outcome : DiskWrite) (file : File) :
    File × Except Text Unit :=
  match outcome, path.parent with
  | .parentFailed, some parent => (file, .error ("failed to create ".toList ++ parent))
  | .failed left, _ => (left, .error ("failed to write ".toList ++ path.display))
  | _, _ => (.text (render entries), .ok ())

variable {Key : Type} (K : KeyFormat Key)

def fingerprintFromStored (blob : Text) : Text :=
  match K.parsePublicKeyBase64 blob with
  | some key => K.fingerprint key
  | none => "<unparseable stored key>".toList

def verdictOf (stored : Option Text) (key : Key) : Verdict :=
  match stored with
  | some stored =>
    if stored = K.publicKeyBase64 key then .known
    else .mismatch (fingerprintFromStored K stored) (K.fingerprint key)
  | none => .unknown

namespace HostKeyStore

/-- The entries an operation works on: those in memory, else those on disk. -/
def entries (store : HostKeyStore) (file : File) : Except Text Entries :=
  match store.state with
  | some entries => .ok entries
  | none => loadFromDisk store.path file

def verify (store : HostKeyStore) (file : File) (host : Text) (port : UInt16) (key : Key) :
    HostKeyStore × Except Text Verdict :=
  match store.entries file with
  | .error e => (store, .error e)
  | .ok entries =>
    ({ store with state := some entries }, .ok (verdictOf K (entries.lookup (makeKey host port)) key))

/-- Store a snapshot: memory follows the disk only when the write succeeded. -/
def commit (store : HostKeyStore) (file : File) (entries snapshot : Entries)
    (outcome : DiskWrite) : HostKeyStore × File × Except Text Unit :=
  match writeToDisk store.path snapshot outcome file with
  | (file', .error e) => ({ store with state := some entries }, file', .error e)
  | (file', .ok ()) => ({ store with state := some snapshot }, file', .ok ())

def trust (store : HostKeyStore) (file : File) (host : Text) (port : UInt16) (key : Key)
    (outcome : DiskWrite) : HostKeyStore × File × Except Text Unit :=
  match store.entries file with
  | .error e => (store, file, .error e)
  | .ok entries =>
    store.commit file entries (entries.insert (makeKey host port) (K.publicKeyBase64 key)) outcome

def forget (store : HostKeyStore) (file : File) (host : Text) (port : UInt16)
    (outcome : DiskWrite) : HostKeyStore × File × Except Text Bool :=
  match store.entries file with
  | .error e => (store, file, .error e)
  | .ok entries =>
    if (entries.lookup (makeKey host port)).isSome then
      match store.commit file entries (entries.erase (makeKey host port)) outcome with
      | (store', file', .error e) => (store', file', .error e)
      | (store', file', .ok ()) => (store', file', .ok true)
    else ({ store with state := some entries }, file, .ok false)

variable {K} {store : HostKeyStore} {file : File} {host : Text} {port : UInt16} {key : Key}

/-- Verifying loads the entries and changes none. -/
theorem verify_entries (K : KeyFormat Key) (store : HostKeyStore) (file : File) (host : Text)
    (port : UInt16) (key : Key) :
    (store.verify K file host port key).1.entries file = store.entries file := by
  unfold verify
  cases h : store.entries file with
  | error e => exact h
  | ok entries => rfl

theorem verify_ok {verdict : Verdict} (h : (store.verify K file host port key).2 = .ok verdict) :
    ∃ entries, store.entries file = .ok entries ∧
      verdictOf K (entries.lookup (makeKey host port)) key = verdict := by
  unfold verify at h
  cases he : store.entries file with
  | error e =>
    rw [he] at h
    cases h
  | ok entries =>
    rw [he] at h
    exact ⟨entries, rfl, Except.ok.inj h⟩

theorem verdictOf_known {stored : Option Text} (h : verdictOf K stored key = .known) :
    stored = some (K.publicKeyBase64 key) := by
  cases stored with
  | none => cases h
  | some stored =>
    by_cases heq : stored = K.publicKeyBase64 key
    · rw [heq]
    · simp [verdictOf, heq] at h

theorem writeToDisk_done (path : StorePath) (entries : Entries) (file : File) :
    writeToDisk path entries .done file = (.text (render entries), .ok ()) := by
  cases path
  rfl

/-- A trust whose write succeeds stores the offered key, whatever was stored before. -/
theorem trust_done {entries : Entries} (h : store.entries file = .ok entries) :
    store.trust K file host port key .done =
      let snapshot := entries.insert (makeKey host port) (K.publicKeyBase64 key)
      ({ store with state := some snapshot }, .text (render snapshot), .ok ()) := by
  simp only [trust, h, commit, writeToDisk_done]

theorem trust_error {e : Text} (h : store.entries file = .error e) (outcome : DiskWrite) :
    store.trust K file host port key outcome = (store, file, .error e) := by
  simp only [trust, h]

end HostKeyStore

end SshCommander.KnownHosts
