import Mathlib.Data.List.Nodup
import SshCommander.FtpListing
import SshCommander.RustTextLaws
import SshCommander.SftpTransfers

/-!
# One order for every listing

`sftp_ops::list_dir` and `FtpClient::list_dir` show a directory in the same order. So where no two
names of one directory differ in case only, what they show of it is the same list.
-/

namespace SshCommander.RemoteListings
open RustText FtpListing SftpTransfers

structure FileAttributes where
  size : Option UInt64
  mtime : Option UInt32
  permissions : Option UInt32
  uid : Option UInt32
  gid : Option UInt32
  deriving DecidableEq, Repr

structure DirItem where
  fileName : Text
  metadata : FileAttributes
  deriving DecidableEq, Repr

/-- What the packages behind the listing say: the file type of the attributes, and the date of a
number of seconds, if there is one. -/
structure Packages where
  isDir : FileAttributes → Bool
  isSymlink : FileAttributes → Bool
  formatUtc : ℤ → Option Text

def formatUnixTimestamp (P : Packages) (secs : ℤ) : Text :=
  (P.formatUtc secs).getD "invalid-timestamp".toList

def permissionFlags : List (UInt32 × Char) :=
  [(0o400, 'r'), (0o200, 'w'), (0o100, 'x'), (0o040, 'r'), (0o020, 'w'), (0o010, 'x'),
    (0o004, 'r'), (0o002, 'w'), (0o001, 'x')]

def formatPermissions (mode : UInt32) : Text :=
  permissionFlags.map fun (bit, ch) => if mode &&& bit ≠ 0 then ch else '-'

def remoteEntry (P : Packages) (item : DirItem) : FileEntry :=
  let attrs := item.metadata
  let mtimeSecs := attrs.mtime.map fun t => (t.toNat : ℤ)
  { name := item.fileName
    size := attrs.size.getD 0
    modified := mtimeSecs.map (formatUnixTimestamp P)
    modifiedUnix := mtimeSecs
    permissions := attrs.permissions.map formatPermissions
    owner := attrs.uid.map fun u => decimal u.toNat
    group := attrs.gid.map fun g => decimal g.toNat
    fileType := if P.isDir attrs then .directory else if P.isSymlink attrs then .symlink else .file }

def sortEntries (lower : Lowercase) (entries : List FileEntry) : List FileEntry :=
  entries.mergeSort (entryLe lower)

/-- `sftp_ops::list_dir`, with what `read_dir` answers. -/
def listDir (P : Packages) (lower : Lowercase) (answer : Except Text (List DirItem)) (path : Text) :
    Except TransferError (List FileEntry) :=
  match answer with
  | .error e =>
    .error (.operation ("Failed to list directory '".toList ++ path ++ "': ".toList ++ e))
  | .ok entries =>
    .ok (sortEntries lower ((entries.filter (! isDots ·.fileName)).map (remoteEntry P)))

variable {P : Packages} {lower : Lowercase} {f g h : FileEntry} {as bs : List FileEntry}

/-- The text tells what every bit of it is. -/
theorem formatPermissions_iff (mode mode' : UInt32) :
    formatPermissions mode = formatPermissions mode' ↔
      ∀ flag ∈ permissionFlags, (mode &&& flag.1 = 0 ↔ mode' &&& flag.1 = 0) := by
  have hflags : ∀ flag ∈ permissionFlags, flag.2 ≠ '-' := by decide
  rw [formatPermissions, formatPermissions, List.map_inj_left]
  refine forall₂_congr fun flag hflag => ?_
  by_cases hm : mode &&& flag.1 = 0 <;> by_cases hm' : mode' &&& flag.1 = 0 <;>
    simp [hm, hm', hflags flag hflag, Ne.symm (hflags flag hflag)]

def key (lower : Lowercase) (f : FileEntry) : Bool × Text :=
  (f.fileType == .directory, lower.toLowercase f.name)

def keyLe (a b : Bool × Text) : Bool := (a.1 && !b.1) || (a.1 == b.1 && textLe a.2 b.2)

theorem keyLe_total (a b : Bool × Text) : (keyLe a b || keyLe b a) = true := by
  obtain ⟨x, s⟩ := a
  obtain ⟨y, t⟩ := b
  have htotal := textLe_total s t
  cases x <;> cases y <;> simp [keyLe] at htotal ⊢
  · exact htotal
  · exact htotal

theorem keyLe_trans (a b c : Bool × Text) (hab : keyLe a b = true) (hbc : keyLe b c = true) :
    keyLe a c = true := by
  obtain ⟨x, s⟩ := a
  obtain ⟨y, t⟩ := b
  obtain ⟨z, u⟩ := c
  have htrans := textLe_trans s t u
  cases x <;> cases y <;> cases z <;> simp [keyLe] at hab hbc ⊢
  · exact htrans hab hbc
  · exact htrans hab hbc

theorem keyLe_antisymm {a b : Bool × Text} (hab : keyLe a b = true) (hba : keyLe b a = true) :
    a = b := by
  obtain ⟨x, s⟩ := a
  obtain ⟨y, t⟩ := b
  cases x <;> cases y <;> simp [keyLe] at hab hba ⊢
  · exact textLe_antisymm hab hba
  · exact textLe_antisymm hab hba

theorem pairwise_sorted (lower : Lowercase) (entries : List FileEntry) :
    (entries.mergeSort (entryLe lower)).Pairwise fun f g => entryLe lower f g = true := by
  apply List.pairwise_mergeSort
  · exact fun f g h => keyLe_trans (key lower f) (key lower g) (key lower h)
  · exact fun f g => keyLe_total (key lower f) (key lower g)

def shown (f : FileEntry) : FileEntryType × Text × UInt64 := (f.fileType, f.name, f.size)

/-- An SFTP entry for a directory entry. -/
structure Describes (P : Packages) (e : DirEntry) (item : DirItem) : Prop where
  name : item.fileName = e.name
  fits : e.size < UInt64.size
  size : item.metadata.size = some (UInt64.ofNat e.size)
  fileType : (remoteEntry P item).fileType = e.kind.fileType

def faithful (e : DirEntry) : FileEntryType × Text × UInt64 :=
  (e.kind.fileType, e.name, UInt64.ofNat e.size)

theorem shown_remote {e : DirEntry} {item : DirItem} (h : Describes P e item) :
    shown (remoteEntry P item) = faithful e := by
  have hsize : (remoteEntry P item).size = UInt64.ofNat e.size := by
    simp [remoteEntry, h.size]
  rw [shown, faithful, h.fileType, hsize]
  exact congrArg (fun name => (_, name, _)) h.name

theorem shown_line {e : DirEntry} (hshows : e.Shows f) (hfits : e.size < UInt64.size) :
    shown f = faithful e := by
  have hsize : f.size = UInt64.ofNat e.size := by
    rw [← hshows.size hfits, UInt64.ofNat_toNat]
  rw [shown, faithful, hshows.name, hshows.fileType, hsize]

/-- The SFTP entries that are kept are those of the directory entries that are no dots. -/
theorem shown_items {directory : List DirEntry} {items : List DirItem}
    (h : List.Forall₂ (Describes P) directory items) :
    ((items.filter (! isDots ·.fileName)).map fun item => shown (remoteEntry P item)) =
      (directory.filter (! isDots ·.name)).map faithful := by
  induction h with
  | nil => rfl
  | @cons e item directory items hfirst _ ih =>
    rw [List.filter_cons, List.filter_cons, hfirst.name]
    cases isDots e.name with
    | true => exact ih
    | false =>
      simp only [Bool.not_false, if_true, List.map_cons, ih, shown_remote hfirst]

theorem shown_found {directory : List DirEntry} {found : List FileEntry}
    (hfits : ∀ e ∈ directory, e.size < UInt64.size)
    (h : List.Forall₂ (fun e f => parseFtpListLine e.line = some f ∧ e.Shows f) directory found) :
    found.map shown = directory.map faithful := by
  induction h with
  | nil => rfl
  | cons hfirst _ ih =>
    obtain ⟨hfit, hfits⟩ := List.forall_mem_cons.mp hfits
    rw [List.map_cons, List.map_cons, ih hfits, shown_line hfirst.2 hfit]

theorem fits_of_described {directory : List DirEntry} {items : List DirItem}
    (h : List.Forall₂ (Describes P) directory items) : ∀ e ∈ directory, e.size < UInt64.size := by
  induction h with
  | nil => exact nofun
  | cons hfirst _ ih => exact List.forall_mem_cons.mpr ⟨hfirst.fits, ih⟩

/-- A sorted list is known from what is in it, where the keys of that differ. -/
theorem sorted_unique (lower : Lowercase) {xs ys : List (FileEntryType × Text × UInt64)}
    (hperm : xs.Perm ys)
    (hx : xs.Pairwise fun a b => keyLe (a.1 == .directory, lower.toLowercase a.2.1)
      (b.1 == .directory, lower.toLowercase b.2.1) = true)
    (hy : ys.Pairwise fun a b => keyLe (a.1 == .directory, lower.toLowercase a.2.1)
      (b.1 == .directory, lower.toLowercase b.2.1) = true)
    (hkeys : (ys.map fun a => (a.1 == .directory, lower.toLowercase a.2.1)).Nodup) : xs = ys := by
  refine List.Perm.eq_of_pairwise (fun a b ha hb hab hba => ?_) hx hy hperm
  exact List.inj_on_of_nodup_map hkeys (hperm.mem_iff.mp ha) hb (keyLe_antisymm hab hba)

/-- Both protocols show the same list of a directory whose names stay apart in lower case, and show
it in order, whatever order the servers send it in, if its lines are legible. -/
theorem listings_agree (P : Packages) (lower : Lowercase) (directory sent : List DirEntry)
    (items : List DirItem) (path : Text) (hsent : sent.Perm directory)
    (hlegible : ∀ e ∈ directory, e.Legible)
    (hitems : ∃ items', items.Perm items' ∧ List.Forall₂ (Describes P) directory items')
    (hkeys : ((directory.filter (! isDots ·.name)).map fun e =>
      (e.kind.fileType == .directory, lower.toLowercase e.name)).Nodup) :
    ∃ entries, listDir P lower (.ok items) path = .ok entries ∧
      entries.map shown = (FtpListing.listDir lower (render none sent)).map shown ∧
        entries.Pairwise fun f g => entryLe lower f g = true := by
  obtain ⟨items', hperm, hdescribes⟩ := hitems
  have hfits := fits_of_described hdescribes
  have hremote : ((sortEntries lower ((items.filter (! isDots ·.fileName)).map
      (remoteEntry P))).map shown).Perm ((directory.filter (! isDots ·.name)).map faithful) := by
    refine ((List.mergeSort_perm _ _).map shown).trans ?_
    rw [List.map_map, ← shown_items hdescribes]
    exact (hperm.filter _).map _
  have hlines : ((FtpListing.listDir lower (render none sent)).map shown).Perm
      ((directory.filter (! isDots ·.name)).map faithful) := by
    obtain ⟨found, extra, hparsed, hfound, hextra⟩ := parseEntries_lines sent
      fun e he _ => hlegible e (hsent.mem_iff.mp he)
    rw [hextra.mpr fun e he => hlegible e (hsent.mem_iff.mp he), List.append_nil] at hparsed
    refine (((listDir_perm lower _).trans hparsed).map shown).trans ?_
    rw [shown_found (fun e he => hfits e (hsent.mem_iff.mp (List.mem_of_mem_filter he))) hfound]
    exact (hsent.filter _).map _
  refine ⟨_, rfl, sorted_unique lower (hremote.trans hlines.symm) ?_ ?_ ?_,
    pairwise_sorted lower _⟩
  · exact List.pairwise_map.mpr (pairwise_sorted lower _)
  · exact List.pairwise_map.mpr (pairwise_sorted lower _)
  · refine ((hlines.map _).nodup_iff).mpr ?_
    rw [List.map_map]
    exact hkeys

def readme : DirEntry :=
  { twoBlanks with
    name := ['B']
    name_nonempty := by decide
    shown_line := by decide
    name_whole := by simp [twoBlanks] }

def sources : DirEntry :=
  { twoBlanks with
    kind := .directory
    mark := 'd'
    name := ['a']
    marked := rfl
    mode_word := word_of_all (by decide) rfl
    name_nonempty := by decide
    shown_line := by decide
    name_whole := by simp }

def modes : Packages := ⟨fun a => a.permissions == some 0o40755, fun _ => false, fun _ => none⟩

def directoryItem : DirItem := ⟨['a'], ⟨some 100, none, some 0o40755, some 0, none⟩⟩

def fileItem : DirItem := ⟨['B'], ⟨some 100, some 0, some 0o100644, none, none⟩⟩

theorem listings_agree_twoEntries : ∃ entries,
    listDir modes asciiLowercase (.ok [directoryItem, fileItem]) ['/'] = .ok entries ∧
      entries.map shown =
        (FtpListing.listDir asciiLowercase (render none [readme, sources])).map shown := by
  have hlegible : ∀ e ∈ [sources, readme], e.Legible := by
    refine List.forall_mem_cons.mpr ⟨⟨by decide, ?_⟩, List.forall_mem_singleton.mpr ⟨by decide, ?_⟩⟩
    · rintro target ⟨⟩
    · rintro target ⟨⟩
  have hdescribes : List.Forall₂ (Describes modes) [sources, readme] [directoryItem, fileItem] :=
    .cons ⟨rfl, by decide, rfl, rfl⟩ (.cons ⟨rfl, by decide, rfl, rfl⟩ .nil)
  obtain ⟨entries, hlist, hagree, -⟩ := listings_agree modes asciiLowercase [sources, readme]
    [readme, sources] [directoryItem, fileItem] ['/'] (List.Perm.swap _ _ _) hlegible
    ⟨_, .refl _, hdescribes⟩ (by decide)
  exact ⟨entries, hlist, hagree⟩

end SshCommander.RemoteListings
