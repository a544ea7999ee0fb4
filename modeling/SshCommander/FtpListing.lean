import Mathlib.Data.List.Forall2
import SshCommander.TextSplitting

/-!
# Listings of FTP servers

`FtpClient::list_dir` reads lines in the format of `ls -l`. A name is put together from its words
again, so it is the name of the entry only where one blank stands between them, and a line that
names no entry is read as one.
-/

namespace SshCommander.FtpListing
open RustText

inductive FileEntryType where
  | file
  | directory
  | symlink
  deriving DecidableEq, Repr

structure FileEntry where
  name : Text
  size : UInt64
  modified : Option Text
  modifiedUnix : Option Int
  permissions : Option Text
  owner : Option Text
  group : Option Text
  fileType : FileEntryType
  deriving DecidableEq, Repr

def entryType (permsStr : Text) : FileEntryType :=
  match permsStr with
  | 'd' :: _ => .directory
  | 'l' :: _ => .symlink
  | _ => .file

/-- An entry of which only the name and what is in front of the first blank were read. -/
def FileEntry.short (name : Text) (permissions : Option Text) (fileType : FileEntryType) :
    FileEntry :=
  ⟨name, 0, none, none, permissions, none, none, fileType⟩

def parseSize (s : Text) : UInt64 := UInt64.ofNat ((parseUnsigned UInt64.size s).getD 0)

def arrow : Text := " -> ".toList

def entryName (fileType : FileEntryType) (words : List Text) : Text :=
  match fileType with
  | .symlink => splitFirst arrow (joinBlank words)
  | _ => joinBlank words

/-- The tokens of a line with nine fields. -/
def parseTokens (permsStr : Text) (tokens : List Text) : FileEntry :=
  match tokens with
  | _ :: _ :: _ :: _ :: size :: month :: day :: timeOrYear :: word :: words =>
    { name := entryName (entryType permsStr) (word :: words)
      size := parseSize size
      modified := some (month ++ ' ' :: (day ++ ' ' :: timeOrYear))
      modifiedUnix := none
      permissions := some permsStr
      owner := none
      group := none
      fileType := entryType permsStr }
  | _ => .short (tokens.getLast?.getD []) (some permsStr) (entryType permsStr)

def parseFtpListLine (rawLine : Text) : Option FileEntry :=
  let line := trim rawLine
  if line.isEmpty then none
  else
    let parts := splitn isWhitespace 9 line
    let tokens := splitWhitespace line
    if parts.length < 9 then tokens.getLast?.map fun last => .short last none .file
    else some (parseTokens (parts.head?.getD []) tokens)

def isDots (name : Text) : Bool := name == ['.'] || name == ['.', '.']

def parseEntries (entries : List Text) : List FileEntry :=
  (entries.filterMap parseFtpListLine).filter (! isDots ·.name)

def entryLe (lower : Lowercase) (a b : FileEntry) : Bool :=
  let aIsDir := a.fileType == .directory
  let bIsDir := b.fileType == .directory
  (aIsDir && !bIsDir) ||
    (aIsDir == bIsDir && textLe (lower.toLowercase a.name) (lower.toLowercase b.name))

/-- What `list_dir` makes of the lines that the server sends. -/
def listDir (lower : Lowercase) (entries : List Text) : List FileEntry :=
  (parseEntries entries).mergeSort (entryLe lower)

inductive Kind where
  | file
  | directory
  | symlink (target : Text)

def Kind.fileType : Kind → FileEntryType
  | .file => .file
  | .directory => .directory
  | .symlink _ => .symlink

/-- What stands in front of the permissions. There is more than one character for a file. -/
def Kind.Mark : Kind → Char → Prop
  | .file, c => c ≠ 'd' ∧ c ≠ 'l'
  | .directory, c => c = 'd'
  | .symlink _, c => c = 'l'

def Kind.shown : Kind → Text → Text
  | .symlink target, name => name ++ (arrow ++ target)
  | _, name => name

/-- A directory entry, and the blanks its line is padded with. -/
structure DirEntry where
  kind : Kind
  mark : Char
  permissions : Text
  links : Text
  owner : Text
  group : Text
  size : ℕ
  month : Text
  day : Text
  timeOrYear : Text
  name : Text
  padding : ℕ → ℕ
  marked : kind.Mark mark
  mode_word : Word (mark :: permissions)
  links_word : Word links
  owner_word : Word owner
  group_word : Word group
  month_word : Word month
  day_word : Word day
  timeOrYear_word : Word timeOrYear
  name_nonempty : name ≠ []
  shown_line : '\n' ∉ kind.shown name
  name_whole : ∀ target, kind = .symlink target → ¬arrow <:+: name

def DirEntry.mode (e : DirEntry) : Text := e.mark :: e.permissions

def DirEntry.columns (e : DirEntry) : List Text :=
  [e.mode, e.links, e.owner, e.group, decimal e.size, e.month, e.day, e.timeOrYear]

def DirEntry.line (e : DirEntry) : Text :=
  joinColumns e.padding e.columns ++ ' ' :: e.kind.shown e.name

/-- The lines of a listing, with the number of blocks in front where the server sends it. -/
def render (total : Option ℕ) (directory : List DirEntry) : List Text :=
  (total.map ("total ".toList ++ decimal ·)).toList ++ directory.map DirEntry.line

/-- The entry has the name, the size and the type of a directory entry. -/
structure DirEntry.Shows (e : DirEntry) (f : FileEntry) : Prop where
  name : f.name = e.name
  size : e.size < UInt64.size → f.size.toNat = e.size
  fileType : f.fileType = e.kind.fileType

/-- The listing has exactly one entry for each directory entry but the directory itself and the one
it is in: the entry that its own line is read as. -/
def Recovers (lower : Lowercase) (total : Option ℕ) (directory : List DirEntry) : Prop :=
  ∃ found, (listDir lower (render total directory)).Perm found ∧
    List.Forall₂ (fun e f => parseFtpListLine e.line = some f ∧ e.Shows f)
      (directory.filter (! isDots ·.name)) found

/-- One blank stands between the words of the name. For a symlink the name does not end in an arrow
and the target is not blank. -/
structure DirEntry.Legible (e : DirEntry) : Prop where
  name : joinBlank (splitWhitespace e.name) = e.name
  arrow : ∀ target, e.kind = .symlink target →
    ¬" ->".toList <:+ e.name ∧ splitWhitespace target ≠ []

variable {lower : Lowercase} {e : DirEntry} {line name target : Text} {words : List Text}

theorem splitWhitespace_line (e : DirEntry) :
    splitWhitespace (trim e.line) = e.columns ++ splitWhitespace (e.kind.shown e.name) := by
  have hword : ∀ t ∈ e.columns, splitWhitespace t = [t] := by
    have hwords : ∀ t ∈ e.columns, Word t := by
      simp only [DirEntry.columns, List.forall_mem_cons]
      exact ⟨e.mode_word, e.links_word, e.owner_word, e.group_word, word_decimal _, e.month_word,
        e.day_word, e.timeOrYear_word, by simp⟩
    exact fun t ht => splitWhitespace_word (hwords t ht)
  rw [splitWhitespace_trim, DirEntry.line, splitWhitespace_blank rfl, splitWhitespace_joinColumns,
    List.flatMap_congr hword, List.flatMap_singleton']

/-- What is read of a line that starts solid depends on its words. -/
theorem parse_solid {c : Char} (hc : isWhitespace c = false) {s first : Text}
    (hline : trim line = c :: s) (hwords : splitWhitespace (c :: s) = first :: words) :
    parseFtpListLine line = some (parseTokens first (first :: words)) ∨
      ((first :: words).length < 9 ∧
        parseFtpListLine line = (first :: words).getLast?.map fun last => .short last none .file) := by
  have hfirst : (splitn isWhitespace 9 (c :: s)).head?.getD [] = first := by
    obtain ⟨rest, hrest⟩ := splitWhitespace_cons hc s
    rw [head?_splitn, Option.getD_some]
    exact (List.cons.inj (hrest.symm.trans hwords)).1
  have hlength := length_splitn isWhitespace 9 (c :: s)
  have hcount := length_splitWhitespace_le (c :: s)
  rw [hwords] at hcount
  rw [parseFtpListLine, hline]
  by_cases hparts : (splitn isWhitespace 9 (c :: s)).length < 9
  · exact .inr ⟨by omega, by simp [hparts, hwords]⟩
  · exact .inl (by simp [hparts, hwords, hfirst])

theorem entryType_mode (e : DirEntry) : entryType e.mode = e.kind.fileType := by
  have hmarked := e.marked
  rw [DirEntry.mode]
  cases hkind : e.kind with
  | file =>
    rw [hkind] at hmarked
    simp [entryType, Kind.fileType, hmarked.1, hmarked.2]
  | directory =>
    rw [hkind] at hmarked
    rw [show e.mark = 'd' from hmarked]
    rfl
  | symlink target =>
    rw [hkind] at hmarked
    rw [show e.mark = 'l' from hmarked]
    rfl

theorem trim_line (e : DirEntry) : ∃ s, trim e.line = e.mark :: s := by
  have hmark : isWhitespace e.mark = false := e.mode_word.solid _ List.mem_cons_self
  obtain ⟨t, ht⟩ := prefix_joinColumns e.padding e.mode e.columns.tail
  obtain ⟨s, hs, -⟩ := trim_cons hmark (e.permissions ++ t ++ ' ' :: e.kind.shown e.name)
  refine ⟨s, ?_⟩
  rw [← hs]
  exact congrArg (fun u => trim (u ++ ' ' :: e.kind.shown e.name)) ht.symm

/-- What a line is read as. Where no word follows the date, the time is taken for the name. -/
theorem parse_line (e : DirEntry) :
    ∃ f, parseFtpListLine e.line = some f ∧
      (splitWhitespace (e.kind.shown e.name) = [] → f.name = e.timeOrYear) ∧
      (splitWhitespace (e.kind.shown e.name) ≠ [] →
        f.name = entryName e.kind.fileType (splitWhitespace (e.kind.shown e.name)) ∧
          f.size = parseSize (decimal e.size) ∧ f.fileType = e.kind.fileType) := by
  have hmark : isWhitespace e.mark = false := e.mode_word.solid _ List.mem_cons_self
  obtain ⟨s, hs⟩ := trim_line e
  have hwords : splitWhitespace (e.mark :: s) =
      e.mode :: (e.columns.tail ++ splitWhitespace (e.kind.shown e.name)) := by
    rw [← hs, splitWhitespace_line]
    rfl
  cases hshown : splitWhitespace (e.kind.shown e.name) with
  | nil =>
    rw [hshown, List.append_nil] at hwords
    obtain hparse | ⟨-, hparse⟩ := parse_solid hmark hs hwords
    · exact ⟨_, hparse, fun _ => rfl, fun h => absurd rfl h⟩
    · exact ⟨_, hparse, fun _ => rfl, fun h => absurd rfl h⟩
  | cons word words =>
    rw [hshown] at hwords
    obtain hparse | ⟨hshort, -⟩ := parse_solid hmark hs hwords
    · refine ⟨_, hparse, fun h => absurd h (List.cons_ne_nil _ _), fun _ =>
        ⟨?_, rfl, entryType_mode e⟩⟩
      rw [← entryType_mode e]
      rfl
    · simp [DirEntry.columns] at hshort
      omega

theorem splitWhitespace_arrow (name target : Text) :
    splitWhitespace (name ++ (arrow ++ target)) =
      splitWhitespace name ++ "->".toList :: splitWhitespace target := by
  have harrow : arrow ++ target = ' ' :: ("->".toList ++ ' ' :: target) := rfl
  have hword : Word "->".toList := word_of_all (by decide) rfl
  rw [harrow, splitWhitespace_blank rfl, splitWhitespace_blank rfl, splitWhitespace_word hword]
  rfl

theorem joinBlank_arrow {names targets : List Text} (hn : names ≠ []) (ht : targets ≠ []) :
    joinBlank (names ++ "->".toList :: targets) =
      joinBlank names ++ arrow ++ joinBlank targets := by
  obtain ⟨t, ts, rfl⟩ := List.exists_cons_of_ne_nil ht
  rw [joinBlank_append hn (List.cons_ne_nil _ _), joinBlank_cons, List.append_assoc]
  rfl

/-- The first arrow is the one behind the name. -/
theorem splitFirst_arrow (hwhole : ¬arrow <:+: name) (hend : ¬" ->".toList <:+ name)
    (target : Text) : splitFirst arrow (name ++ arrow ++ target) = name := by
  rw [splitFirst, dropInfix?_first rfl]
  intro a' b' h
  by_contra hlt
  obtain ⟨u, hname, hu⟩ | ⟨u, ha, -⟩ :=
    List.append_eq_append_iff.mp (by simpa using h.symm : a' ++ (arrow ++ b') = name ++ _)
  · -- an arrow that starts in the name is in it or one character longer
    have hu : ' ' :: '-' :: '>' :: ' ' :: b' = u ++ ' ' :: '-' :: '>' :: ' ' :: target := hu
    obtain _ | ⟨x, _ | ⟨y, _ | ⟨z, _ | ⟨w, u⟩⟩⟩⟩ := u
    · rw [hname, List.append_nil] at hlt
      exact hlt le_rfl
    · simp at hu
    · simp at hu
    · simp only [List.cons_append, List.nil_append, List.cons.injEq] at hu
      obtain ⟨rfl, rfl, rfl, -⟩ := hu
      exact hend ⟨a', hname.symm⟩
    · simp only [List.cons_append, List.cons.injEq] at hu
      obtain ⟨rfl, rfl, rfl, rfl, -⟩ := hu
      exact hwhole ⟨a', u, by rw [hname, List.append_assoc]; rfl⟩
  · rw [ha, List.length_append] at hlt
    omega

/-- With nothing but blanks in front of the arrow, the arrow is taken for the name. -/
theorem words_of_splitFirst (hne : name ≠ []) {targets : List Text}
    (h : splitFirst arrow (joinBlank (splitWhitespace name ++ "->".toList :: targets)) = name) :
    splitWhitespace name ≠ [] := by
  intro hn
  have hpre := prefix_splitFirst arrow (joinBlank (splitWhitespace name ++ "->".toList :: targets))
  have hstart : ∃ rest, joinBlank ("->".toList :: targets) = '-' :: rest := by
    cases targets <;> exact ⟨_, rfl⟩
  obtain ⟨rest, hrest⟩ := hstart
  obtain ⟨c, cs, rfl⟩ := List.exists_cons_of_ne_nil hne
  rw [h, hn, List.nil_append, hrest] at hpre
  rw [(List.cons_prefix_cons.mp hpre).1] at hn
  obtain ⟨words, hwords⟩ := splitWhitespace_cons (c := '-') rfl cs
  rw [hwords] at hn
  cases hn

/-- With a blank target there is no blank behind the arrow, so the arrow stays in the name. -/
theorem splitFirst_blank_target (hn : splitWhitespace name ≠ []) :
    splitFirst arrow (joinBlank (splitWhitespace name ++ ["->".toList])) ≠ name := by
  intro h
  have hjoin := joinBlank_append hn (List.cons_ne_nil "->".toList [])
  by_cases harrow : arrow <:+: joinBlank (splitWhitespace name ++ ["->".toList])
  · -- the name would end in front of the arrow and reach as far as that
    obtain ⟨b, hs, -⟩ := splitFirst_spec harrow
    rw [h, hjoin] at hs
    have hlonger := congrArg List.length hs
    rw [List.length_append, List.length_append, List.length_append, List.length_cons] at hlonger
    have hlength := length_joinBlank_splitWhitespace_le name
    have hfour : arrow.length = 4 := rfl
    have htwo : (joinBlank ["->".toList]).length = 2 := rfl
    omega
  · -- the name would have a word more than it has
    rw [splitFirst_self harrow, hjoin] at h
    have hwords := congrArg (fun s => (splitWhitespace s).length) h
    have hword : Word (joinBlank ["->".toList]) := word_of_all (by decide) rfl
    simp only [splitWhitespace_blank (c := ' ') rfl, splitWhitespace_joinBlank,
      splitWhitespace_word hword, List.length_append, List.length_singleton] at hwords
    omega

/-- The name of a symlink is read exactly where one blank stands between its words, it does not end
in an arrow and the target is not blank. -/
theorem symlinkName_iff (hne : name ≠ []) (hwhole : ¬arrow <:+: name) (target : Text) :
    splitFirst arrow
        (joinBlank (splitWhitespace name ++ "->".toList :: splitWhitespace target)) = name ↔
      joinBlank (splitWhitespace name) = name ∧ ¬" ->".toList <:+ name ∧
        splitWhitespace target ≠ [] := by
  constructor
  · intro h
    have hn := words_of_splitFirst hne h
    have ht : splitWhitespace target ≠ [] := by
      intro ht
      rw [ht] at h
      exact splitFirst_blank_target hn h
    rw [joinBlank_arrow hn ht] at h
    obtain ⟨b, hs, hleast⟩ := splitFirst_spec (s := joinBlank (splitWhitespace name) ++ arrow ++
      joinBlank (splitWhitespace target)) ⟨_, _, rfl⟩
    rw [h] at hs hleast
    have hle := hleast _ _ rfl
    have hlength := length_joinBlank_splitWhitespace_le name
    have hname : name = joinBlank (splitWhitespace name) := by
      rw [List.append_assoc, List.append_assoc] at hs
      exact (List.append_inj hs.symm (by omega)).1
    refine ⟨hname.symm, ?_, ht⟩
    rintro ⟨x, hx⟩
    have hshort := hleast x ("-> ".toList ++ joinBlank (splitWhitespace target))
      (by rw [← hname, ← hx]; simp [arrow])
    have hlong := congrArg List.length hx
    rw [List.length_append] at hlong
    have hthree : " ->".toList.length = 3 := rfl
    omega
  · rintro ⟨hname, hend, ht⟩
    have hn : splitWhitespace name ≠ [] := by
      intro hn
      rw [hn] at hname
      exact hne hname.symm
    rw [joinBlank_arrow hn ht, hname]
    exact splitFirst_arrow hwhole hend _

theorem entryName_iff (e : DirEntry) :
    entryName e.kind.fileType (splitWhitespace (e.kind.shown e.name)) = e.name ↔ e.Legible := by
  have hplain (hkind : ∀ target, e.kind ≠ .symlink target) :
      joinBlank (splitWhitespace e.name) = e.name ↔ e.Legible :=
    ⟨fun h => ⟨h, fun target ht => absurd ht (hkind target)⟩, fun h => h.name⟩
  cases hkind : e.kind with
  | file => exact hplain (by simp [hkind])
  | directory => exact hplain (by simp [hkind])
  | symlink target =>
    have hwords : splitWhitespace (e.kind.shown e.name) =
        splitWhitespace e.name ++ "->".toList :: splitWhitespace target := by
      rw [hkind]
      exact splitWhitespace_arrow e.name target
    rw [← hkind, hwords, hkind]
    refine (symlinkName_iff e.name_nonempty (e.name_whole target hkind) target).trans ?_
    constructor
    · rintro ⟨hname, hend, ht⟩
      refine ⟨hname, fun target' ht' => ?_⟩
      rw [hkind] at ht'
      cases ht'
      exact ⟨hend, ht⟩
    · rintro ⟨hname, harrow⟩
      exact ⟨hname, harrow target hkind⟩

theorem parseSize_decimal {n : ℕ} (h : n < UInt64.size) : (parseSize (decimal n)).toNat = n := by
  rw [parseSize, parseUnsigned_decimal h, Option.getD_some, UInt64.toNat_ofNat_of_lt' h]

theorem splitWhitespace_shown (h : splitWhitespace (e.kind.shown e.name) = []) :
    splitWhitespace e.name = [] := by
  cases hkind : e.kind with
  | file => rwa [hkind] at h
  | directory => rwa [hkind] at h
  | symlink target =>
    rw [hkind, Kind.shown, splitWhitespace_arrow] at h
    exact (List.append_eq_nil_iff.mp h).1

theorem parse_entry (e : DirEntry) :
    ∃ f, parseFtpListLine e.line = some f ∧ (f.name = e.name → e.Legible) ∧
      (e.Legible → e.Shows f) := by
  obtain ⟨f, hparse, hblank, hread⟩ := parse_line e
  refine ⟨f, hparse, ?_⟩
  by_cases hwords : splitWhitespace (e.kind.shown e.name) = []
  · -- the time is a word, and there is none in the name
    have hnil := splitWhitespace_shown hwords
    refine ⟨fun h => ?_, fun h => ?_⟩
    · have htime := splitWhitespace_word e.timeOrYear_word
      rw [← hblank hwords, h, hnil] at htime
      cases htime
    · have hname := h.name
      rw [hnil] at hname
      exact absurd hname.symm e.name_nonempty
  · obtain ⟨hname, hsize, htype⟩ := hread hwords
    have hiff := entryName_iff e
    rw [← hname] at hiff
    refine ⟨hiff.mp, fun h => ⟨hiff.mpr h, fun hlt => ?_, htype⟩⟩
    rw [hsize, parseSize_decimal hlt]

/-- The name of the directory itself is not read of a line that is not legible. -/
theorem legible_of_isDots {f : FileEntry} (hdots : isDots e.name = true)
    (hparse : parseFtpListLine e.line = some f) (hf : isDots f.name = true) : e.Legible := by
  have hname : e.name = ['.'] ∨ e.name = ['.', '.'] := by simpa [isDots] using hdots
  have hjoin : joinBlank (splitWhitespace e.name) = e.name := by
    obtain hname | hname := hname <;>
    · rw [hname]
      rfl
  have hend : ¬" ->".toList <:+ e.name := by
    obtain hname | hname := hname <;>
    · rw [hname]
      decide
  refine ⟨hjoin, fun target htarget => ⟨hend, fun ht => ?_⟩⟩
  obtain ⟨g, hg, -, hread⟩ := parse_line e
  rw [hparse] at hg
  cases hg
  have hwords : splitWhitespace (e.kind.shown e.name) = splitWhitespace e.name ++ ["->".toList] := by
    rw [htarget, Kind.shown, splitWhitespace_arrow, ht]
  rw [hwords] at hread
  rw [(hread (by simp)).1, htarget, Kind.fileType, entryName] at hf
  obtain hname | hname := hname <;>
  · rw [hname] at hf
    exact absurd hf (by decide)

theorem parseEntries_single {f : FileEntry} (h : parseFtpListLine line = some f) :
    parseEntries [line] = if isDots f.name then [] else [f] := by
  rw [parseEntries, List.filterMap_cons_some h, List.filterMap_nil]
  cases hf : isDots f.name <;> simp [hf]

theorem listDir_perm (lower : Lowercase) (entries : List Text) :
    (listDir lower entries).Perm (parseEntries entries) :=
  List.mergeSort_perm _ _

theorem parseEntries_append (as bs : List Text) :
    parseEntries (as ++ bs) = parseEntries as ++ parseEntries bs := by
  rw [parseEntries, List.filterMap_append, List.filter_append]
  rfl

/-- Beside the entries of legible lines, there are those that the lines of the directory itself and
of the one it is in are misread as. -/
theorem parseEntries_lines (directory : List DirEntry)
    (h : ∀ e ∈ directory, isDots e.name = false → e.Legible) :
    ∃ found extra, (parseEntries (directory.map DirEntry.line)).Perm (found ++ extra) ∧
      List.Forall₂ (fun e f => parseFtpListLine e.line = some f ∧ e.Shows f)
        (directory.filter (! isDots ·.name)) found ∧
      (extra = [] ↔ ∀ e ∈ directory, e.Legible) := by
  induction directory with
  | nil => exact ⟨[], [], List.Perm.refl _, List.Forall₂.nil, by simp⟩
  | cons e directory ih =>
    obtain ⟨found, extra, hperm, hfound, hextra⟩ := ih fun e he => h e (List.mem_cons_of_mem _ he)
    obtain ⟨f, hparse, hname, hshows⟩ := parse_entry e
    rw [List.map_cons, ← List.singleton_append, parseEntries_append, parseEntries_single hparse,
      List.forall_mem_cons, ← hextra]
    cases hdots : isDots e.name with
    | true =>
      rw [List.filter_cons_of_neg (by simp [hdots])]
      cases hf : isDots f.name with
      | true =>
        have hlegible := legible_of_isDots hdots hparse hf
        exact ⟨found, extra, hperm, hfound, (and_iff_right hlegible).symm⟩
      | false =>
        refine ⟨found, f :: extra, ?_, hfound, ?_⟩
        · exact (hperm.cons f).trans List.perm_middle.symm
        · refine iff_of_false (List.cons_ne_nil _ _) ?_
          rintro ⟨hlegible, -⟩
          rw [(hshows hlegible).name, hdots] at hf
          cases hf
    | false =>
      have hlegible := h e List.mem_cons_self hdots
      have hshow := hshows hlegible
      rw [List.filter_cons_of_pos (by simp [hdots]), hshow.name, hdots]
      exact ⟨f :: found, extra, hperm.cons f, .cons ⟨hparse, hshow⟩ hfound,
        (and_iff_right hlegible).symm⟩

/-- The line with the total is read as a file. -/
theorem parseEntries_total (n : ℕ) :
    parseEntries ["total ".toList ++ decimal n] = [.short (decimal n) none .file] := by
  have htotal : Word "total".toList := word_of_all (by decide) rfl
  have hline : "total ".toList ++ decimal n = "total".toList ++ ' ' :: decimal n := rfl
  have htrim : trim ("total".toList ++ ' ' :: decimal n) = "total".toList ++ ' ' :: decimal n := by
    have htrimmed := trimmed_append [' '] htotal.trimmed (word_decimal n).trimmed
    simpa using htrimmed.trim
  have hwords : splitWhitespace ("total".toList ++ ' ' :: decimal n) =
      ["total".toList, decimal n] := by
    rw [splitWhitespace_blank rfl, splitWhitespace_word htotal,
      splitWhitespace_word (word_decimal n)]
    rfl
  have hdots : isDots (decimal n) = false := by
    have hdot : '.' ∉ decimal n := notMem_decimal rfl n
    rw [← Bool.not_eq_true]
    intro h
    have hname : decimal n = ['.'] ∨ decimal n = ['.', '.'] := by simpa [isDots] using h
    obtain hname | hname := hname <;>
    · rw [hname] at hdot
      exact hdot List.mem_cons_self
  have hparts : (splitn isWhitespace 9 ("total".toList ++ ' ' :: decimal n)).length < 9 := by
    have hsolid {w : Text} (hw : Word w) : w.countP isWhitespace = 0 :=
      List.countP_eq_zero.mpr fun c hc => by simp [hw.solid c hc]
    rw [length_splitn, List.countP_append, List.countP_cons_of_pos (by rfl), hsolid htotal,
      hsolid (word_decimal n)]
    decide
  have hparse : parseFtpListLine ("total".toList ++ ' ' :: decimal n) =
      some (.short (decimal n) none .file) := by
    rw [parseFtpListLine, htrim]
    simp only [hparts, hwords, if_true]
    rfl
  rw [hline, parseEntries, List.filterMap_cons_some hparse, List.filterMap_nil,
    List.filter_singleton]
  simp [FileEntry.short, hdots]

/-- An entry that is shown by what its line is read as has a legible line. -/
theorem legible_of_forall₂ {directory : List DirEntry} {found : List FileEntry}
    (h : List.Forall₂ (fun e f => parseFtpListLine e.line = some f ∧ e.Shows f) directory found) :
    ∀ e ∈ directory, e.Legible := by
  induction h with
  | nil => simp
  | cons hread _ ih =>
    obtain ⟨f, hparse, hname, -⟩ := parse_entry _
    rw [hread.1] at hparse
    cases hparse
    exact List.forall_mem_cons.mpr ⟨hname hread.2.name, ih⟩

/-- The listing is that of the directory exactly where no total is sent and every line is
legible. -/
theorem recovers_iff (lower : Lowercase) (total : Option ℕ) (directory : List DirEntry) :
    Recovers lower total directory ↔ total = none ∧ ∀ e ∈ directory, e.Legible := by
  have hrender : parseEntries (render total directory) =
      (total.map fun n => FileEntry.short (decimal n) none .file).toList ++
        parseEntries (directory.map DirEntry.line) := by
    rw [render, parseEntries_append]
    cases total with
    | none => rfl
    | some n => exact congrArg (· ++ _) (parseEntries_total n)
  constructor
  · rintro ⟨found', hperm', hfound'⟩
    have hlegible : ∀ e ∈ directory, isDots e.name = false → e.Legible := fun e he hdots =>
      legible_of_forall₂ hfound' e (List.mem_filter.mpr ⟨he, by simp [hdots]⟩)
    obtain ⟨found, extra, hperm, hfound, hextra⟩ := parseEntries_lines directory hlegible
    have hlength := ((listDir_perm lower _).symm.trans hperm').length_eq
    rw [hrender, List.length_append, hperm.length_eq, List.length_append, ← hfound'.length_eq,
      ← hfound.length_eq] at hlength
    refine ⟨?_, hextra.mp (List.length_eq_zero_iff.mp (by omega))⟩
    cases total with
    | none => rfl
    | some n =>
      simp only [Option.map_some, Option.toList_some, List.length_singleton] at hlength
      omega
  · rintro ⟨rfl, hlegible⟩
    obtain ⟨found, extra, hperm, hfound, hextra⟩ :=
      parseEntries_lines directory fun e he _ => hlegible e he
    rw [hextra.mpr hlegible, List.append_nil] at hperm
    refine ⟨found, (listDir_perm lower _).trans ?_, hfound⟩
    rw [hrender]
    exact hperm

def twoBlanks : DirEntry where
  kind := .file
  mark := '-'
  permissions := "rw-r--r--".toList
  links := ['1']
  owner := "user".toList
  group := "group".toList
  size := 100
  month := "Dec".toList
  day := "25".toList
  timeOrYear := "23:59".toList
  name := "a  b.txt".toList
  padding := fun _ => 0
  marked := ⟨by decide, by decide⟩
  mode_word := word_of_all (by decide) rfl
  links_word := word_of_all (by decide) rfl
  owner_word := word_of_all (by decide) rfl
  group_word := word_of_all (by decide) rfl
  month_word := word_of_all (by decide) rfl
  day_word := word_of_all (by decide) rfl
  timeOrYear_word := word_of_all (by decide) rfl
  name_nonempty := by decide
  shown_line := by decide
  name_whole := by simp

/-- The listing has one blank in the name, so it has the name of another file. -/
theorem twoBlanks_misread :
    listDir asciiLowercase (render none [twoBlanks]) =
        [⟨"a b.txt".toList, 100, some "Dec 25 23:59".toList, none, some "-rw-r--r--".toList, none,
          none, .file⟩] ∧
      ¬Recovers asciiLowercase none [twoBlanks] := by
  have hparse : parseEntries (render none [twoBlanks]) =
      [⟨"a b.txt".toList, 100, some "Dec 25 23:59".toList, none, some "-rw-r--r--".toList, none,
        none, .file⟩] := by
    decide
  refine ⟨by rw [listDir, hparse, List.mergeSort_singleton], ?_⟩
  rintro ⟨found, hperm, hfound⟩
  rw [listDir, hparse, List.mergeSort_singleton, List.singleton_perm] at hperm
  rw [← hperm] at hfound
  obtain ⟨-, hshows⟩ := (List.forall₂_cons.mp hfound).1
  exact absurd hshows.name (by decide)

end SshCommander.FtpListing
