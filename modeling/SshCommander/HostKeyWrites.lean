import SshCommander.HostKeyRestarts

/-!
# What a failed write leaves of the trusted keys

`tokio::fs::write` empties the file and then writes it, so a write that fails may leave any
beginning of the new text. Memory always keeps its map, and the file exactly where what is left
still reads as the old one.
-/

namespace SshCommander.HostKeyWrites
open RustText KnownHosts HostKeyRestarts

/-- A beginning of pieces put together ends inside one of them, or after the last. -/
theorem prefix_flatMap {α : Type} {f : α → Text} {xs : List α} {q : Text}
    (h : q <+: xs.flatMap f) :
    (∃ as x bs p, xs = as ++ x :: bs ∧ q = as.flatMap f ++ p ∧ p <+: f x ∧ p ≠ f x) ∨
      ∃ as bs, xs = as ++ bs ∧ q = as.flatMap f := by
  induction xs generalizing q with
  | nil =>
    obtain rfl : q = [] := by simpa using h
    exact Or.inr ⟨[], [], rfl, rfl⟩
  | cons x xs ih =>
    rw [List.flatMap_cons] at h
    rcases prefix_append h with hp | ⟨t, rfl, ht⟩
    · by_cases hfull : q = f x
      · exact Or.inr ⟨[x], xs, rfl, by simp [hfull]⟩
      · exact Or.inl ⟨[], x, xs, q, rfl, rfl, hp, hfull⟩
    · rcases ih ht with ⟨as, y, bs, p, rfl, rfl, hp, hne⟩ | ⟨as, bs, rfl, rfl⟩
      · exact Or.inl ⟨x :: as, y, bs, p, rfl, by simp, hp, hne⟩
      · exact Or.inr ⟨x :: as, bs, rfl, by simp⟩

/-- An entry broken off stops in its id, after it, or in its blob. -/
theorem prefix_entryLine {entry : Text × Text} {p : Text} (h : p <+: entryLine entry ++ ['\n'])
    (hne : p ≠ entryLine entry ++ ['\n']) :
    p <+: entry.1 ∨ p = entry.1 ++ [' '] ∨
      ∃ u, u ≠ [] ∧ u <+: entry.2 ∧ p = entryLine (entry.1, u) := by
  have hline : p <+: entryLine entry := by
    rcases List.prefix_concat_iff.mp h with heq | hp
    · exact absurd heq hne
    · exact hp
  rw [entryLine] at hline
  rcases prefix_append hline with hp | ⟨t, rfl, ht⟩
  · exact Or.inl hp
  · cases t with
    | nil => exact Or.inl (by simp)
    | cons c t =>
      obtain ⟨hc, htail⟩ := List.cons_prefix_cons.mp ht
      rw [hc]
      by_cases hu : t = []
      · exact Or.inr (Or.inl (by rw [hu]))
      · exact Or.inr (Or.inr ⟨t, hu, htail, rfl⟩)

/-- What may follow the text of a map, less its last newline, and add nothing to it: blanks, or a
line broken off before its second word. -/
inductive Trailing : Text → Prop where
  | blanks {b : Text} (blank : ∀ c ∈ b, isWhitespace c = true) (line : '\n' ∉ b) : Trailing b
  | word {w b : Text} (solid : ∀ c ∈ w, isWhitespace c = false)
      (blank : ∀ c ∈ b, isWhitespace c = true) (line : '\n' ∉ b) : Trailing ('\n' :: (w ++ b))

/-- The text is the one written for the map, up to what adds nothing to it. -/
def StillReads (d : Entries) (q : Text) : Prop :=
  ((∀ id, d.lookup id = none) ∧ q <+: header) ∨ ∃ t, Trailing t ∧ q = (render d).dropLast ++ t

theorem newline_notMem_solid {w : Text} (h : ∀ c ∈ w, isWhitespace c = false) : '\n' ∉ w := by
  intro hm
  exact absurd (h _ hm) (by decide)

theorem render_last (d : Entries) : render d = (render d).dropLast ++ ['\n'] := by
  have hlast : (render d).getLast? = some '\n' := by
    rw [render_eq, listingText]
    cases h : listing d using List.reverseRecOn with
    | nil => decide
    | append_singleton L entry => simp [List.getLast?_append]
  exact (List.dropLast_append_getLast? _ hlast).symm

theorem dropLast_listingText (L : List (Text × Text)) (entry : Text × Text) :
    (listingText (L ++ [entry])).dropLast = listingText L ++ entryLine entry := by
  rw [listingText, List.flatMap_append, ← List.append_assoc, ← listingText]
  simp [List.flatMap_cons, ← List.append_assoc]

/-- A text of one line, the line a comment. -/
theorem load_comment (path : StorePath) {q : Text} (hline : '\n' ∉ q) (hhead : q.head? = some '#') :
    loadFromDisk path (.text q) = .ok ∅ := by
  cases q with
  | nil => cases hhead
  | cons c cs =>
    obtain rfl : c = '#' := by simpa using hhead
    rw [loadFromDisk, lines_last hline (by simp), List.foldl_cons, List.foldl_nil,
      loadLine_comment]

theorem load_header_prefix (path : StorePath) {q : Text} (h : q <+: header) :
    loadFromDisk path (.text q) = .ok ∅ := by
  rw [header_eq] at h
  rcases List.prefix_concat_iff.mp h with rfl | hq
  · have hnone : ∀ entry ∈ ([] : List (Text × Text)), StorableEntry entry := by simp
    have hload := load_listingText path hnone []
    simpa [listingText, header_eq, lines, ofListing] using hload
  · cases hne : q with
    | nil => rfl
    | cons c cs =>
      rw [← hne]
      apply load_comment path
      · intro hm
        exact headerLine_line.one (hq.mem hm)
      · obtain ⟨s, hs⟩ := hq
        rw [hne] at hs ⊢
        exact (congrArg List.head? hs).trans (by decide)

/-- Blanks after the last line stay with it. -/
theorem load_blanks (path : StorePath) {d : Entries} (hd : Storable d) {b : Text}
    (hblank : ∀ c ∈ b, isWhitespace c = true) (hline : '\n' ∉ b) :
    ∃ d', loadFromDisk path (.text ((render d).dropLast ++ b)) = .ok d' ∧ Same d' d := by
  have hall := hd.listing
  have hsame := ofListing_listing d
  rw [render_eq]
  cases hL : listing d using List.reverseRecOn with
  | nil =>
    refine ⟨∅, ?_, by simpa [hL, ofListing] using hsame⟩
    have htext : (listingText []).dropLast = headerLine := rfl
    rw [htext]
    apply load_comment path
    · rw [List.mem_append]
      exact fun h => h.elim headerLine_line.one hline
    · rw [List.head?_append]
      rfl
  | append_singleton L entry =>
    rw [hL] at hall hsame
    have hentry : StorableEntry entry := hall entry (by simp)
    have htrimmed : Trimmed (entryLine entry) := by
      simpa [entryLine] using trimmed_append [' '] hentry.id.word.trimmed hentry.blob.trimmed
    have hlast : lines (entryLine entry ++ b) = [entryLine entry ++ b] := by
      apply lines_last
      · rw [List.mem_append]
        exact fun h => h.elim hentry.line.one hline
      · simp [entryLine]
    have hload : loadLine (ofListing L) (entryLine entry ++ b) =
        loadLine (ofListing L) (entryLine entry) := by
      rw [loadLine, loadLine, trim_append_blank htrimmed hblank, htrimmed.trim]
    rw [dropLast_listingText, List.append_assoc,
      load_listingText path (fun e he => hall e (by simp [he])), hlast, List.foldl_cons,
      List.foldl_nil, hload, loadLine_entry hentry, ← ofListing_concat]
    exact ⟨_, rfl, hsame⟩

/-- A word on a line of its own is no entry. -/
theorem load_word (path : StorePath) {d : Entries} (hd : Storable d) {w b : Text}
    (hw : ∀ c ∈ w, isWhitespace c = false) (hblank : ∀ c ∈ b, isWhitespace c = true)
    (hline : '\n' ∉ b) :
    ∃ d', loadFromDisk path (.text (render d ++ (w ++ b))) = .ok d' ∧ Same d' d := by
  rw [render_eq, load_listingText path hd.listing]
  refine ⟨_, rfl, ?_⟩
  have hnone : (lines (w ++ b)).foldl loadLine (ofListing (listing d)) = ofListing (listing d) := by
    by_cases hne : w ++ b = []
    · rw [hne]
      rfl
    · have hnl : '\n' ∉ w ++ b := by
        rw [List.mem_append]
        exact fun h => h.elim (newline_notMem_solid hw) hline
      rw [lines_last hnl hne, List.foldl_cons, List.foldl_nil, loadLine_word _ hw hblank]
  rw [hnone]
  exact ofListing_listing d

/-- What still reads as the map is read as the map. -/
theorem load_stillReads (path : StorePath) {d : Entries} (hd : Storable d) {q : Text}
    (h : StillReads d q) : ∃ d', loadFromDisk path (.text q) = .ok d' ∧ Same d' d := by
  rcases h with ⟨hempty, hq⟩ | ⟨t, ht, rfl⟩
  · exact ⟨∅, load_header_prefix path hq, fun id => by simp [hempty id]⟩
  · cases ht with
    | blanks blank line => exact load_blanks path hd blank line
    | @word w b solid blank line =>
      have hread := load_word path hd solid blank line
      rw [render_last d, List.append_assoc] at hread
      exact hread

section Beginnings
variable {snapshot d d' : Entries} {q : Text}

theorem StillReads.congr (h : StillReads d q) (hsame : Same d d') : StillReads d' q := by
  rcases h with ⟨hempty, hq⟩ | ⟨t, ht, hq⟩
  · exact Or.inl ⟨fun id => (hsame id).symm.trans (hempty id), hq⟩
  · exact Or.inr ⟨t, ht, by rw [← render_congr hsame]; exact hq⟩

theorem storable_ofListing {entries : List (Text × Text)} (hlisted : Listed entries)
    (h : ∀ entry ∈ entries, StorableEntry entry) : Storable (ofListing entries) := by
  intro id blob hl
  exact h (id, blob) ((lookup_ofListing hlisted.1).mp hl)

theorem render_ofListing {entries : List (Text × Text)} (h : Listed entries) :
    render (ofListing entries) = listingText entries := by
  rw [render_eq, listing_ofListing h]

/-- What was written up to a word and blanks reads as the entries before. -/
theorem reads_word (path : StorePath) {entries : List (Text × Text)} (hlisted : Listed entries)
    (hall : ∀ entry ∈ entries, StorableEntry entry) {w b : Text}
    (hw : ∀ c ∈ w, isWhitespace c = false) (hblank : ∀ c ∈ b, isWhitespace c = true)
    (hline : '\n' ∉ b) :
    ∃ d, loadFromDisk path (.text (listingText entries ++ (w ++ b))) = .ok d ∧
      StillReads d (listingText entries ++ (w ++ b)) := by
  have hs := storable_ofListing hlisted hall
  obtain ⟨d, hload, hsame⟩ := load_word path hs hw hblank hline
  rw [render_ofListing hlisted] at hload
  refine ⟨d, hload, StillReads.congr (Or.inr ⟨_, .word hw hblank hline, ?_⟩) hsame.symm⟩
  rw [← render_ofListing hlisted]
  nth_rewrite 1 [render_last]
  rw [List.append_assoc]
  rfl

/-- The beginning of a blob reads as a shorter blob. -/
theorem reads_blob (path : StorePath) {entries : List (Text × Text)} {id blob u : Text}
    (hlisted : Listed (entries ++ [(id, blob)]))
    (hall : ∀ entry ∈ entries ++ [(id, blob)], StorableEntry entry) (hu : u ≠ [])
    (hpre : u <+: blob) :
    ∃ d, loadFromDisk path (.text (listingText entries ++ entryLine (id, u))) = .ok d ∧
      StillReads d (listingText entries ++ entryLine (id, u)) := by
  have hentry : StorableEntry (id, blob) := hall _ (by simp)
  have hsolid : u.dropWhile isWhitespace = u := by
    apply dropWhile_of_head
    intro c hc
    apply hentry.blob.trimmed.head
    obtain ⟨s, rfl⟩ := hpre
    rw [List.head?_append, Option.mem_def.mp hc]
    rfl
  have htrim : trim u = u.rdropWhile isWhitespace := by rw [trim, hsolid]
  have hcut : trim u ++ u.rtakeWhile isWhitespace = u := by
    rw [htrim, List.rdropWhile_append_rtakeWhile]
  have hne : trim u ≠ [] := by
    rw [Ne, trim_eq_nil]
    intro hblank
    cases u with
    | nil => exact hu rfl
    | cons c cs =>
      have hc := head_of_dropWhile hsolid c (by simp)
      rw [hblank c (by simp)] at hc
      cases hc
  have hshort : StorableEntry (id, trim u) := by
    refine ⟨hentry.id, trimmed_trim hne, ?_⟩
    intro hm
    exact hentry.blob.line (hpre.mem (mem_of_mem_trim hm))
  have hlisted' : Listed (entries ++ [(id, trim u)]) := by
    rw [Listed, List.map_append] at hlisted ⊢
    exact hlisted
  have hs := storable_ofListing hlisted' (by
    intro entry hentry'
    rcases List.mem_append.mp hentry' with hm | hm
    · exact hall entry (List.mem_append_left _ hm)
    · rw [List.mem_singleton.mp hm]
      exact hshort)
  have hblank : ∀ c ∈ u.rtakeWhile isWhitespace, isWhitespace c = true :=
    fun c hc => List.mem_rtakeWhile_imp hc
  have hline : '\n' ∉ u.rtakeWhile isWhitespace := by
    intro hm
    apply hentry.blob.line
    apply hpre.mem
    rw [← hcut]
    exact List.mem_append_right _ hm
  have htext : (render (ofListing (entries ++ [(id, trim u)]))).dropLast ++
      u.rtakeWhile isWhitespace = listingText entries ++ entryLine (id, u) := by
    rw [render_ofListing hlisted', dropLast_listingText, List.append_assoc, entryLine, entryLine,
      List.append_assoc, List.cons_append]
    simp only [hcut]
  obtain ⟨d, hload, hsame⟩ := load_blanks path hs hblank hline
  rw [htext] at hload
  exact ⟨d, hload, StillReads.congr (Or.inr ⟨_, .blanks hblank hline, htext.symm⟩) hsame.symm⟩

/-- What a broken-off write left is the text of what it reads as. -/
theorem stillReads_prefix (path : StorePath) (hs : Storable snapshot) (hq : q <+: render snapshot) :
    ∃ d, loadFromDisk path (.text q) = .ok d ∧ StillReads d q := by
  rw [render_eq, listingText] at hq
  rcases prefix_append hq with hq | ⟨t, rfl, ht⟩
  · exact ⟨∅, load_header_prefix path hq, Or.inl ⟨fun id => by simp, hq⟩⟩
  · have hlisted := listed_listing snapshot
    have hall := hs.listing
    rcases prefix_flatMap ht with ⟨as, x, bs, p, hcut, rfl, hp, hne⟩ | ⟨as, bs, hcut, rfl⟩
    · rw [hcut] at hlisted hall
      have hbefore : Listed as := hlisted.append_left
      have hstored : ∀ entry ∈ as, StorableEntry entry := fun e he => hall e (by simp [he])
      have hx : StorableEntry x := hall x (by simp)
      rw [← List.append_assoc, ← listingText]
      rcases prefix_entryLine hp hne with hid | rfl | ⟨u, hu, hpre, rfl⟩
      · have hw : ∀ c ∈ p, isWhitespace c = false := fun c hc => hx.id.word.solid c (hid.mem hc)
        have hread := reads_word path hbefore hstored hw (b := []) (by simp) (by simp)
        rwa [List.append_nil] at hread
      · exact reads_word path hbefore hstored hx.id.word.solid (by simp; decide) (by decide)
      · have happ : as ++ x :: bs = (as ++ [x]) ++ bs := by simp
        rw [happ] at hlisted hall
        exact reads_blob path hlisted.append_left (fun e he => hall e (List.mem_append_left _ he))
          hu hpre
    · rw [hcut] at hlisted hall
      have hread := reads_word path hlisted.append_left (fun e he => hall e (by simp [he]))
        (w := []) (b := []) (by simp) (by simp) (by simp)
      simpa [listingText] using hread

/-- A broken-off write left what reads as the map exactly where it still is the map's text. -/
theorem reads_same_iff (path : StorePath) (hs : Storable snapshot) (hq : q <+: render snapshot)
    (hd : Storable d) :
    (∃ d', loadFromDisk path (.text q) = .ok d' ∧ Same d' d) ↔ StillReads d q := by
  constructor
  · rintro ⟨d', hload, hsame⟩
    obtain ⟨d'', hload', hreads⟩ := stillReads_prefix path hs hq
    obtain rfl : d' = d'' := Except.ok.inj (hload.symm.trans hload')
    exact hreads.congr hsame
  · intro h
    exact load_stillReads path hd h

end Beginnings

variable {Key : Type} (K : KeyFormat Key)

inductive Change (Key : Type) where
  | trust (host : Text) (port : UInt16) (key : Key)
  | forget (host : Text) (port : UInt16)

namespace Change

def snapshot (e : Entries) : Change Key → Entries
  | trust host port key => e.insert (makeKey host port) (K.publicKeyBase64 key)
  | forget host port => e.erase (makeKey host port)

/-- A call, with the way its write ends; what a `forget` found to remove is left out. -/
def onStore (store : HostKeyStore) (file : File) (outcome : DiskWrite) :
    Change Key → HostKeyStore × File × Except Text Unit
  | trust host port key => store.trust K file host port key outcome
  | forget host port =>
    let (store', file', removed) := store.forget file host port outcome
    (store', file', removed.map fun _ => ())

end Change

/-- What a failed write of a map may leave: the file could not be opened, or its new text stops
between two characters, or inside one, where it is no text any more. -/
inductive Leaves (file : File) (snapshot : Entries) : File → Prop where
  | untouched : Leaves file snapshot file
  | cut {q : Text} (stop : q <+: render snapshot) : Leaves file snapshot (.text q)
  | split {q : Text} {c : Char} (stop : q ++ [c] <+: render snapshot) (wide : 1 < c.utf8Size) :
      Leaves file snapshot .unreadable

/-- The map that a new store on the path would load, if it could. -/
def onDisk (path : StorePath) (file : File) : Option (Text → Option Text) :=
  (loadFromDisk path file).toOption.map fun e id => e.lookup id

/-- Memory and disk hold the maps they held. -/
def Unlost (store : HostKeyStore) (file : File) (store' : HostKeyStore) (file' : File) : Prop :=
  store'.entries file' = store.entries file ∧ onDisk store.path file' = onDisk store.path file

/-- The call failed before its write emptied the file, or left what still reads as the file. -/
def Spared (store : HostKeyStore) (file : File) (outcome : DiskWrite) : Prop :=
  (∃ e, store.entries file = .error e) ∨ outcome = .parentFailed ∨ outcome = .failed file ∨
    ∃ d q, outcome = .failed (.text q) ∧ loadFromDisk store.path file = .ok d ∧ StillReads d q

variable {K} {store : HostKeyStore} {file : File} {outcome : DiskWrite} {change : Change Key}

theorem onDisk_text {path : StorePath} {e : Entries} (h : loadFromDisk path file = .ok e) :
    onDisk path file = some fun id => e.lookup id := by
  rw [onDisk, h]
  rfl

theorem onDisk_eq_iff {path : StorePath} {file' : File} {e e' : Entries}
    (h : loadFromDisk path file = .ok e) (h' : loadFromDisk path file' = .ok e') :
    onDisk path file' = onDisk path file ↔ Same e' e := by
  rw [onDisk_text h, onDisk_text h', Option.some.injEq]
  exact funext_iff

/-- A failed call that had its map: the directory could not be created, or the file not
written. -/
theorem onStore_failed {e : Entries} {err : Text} (he : store.entries file = .ok e)
    (hfail : (change.onStore K store file outcome).2.2 = .error err) :
    (change.onStore K store file outcome).1 = { store with state := some e } ∧
      (outcome = .parentFailed ∧ (change.onStore K store file outcome).2.1 = file ∨
        outcome = .failed (change.onStore K store file outcome).2.1) := by
  cases change with
  | trust host port key =>
    simp only [Change.onStore, HostKeyStore.trust, he, HostKeyStore.commit] at hfail ⊢
    cases outcome with
    | done => simp [HostKeyStore.writeToDisk_done] at hfail
    | parentFailed =>
      cases hp : store.path.parent with
      | none => simp [writeToDisk, hp] at hfail
      | some parent => simp [writeToDisk, hp]
    | failed left => simp [writeToDisk]
  | forget host port =>
    simp only [Change.onStore, HostKeyStore.forget, he, HostKeyStore.commit] at hfail ⊢
    split at hfail
    · rename_i hheld
      rw [if_pos hheld]
      cases outcome with
      | done => simp [HostKeyStore.writeToDisk_done, Except.map] at hfail
      | parentFailed =>
        cases hp : store.path.parent with
        | none => simp [writeToDisk, hp, Except.map] at hfail
        | some parent => simp [writeToDisk, hp]
      | failed left => simp [writeToDisk]
    · simp [Except.map] at hfail

theorem onStore_unloaded (K : KeyFormat Key) (change : Change Key) (outcome : DiskWrite)
    {e : Text} (he : store.entries file = .error e) :
    (change.onStore K store file outcome).1 = store ∧
      (change.onStore K store file outcome).2.1 = file := by
  cases change with
  | trust host port key => simp [Change.onStore, HostKeyStore.trust, he]
  | forget host port => simp [Change.onStore, HostKeyStore.forget, he]

/-- Memory keeps its map in every failed call. -/
theorem entries_failed {err : Text}
    (hfail : (change.onStore K store file outcome).2.2 = .error err) :
    (change.onStore K store file outcome).1.entries (change.onStore K store file outcome).2.1 =
      store.entries file := by
  cases he : store.entries file with
  | error e =>
    obtain ⟨hstore, hfile⟩ := onStore_unloaded K change outcome he
    rw [hstore, hfile, he]
  | ok e =>
    rw [(onStore_failed he hfail).1]
    rfl

theorem storable_entries (hstore : ∀ e, store.state = some e → Storable e) {e : Entries}
    (he : store.entries file = .ok e) : Storable e := by
  rw [HostKeyStore.entries] at he
  cases hs : store.state with
  | none =>
    rw [hs] at he
    exact storable_load he
  | some e' =>
    rw [hs] at he
    exact Except.ok.inj he ▸ hstore e' hs

theorem storable_snapshot (hbase64 : ∀ key, Word (K.publicKeyBase64 key))
    (hhost : ∀ host port key, change = .trust host port key → Resolvable host) {e : Entries}
    (hs : Storable e) : Storable (change.snapshot K e) := by
  cases change with
  | trust host port key =>
    apply hs.insert
    refine ⟨storable_makeKey (hhost host port key rfl) port, (hbase64 key).trimmed, ?_⟩
    exact newline_notMem_solid (hbase64 key).solid
  | forget host port => exact hs.erase _

theorem state_commit (file : File) (outcome : DiskWrite) {e snapshot : Entries} (he : Storable e)
    (hs : Storable snapshot) :
    ∀ e', (store.commit file e snapshot outcome).1.state = some e' → Storable e' := by
  intro e' hstate
  rw [HostKeyStore.commit] at hstate
  split at hstate
  · exact Option.some.inj hstate ▸ he
  · exact Option.some.inj hstate ▸ hs

/-- However its writes end, what a store keeps in memory can be written and read back. -/
theorem storable_onStore (hbase64 : ∀ key, Word (K.publicKeyBase64 key))
    (hhost : ∀ host port key, change = .trust host port key → Resolvable host)
    (hstore : ∀ e, store.state = some e → Storable e) :
    ∀ e, (change.onStore K store file outcome).1.state = some e → Storable e := by
  cases he : store.entries file with
  | error err =>
    rw [(onStore_unloaded K change outcome he).1]
    exact hstore
  | ok e =>
    have hs := storable_entries hstore he
    have hsnapshot := storable_snapshot hbase64 hhost hs
    cases change with
    | trust host port key =>
      simp only [Change.onStore, HostKeyStore.trust, he]
      exact state_commit file outcome hs hsnapshot
    | forget host port =>
      simp only [Change.onStore, HostKeyStore.forget, he]
      split
      · split
        all_goals
          rename_i hcommit
          intro e' hstate
          apply state_commit file outcome hs hsnapshot
          rw [Change.snapshot, hcommit]
          exact hstate
      · intro e' hstate
        exact Option.some.inj hstate ▸ hs

/-- A store after some calls, each with the file it found and the way its write ended. -/
def reached (K : KeyFormat Key) (path : StorePath) (calls : List (Change Key × File × DiskWrite)) :
    HostKeyStore :=
  calls.foldl (fun store call => (call.1.onStore K store call.2.1 call.2.2).1) (new path)

/-- What a store keeps in memory can be written and read back after any calls. -/
theorem storable_reached (hbase64 : ∀ key, Word (K.publicKeyBase64 key)) (path : StorePath)
    (calls : List (Change Key × File × DiskWrite))
    (hhost : ∀ call ∈ calls, ∀ host port key, call.1 = .trust host port key → Resolvable host) :
    ∀ e, (reached K path calls).state = some e → Storable e := by
  induction calls using List.reverseRecOn with
  | nil => exact fun e he => by cases he
  | append_singleton calls call ih =>
    rw [reached, List.foldl_concat, ← reached]
    exact storable_onStore hbase64 (hhost call (by simp))
      (ih fun call' hcall => hhost call' (List.mem_append_left _ hcall))

/-- What a failed write left reads as the file did exactly where the file is spared. -/
theorem onDisk_leaves_iff {snapshot : Entries} {left : File} (path : StorePath)
    (hs : Storable snapshot) (h : Leaves file snapshot left) :
    onDisk path left = onDisk path file ↔
      left = file ∨ ∃ d q, left = .text q ∧ loadFromDisk path file = .ok d ∧ StillReads d q := by
  cases h with
  | untouched => simp
  | @cut q stop =>
    obtain ⟨d', hload, -⟩ := stillReads_prefix path hs stop
    cases hd : loadFromDisk path file with
    | error e =>
      have hnone : onDisk path file = none := by rw [onDisk, hd]; rfl
      rw [onDisk_text hload, hnone]
      simp only [reduceCtorEq, and_false, false_and, exists_false, or_false, false_iff]
      rintro rfl
      rw [hload] at hd
      cases hd
    | ok d =>
      have hsame := reads_same_iff path hs stop (storable_load hd)
      constructor
      · intro hdisk
        exact Or.inr ⟨d, q, rfl, rfl, hsame.mp ⟨d', hload, (onDisk_eq_iff hd hload).mp hdisk⟩⟩
      · rintro (rfl | ⟨d₂, q₂, hq, hd₂, hreads⟩)
        · rfl
        · obtain rfl : q = q₂ := File.text.inj hq
          obtain rfl : d = d₂ := Except.ok.inj hd₂
          obtain ⟨d₃, hload₃, hsame₃⟩ := hsame.mpr hreads
          exact (onDisk_eq_iff hd hload₃).mpr hsame₃
  | split stop wide =>
    cases file with
    | unreadable => simp
    | missing => simp [onDisk, loadFromDisk, Except.toOption]
    | text content => simp [onDisk, loadFromDisk, Except.toOption]

/-- A failed `trust` or `forget` loses no key exactly where the file is spared. -/
theorem unlost_iff_spared (K : KeyFormat Key) (hbase64 : ∀ key, Word (K.publicKeyBase64 key))
    (store : HostKeyStore) (file : File) (hstore : ∀ e, store.state = some e → Storable e)
    (change : Change Key)
    (hhost : ∀ host port key, change = .trust host port key → Resolvable host)
    (outcome : DiskWrite)
    (hleaves : ∀ e left, store.entries file = .ok e → outcome = .failed left →
      Leaves file (change.snapshot K e) left)
    (err : Text) (hfail : (change.onStore K store file outcome).2.2 = .error err) :
    Unlost store file (change.onStore K store file outcome).1
        (change.onStore K store file outcome).2.1 ↔
      Spared store file outcome := by
  rw [Unlost, and_iff_right (entries_failed hfail)]
  cases he : store.entries file with
  | error e =>
    rw [(onStore_unloaded K change outcome he).2]
    simp [Spared, he]
  | ok e =>
    rcases (onStore_failed he hfail).2 with ⟨hparent, hfile⟩ | hfailed
    · rw [hfile]
      simp [Spared, hparent]
    · rw [onDisk_leaves_iff store.path
        (storable_snapshot hbase64 hhost (storable_entries hstore he)) (hleaves e _ he hfailed)]
      generalize (change.onStore K store file outcome).2.1 = left at hfailed
      subst hfailed
      simp [Spared, he]

def oneKey : File := .text (header ++ "a AAAA\n".toList)

def freshStore : HostKeyStore := new ⟨"known_hosts".toList, none⟩

def stopped : Text := header ++ "a AAAA\nb ".toList

def trustB : Change Bool := .trust ['b'] 22 false

def heldStore : HostKeyStore :=
  reached twoKeys ⟨"known_hosts".toList, none⟩ [(.trust ['a'] 22 true, .missing, .done)]

theorem heldStore_state : ∀ e, heldStore.state = some e → Storable e := by
  refine storable_reached word_twoKeys _ _ ?_
  intro call hcall host port key h
  obtain rfl := List.mem_singleton.mp hcall
  obtain ⟨rfl, -, -⟩ := Change.trust.inj h
  exact ⟨word_of_all (by decide) (by decide), by decide⟩

/-- The text that the write of the new host stands for. -/
theorem render_trustB :
    render (trustB.snapshot twoKeys (ofListing [(['a'], "AAAA".toList)])) =
      listingText [(['a'], "AAAA".toList), (['b'], "BBBB".toList)] := by
  have hlisted : Listed [(['a'], "AAAA".toList), (['b'], "BBBB".toList)] :=
    ⟨by decide, by decide⟩
  show render (ofListing [(['a'], "AAAA".toList), (['b'], "BBBB".toList)]) = _
  exact render_ofListing hlisted

theorem leaves_trustB {store : HostKeyStore} {q : Text}
    (hstore : store.entries oneKey = .ok (ofListing [(['a'], "AAAA".toList)]))
    (h : q <+: listingText [(['a'], "AAAA".toList), (['b'], "BBBB".toList)]) {e : Entries}
    {left : File} (he : store.entries oneKey = .ok e)
    (hleft : DiskWrite.failed (.text q) = .failed left) :
    Leaves oneKey (trustB.snapshot twoKeys e) left := by
  cases hleft
  obtain rfl := Except.ok.inj (hstore.symm.trans he)
  apply Leaves.cut
  rw [render_trustB]
  exact h

theorem unlost_iff_spared_stopped :
    Unlost heldStore oneKey
        (trustB.onStore twoKeys heldStore oneKey (.failed (.text stopped))).1
        (trustB.onStore twoKeys heldStore oneKey (.failed (.text stopped))).2.1 ↔
      Spared heldStore oneKey (.failed (.text stopped)) := by
  apply unlost_iff_spared twoKeys word_twoKeys heldStore oneKey heldStore_state trustB
    _ _ _ ("failed to write known_hosts".toList) rfl
  · intro host port key h
    obtain ⟨rfl, -, -⟩ := Change.trust.inj h
    exact ⟨word_of_all (by decide) (by decide), by decide⟩
  · intro e left he hleft
    exact leaves_trustB rfl (by decide +kernel) he hleft

/-- The write emptied the file and then failed: the key of the other host is gone. -/
theorem emptied_lost :
    (∀ e left, freshStore.entries oneKey = .ok e → DiskWrite.failed (.text []) = .failed left →
        Leaves oneKey (trustB.snapshot twoKeys e) left) ∧
      (trustB.onStore twoKeys freshStore oneKey (.failed (.text []))).2.2 =
        .error "failed to write known_hosts".toList ∧
      ¬Unlost freshStore oneKey
        (trustB.onStore twoKeys freshStore oneKey (.failed (.text []))).1
        (trustB.onStore twoKeys freshStore oneKey (.failed (.text []))).2.1 := by
  refine ⟨?_, rfl, ?_⟩
  · intro e left he hleft
    exact leaves_trustB rfl List.nil_prefix he hleft
  · rintro ⟨-, hdisk⟩
    have ha := congrArg (Option.map fun m => m ['a']) hdisk
    revert ha
    decide +kernel

end SshCommander.HostKeyWrites
