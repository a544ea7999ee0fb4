import SshCommander.RustTextLaws
import SshCommander.KnownHosts

/-!
# The known_hosts file as the text of a map

What `load_from_disk` reads from a whole file that `write_to_disk` wrote, and from the beginning of
one.
-/

namespace SshCommander.KnownHosts
open RustText

/-- A host id that is read back as it was written. -/
structure StorableId (id : Text) : Prop where
  word : Word id
  entry : id.head? ≠ some '#'

structure StorableBlob (blob : Text) : Prop where
  trimmed : Trimmed blob
  line : '\n' ∉ blob

structure StorableEntry (entry : Text × Text) : Prop where
  id : StorableId entry.1
  blob : StorableBlob entry.2

def Storable (e : Entries) : Prop := ∀ id blob, e.lookup id = some blob → StorableEntry (id, blob)

def Same (e e' : Entries) : Prop := ∀ id, e.lookup id = e'.lookup id

theorem Same.symm {e e' : Entries} (h : Same e e') : Same e' e := fun id => (h id).symm

theorem Same.trans {e e' e'' : Entries} (h : Same e e') (h' : Same e' e'') : Same e e'' :=
  fun id => (h id).trans (h' id)

theorem Same.insert {e e' : Entries} (h : Same e e') (id blob : Text) :
    Same (e.insert id blob) (e'.insert id blob) := by
  intro id'
  by_cases hid : id' = id
  · subst hid
    simp
  · rw [AList.lookup_insert_ne hid, AList.lookup_insert_ne hid, h id']

theorem Same.erase {e e' : Entries} (h : Same e e') (id : Text) : Same (e.erase id) (e'.erase id) := by
  intro id'
  by_cases hid : id' = id
  · subst hid
    simp
  · rw [AList.lookup_erase_ne hid, AList.lookup_erase_ne hid, h id']

theorem Same.storable {e e' : Entries} (h : Same e e') (hs : Storable e) : Storable e' :=
  fun id blob hl => hs id blob ((h id).trans hl)

theorem Storable.insert {e : Entries} (h : Storable e) {id blob : Text}
    (he : StorableEntry (id, blob)) : Storable (e.insert id blob) := by
  intro id' blob' hl
  by_cases hid : id' = id
  · subst hid
    rw [AList.lookup_insert] at hl
    exact Option.some.inj hl ▸ he
  · rw [AList.lookup_insert_ne hid] at hl
    exact h id' blob' hl

theorem Storable.erase {e : Entries} (h : Storable e) (id : Text) : Storable (e.erase id) := by
  intro id' blob' hl
  by_cases hid : id' = id
  · subst hid
    simp at hl
  · rw [AList.lookup_erase_ne hid] at hl
    exact h id' blob' hl

theorem storable_empty : Storable ∅ := by
  intro id blob h
  simp at h

def listing (e : Entries) : List (Text × Text) :=
  (e.keys.mergeSort textLe).filterMap fun id => (e.lookup id).map (id, ·)

def entryLine (entry : Text × Text) : Text := entry.1 ++ ' ' :: entry.2

def listingText (entries : List (Text × Text)) : Text :=
  header ++ entries.flatMap fun entry => entryLine entry ++ ['\n']

/-- A list of entries as `load_from_disk` collects it. -/
def ofListing (entries : List (Text × Text)) : Entries :=
  entries.foldl (fun map entry => map.insert entry.1 entry.2) ∅

theorem render_eq (e : Entries) : render e = listingText (listing e) := by
  rw [render, listingText, listing, List.flatMap_def, List.flatMap_def]
  congr 1
  induction e.keys.mergeSort textLe with
  | nil => rfl
  | cons id ids ih =>
    cases h : e.lookup id with
    | none => simpa [h] using ih
    | some blob =>
      rw [List.filterMap_cons, h, Option.map_some, List.map_cons, List.map_cons, List.flatten_cons,
        List.flatten_cons, ih, h]
      simp [entryLine]

theorem mem_listing {e : Entries} {id blob : Text} :
    (id, blob) ∈ listing e ↔ e.lookup id = some blob := by
  rw [listing, List.mem_filterMap]
  constructor
  · rintro ⟨id', -, h⟩
    obtain ⟨blob', h', heq⟩ := Option.map_eq_some_iff.mp h
    cases heq
    exact h'
  · intro h
    refine ⟨id, ?_, by simp [h]⟩
    apply List.mem_mergeSort.mpr
    apply AList.mem_keys.mpr
    exact AList.lookup_isSome.mp (by simp [h])

theorem map_fst_listing (e : Entries) : (listing e).map Prod.fst = e.keys.mergeSort textLe := by
  have hall : ∀ id ∈ e.keys.mergeSort textLe, (e.lookup id).isSome = true := by
    intro id hid
    exact AList.lookup_isSome.mpr (AList.mem_keys.mp (List.mem_mergeSort.mp hid))
  rw [listing]
  generalize e.keys.mergeSort textLe = ids at hall
  induction ids with
  | nil => rfl
  | cons id ids ih =>
    obtain ⟨blob, hblob⟩ := Option.isSome_iff_exists.mp (hall id (by simp))
    simp [hblob, ih fun i hi => hall i (by simp [hi])]

def Listed (entries : List (Text × Text)) : Prop :=
  (entries.map Prod.fst).Nodup ∧ (entries.map Prod.fst).Pairwise fun a b => textLe a b = true

theorem listed_listing (e : Entries) : Listed (listing e) := by
  rw [Listed, map_fst_listing]
  constructor
  · exact (List.mergeSort_perm e.keys textLe).nodup_iff.mpr e.keys_nodup
  · exact List.pairwise_mergeSort textLe_trans textLe_total e.keys

theorem Listed.append_left {as bs : List (Text × Text)} (h : Listed (as ++ bs)) : Listed as := by
  rw [Listed, List.map_append] at h
  exact ⟨h.1.of_append_left, (List.pairwise_append.mp h.2).1⟩

theorem listing_congr {e e' : Entries} (h : Same e e') : listing e = listing e' := by
  have hkeys : e.keys.Perm e'.keys := by
    apply (List.perm_ext_iff_of_nodup e.keys_nodup e'.keys_nodup).mpr
    intro id
    rw [← AList.mem_keys, ← AList.mem_keys, ← AList.lookup_isSome, ← AList.lookup_isSome, h id]
  rw [listing, listing, mergeSort_eq_of_perm hkeys]
  apply List.filterMap_congr
  intro id _
  rw [h id]

theorem render_congr {e e' : Entries} (h : Same e e') : render e = render e' := by
  rw [render_eq, render_eq, listing_congr h]

theorem ofListing_concat (entries : List (Text × Text)) (entry : Text × Text) :
    ofListing (entries ++ [entry]) = (ofListing entries).insert entry.1 entry.2 := by
  rw [ofListing, List.foldl_append]
  rfl

theorem lookup_ofListing {entries : List (Text × Text)} (h : (entries.map Prod.fst).Nodup)
    {id blob : Text} : (ofListing entries).lookup id = some blob ↔ (id, blob) ∈ entries := by
  induction entries using List.reverseRecOn with
  | nil => simp [ofListing]
  | append_singleton entries entry ih =>
    rw [List.map_append, List.nodup_append] at h
    rw [ofListing_concat, List.mem_append, List.mem_singleton]
    by_cases hid : id = entry.1
    · subst hid
      rw [AList.lookup_insert]
      constructor
      · intro hb
        exact Or.inr (Prod.ext rfl (Option.some.inj hb).symm)
      · rintro (hm | hm)
        · exact absurd rfl (h.2.2 _ (List.mem_map_of_mem hm) entry.1 (by simp))
        · rw [← hm]
    · rw [AList.lookup_insert_ne hid, ih h.1]
      constructor
      · exact Or.inl
      · rintro (hm | hm)
        · exact hm
        · exact absurd (congrArg Prod.fst hm) hid

theorem ofListing_listing (e : Entries) : Same (ofListing (listing e)) e := by
  intro id
  apply Option.ext
  intro blob
  rw [lookup_ofListing (listed_listing e).1, mem_listing]

/-- A list in the order of a listing is the listing of its map. -/
theorem listing_ofListing {entries : List (Text × Text)} (h : Listed entries) :
    listing (ofListing entries) = entries := by
  have hmem : ∀ entry, entry ∈ listing (ofListing entries) ↔ entry ∈ entries := by
    rintro ⟨id, blob⟩
    rw [mem_listing, lookup_ofListing h.1]
  have hl := listed_listing (ofListing entries)
  have hperm : (listing (ofListing entries)).Perm entries :=
    (List.perm_ext_iff_of_nodup hl.1.of_map h.1.of_map).mpr hmem
  apply List.Perm.eq_of_pairwise _ (List.pairwise_map.mp hl.2) (List.pairwise_map.mp h.2) hperm
  intro a b ha hb hab hba
  have hfst : a.1 = b.1 := textLe_antisymm hab hba
  exact List.inj_on_of_nodup_map hl.1 ha ((hmem b).mpr hb) hfst

theorem StorableEntry.line {entry : Text × Text} (h : StorableEntry entry) :
    Line (entryLine entry) := by
  refine ⟨?_, ?_⟩
  · rw [entryLine, List.mem_append, List.mem_cons]
    rintro (hm | hm | hm)
    · exact absurd (h.id.word.solid _ hm) (by decide)
    · exact absurd hm (by decide)
    · exact h.blob.line hm
  · rw [entryLine, List.getLast?_append_of_ne_nil _ (by simp), List.getLast?_cons,
      List.getLast?_eq_some_getLast h.blob.trimmed.nonempty]
    intro hl
    have hlast : entry.2.getLast h.blob.trimmed.nonempty = '\r' := by simpa using hl
    apply h.blob.trimmed.last
    rw [hlast]
    rfl

theorem loadLine_entry {entry : Text × Text} (h : StorableEntry entry) (map : Entries) :
    loadLine map (entryLine entry) = map.insert entry.1 entry.2 := by
  have htrim : trim (entryLine entry) = entryLine entry := by
    have := (trimmed_append [' '] h.id.word.trimmed h.blob.trimmed).trim
    simpa [entryLine] using this
  have hne : entryLine entry ≠ [] := by simp [entryLine]
  have hhead : (entryLine entry).head? = entry.1.head? := by
    cases hid : entry.1 with
    | nil => exact absurd hid h.id.word.nonempty
    | cons c cs => simp [entryLine, hid]
  rw [loadLine]
  simp only [htrim, hhead]
  rw [if_neg (by simp [hne, h.id.entry]), entryLine, splitAtWhitespace_word h.id.word (by decide)]
  simp only [h.blob.trimmed.trim]

theorem loadLine_comment (map : Entries) (line : Text) : loadLine map ('#' :: line) = map := by
  obtain ⟨rest, hrest, -⟩ := trim_cons (c := '#') (by decide) line
  rw [loadLine]
  simp [hrest]

/-- A line of one word, or of a word and blanks, stores nothing. -/
theorem loadLine_word (map : Entries) {line ws : Text}
    (hline : ∀ c ∈ line, isWhitespace c = false) (hws : ∀ c ∈ ws, isWhitespace c = true) :
    loadLine map (line ++ ws) = map := by
  rw [loadLine]
  by_cases hne : line = []
  · have htrim : trim (line ++ ws) = [] := by
      apply trim_eq_nil.mpr
      rw [hne]
      exact hws
    simp [htrim]
  · have htrim := trim_append_blank (Word.trimmed ⟨hne, hline⟩) hws
    simp only [htrim, splitAtWhitespace_solid hline, ite_self]

theorem foldl_loadLine {entries : List (Text × Text)} (h : ∀ entry ∈ entries, StorableEntry entry)
    (map : Entries) :
    (entries.map entryLine).foldl loadLine map =
      entries.foldl (fun map entry => map.insert entry.1 entry.2) map := by
  induction entries generalizing map with
  | nil => rfl
  | cons entry entries ih =>
    rw [List.map_cons, List.foldl_cons, List.foldl_cons, loadLine_entry (h entry (by simp)),
      ih fun e he => h e (by simp [he])]

def headerLine : Text := header.dropLast

theorem header_eq : header = headerLine ++ ['\n'] := by decide

theorem headerLine_line : Line headerLine := by
  constructor <;> decide

theorem lines_listingText {entries : List (Text × Text)}
    (h : ∀ entry ∈ entries, StorableEntry entry) (rest : Text) :
    lines (listingText entries ++ rest) = headerLine :: (entries.map entryLine ++ lines rest) := by
  rw [listingText, header_eq, List.append_assoc, List.append_assoc, List.singleton_append,
    lines_line headerLine_line, lines_flatMap entryLine entries fun e he => (h e he).line]

theorem loadLine_headerLine (map : Entries) : loadLine map headerLine = map :=
  loadLine_comment map _

/-- The entries written before `rest`, and what `rest` adds. -/
theorem load_listingText (path : StorePath) {entries : List (Text × Text)}
    (h : ∀ entry ∈ entries, StorableEntry entry) (rest : Text) :
    loadFromDisk path (.text (listingText entries ++ rest)) =
      .ok ((lines rest).foldl loadLine (ofListing entries)) := by
  rw [loadFromDisk, lines_listingText h, List.foldl_cons, loadLine_headerLine, List.foldl_append,
    foldl_loadLine h]
  rfl

theorem Storable.listing {e : Entries} (h : Storable e) : ∀ entry ∈ listing e, StorableEntry entry := by
  rintro ⟨id, blob⟩ hm
  exact h id blob (mem_listing.mp hm)

/-- What is written is what is read. -/
theorem load_render (path : StorePath) {e : Entries} (h : Storable e) :
    ∃ d, loadFromDisk path (.text (render e)) = .ok d ∧ Same d e := by
  have hload := load_listingText path h.listing []
  rw [List.append_nil, ← render_eq] at hload
  exact ⟨_, hload, ofListing_listing e⟩

theorem storable_loadLine {map : Entries} (h : Storable map) {line : Text} (hline : '\n' ∉ line) :
    Storable (loadLine map line) := by
  rw [loadLine]
  split
  · exact h
  · rename_i hentry
    have hne : trim line ≠ [] := fun e => hentry (by simp [e])
    have htrimmed := trimmed_trim hne
    cases hsplit : splitAtWhitespace (trim line) with
    | mk id rest =>
      cases rest with
      | none => exact h
      | some rest =>
        obtain ⟨c, hc, hcut, hid⟩ := splitAtWhitespace_some hsplit
        have hidne : id ≠ [] := by
          rintro rfl
          have := htrimmed.head c (by simp [hcut])
          rw [hc] at this
          cases this
        have hblob : trim rest ≠ [] := by
          intro hnil
          have hblank := trim_eq_nil.mp hnil
          have hlast : (trim line).getLast hne ∈ c :: rest := by
            simp only [hcut]
            rw [List.getLast_append_of_ne_nil _ (by simp)]
            exact List.getLast_mem _
          apply htrimmed.last
          rcases List.mem_cons.mp hlast with hl | hl
          · rw [hl, hc]
          · exact hblank _ hl
        apply h.insert
        refine ⟨⟨⟨hidne, hid⟩, ?_⟩, trimmed_trim hblob, ?_⟩
        · intro hhead
          apply hentry
          right
          cases id with
          | nil => exact absurd rfl hidne
          | cons d ds => simpa [hcut] using hhead
        · intro hm
          apply hline
          apply mem_of_mem_trim
          rw [hcut]
          simp [mem_of_mem_trim hm]

theorem storable_load {path : StorePath} {file : File} {e : Entries}
    (h : loadFromDisk path file = .ok e) : Storable e := by
  cases file with
  | missing =>
    obtain rfl : ∅ = e := Except.ok.inj h
    exact storable_empty
  | unreadable => cases h
  | text content =>
    obtain rfl : (lines content).foldl loadLine ∅ = e := Except.ok.inj h
    apply List.foldlRecOn (motive := Storable)
    · exact storable_empty
    · intro map hmap line hline
      exact storable_loadLine hmap (newline_notMem_lines hline)

end SshCommander.KnownHosts
