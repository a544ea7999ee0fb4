import SshCommander.Keychains
import SshCommander.SequentialHistories

/-!
# The credential store

However the calls interleave with each other and with other programs, each of them reads or writes
the store of credentials at one moment. Only the attributes of an entry depend on what happens
between the probe of a save and its write.
-/

namespace SshCommander.StoredCredentials
open InterleavedTasks InterleavedTasks.TaskSystem RustText Keychains SequentialHistories

abbrev Items := CredentialKind → Text → Option Item

def items (k : Keychain) : Items := fun kind account => k.lookup (kind.service, account)

namespace Items

def set (v : Items) (kind : CredentialKind) (account : Text) (item : Option Item) : Items :=
  fun kind' account' => if kind' = kind ∧ account' = account then item else v kind' account'

/-- What another program makes of an entry, which may be one of ours. -/
def edit (v : Items) (service account : Text) (item : Option Item) : Items :=
  fun kind account' =>
    if kind.service = service ∧ account' = account then item else v kind account'

end Items

/-- Which attributes a save may leave at its entry. -/
abbrev Labelling := Items → CredentialKind → Text → Attributes → Prop

/-- A store of credentials. A call that fails changes nothing. -/
inductive Store (labelling : Labelling) (v : Items) : Keychains.Call × Answer → Items → Prop where
  | saved {kind account secret attributes} (h : labelling v kind account attributes) :
      Store labelling v (.save kind account secret, .saved (.ok ()))
        (v.set kind account (some ⟨utf8 secret, attributes⟩))
  | saveFailed {kind account secret message} :
      Store labelling v (.save kind account secret, .saved (.error message)) v
  | absent {kind account} (h : v kind account = none) :
      Store labelling v (.load kind account, .loaded (.ok none)) v
  | found {kind account item secret} (h : v kind account = some item)
      (hsecret : item.data = utf8 secret) :
      Store labelling v (.load kind account, .loaded (.ok (some secret))) v
  | loadFailed {kind account message} :
      Store labelling v (.load kind account, .loaded (.error message)) v
  | deleted {kind account} : Store labelling v (.delete kind account, .deleted (.ok ()))
      (v.set kind account none)
  | deleteFailed {kind account message} :
      Store labelling v (.delete kind account, .deleted (.error message)) v
  | listed {kind accounts} (h : accounts.Pairwise fun a b => textLe a b = true ∧ a ≠ b)
      (hmem : ∀ account, account ∈ accounts ↔ (v kind account).isSome = true) :
      Store labelling v (.list kind, .listed (.ok accounts)) v
  | listFailed {kind message} : Store labelling v (.list kind, .listed (.error message)) v
  | edited {service account item} : Store labelling v (.edit service account item, .edited)
      (v.edit service account item)

def anyLabel : Labelling := fun _ _ _ _ => True

/-- The attributes that the entry has, and the program's own at a new one. -/
def sameLabel : Labelling := fun v kind account attributes =>
  attributes = ((v kind account).map (·.attributes)).getD (ownAttributes kind account)

inductive Transition (k : Keychain) : Task → Keychain → Task → Prop where
  | foundEntry {kind account secret} (h : (items k kind account).isSome = true) :
      Transition k (.started (.save kind account secret)) k (.updating kind account secret)
  | foundNone {kind account secret} (h : items k kind account = none) :
      Transition k (.started (.save kind account secret)) k (.creating kind account secret)
  | probeFailed {kind account secret message} : Transition k (.started (.save kind account secret))
      k (.returned (.save kind account secret) (.saved (.error message)))
  | updated {kind account secret attributes}
      (h : ∀ item, items k kind account = some item → attributes = item.attributes) :
      Transition k (.updating kind account secret)
        (k.insert (kind.service, account) ⟨utf8 secret, attributes⟩)
        (.returned (.save kind account secret) (.saved (.ok ())))
  | updateFailed {kind account secret message} : Transition k (.updating kind account secret)
      k (.returned (.save kind account secret) (.saved (.error message)))
  | created {kind account secret attributes}
      (h : items k kind account = none → attributes = ownAttributes kind account) :
      Transition k (.creating kind account secret)
        (k.insert (kind.service, account) ⟨utf8 secret, attributes⟩)
        (.returned (.save kind account secret) (.saved (.ok ())))
  | createFailed {kind account secret message} : Transition k (.creating kind account secret)
      k (.returned (.save kind account secret) (.saved (.error message)))
  | loadedNone {kind account} (h : items k kind account = none) :
      Transition k (.started (.load kind account)) k
        (.returned (.load kind account) (.loaded (.ok none)))
  | loaded {kind account item secret} (h : items k kind account = some item)
      (hsecret : item.data = utf8 secret) : Transition k (.started (.load kind account)) k
        (.returned (.load kind account) (.loaded (.ok (some secret))))
  | loadFailed {kind account message} : Transition k (.started (.load kind account)) k
      (.returned (.load kind account) (.loaded (.error message)))
  | deleted {kind account} : Transition k (.started (.delete kind account))
      (k.erase (kind.service, account)) (.returned (.delete kind account) (.deleted (.ok ())))
  | deletedNone {kind account} (h : items k kind account = none) :
      Transition k (.started (.delete kind account)) k
        (.returned (.delete kind account) (.deleted (.ok ())))
  | deleteFailed {kind account message} : Transition k (.started (.delete kind account)) k
      (.returned (.delete kind account) (.deleted (.error message)))
  | listed {kind accounts} (h : accounts.Pairwise fun a b => textLe a b = true ∧ a ≠ b)
      (hmem : ∀ account, account ∈ accounts ↔ (items k kind account).isSome = true) :
      Transition k (.started (.list kind)) k (.returned (.list kind) (.listed (.ok accounts)))
  | listFailed {kind message} : Transition k (.started (.list kind)) k
      (.returned (.list kind) (.listed (.error message)))
  | editedSet {service account item} : Transition k (.started (.edit service account (some item)))
      (k.insert (service, account) item) (.returned (.edit service account (some item)) .edited)
  | editedOut {service account} : Transition k (.started (.edit service account none))
      (k.erase (service, account)) (.returned (.edit service account none) .edited)

variable {k k' : Keychain} {kind : CredentialKind} {account service secret : Text} {item : Item}
  {S : SecurityFramework} {r : S.Reply} {t t' : Task} {labelling : Labelling}

theorem service_injective : Function.Injective CredentialKind.service := by
  intro a b h
  cases a <;> cases b <;> first | rfl | exact absurd h (by decide)

theorem items_insert (k : Keychain) (kind : CredentialKind) (account : Text) (item : Item) :
    items (k.insert (kind.service, account) item) = (items k).set kind account (some item) := by
  funext kind' account'
  unfold items Items.set
  by_cases h : kind' = kind ∧ account' = account
  · obtain ⟨rfl, rfl⟩ := h
    rw [AList.lookup_insert, if_pos ⟨rfl, rfl⟩]
  · have hne : (kind'.service, account') ≠ (kind.service, account) := by
      rintro heq
      obtain ⟨hservice, haccount⟩ := Prod.mk.inj heq
      exact h ⟨service_injective hservice, haccount⟩
    rw [AList.lookup_insert_ne hne, if_neg h]

theorem items_erase (k : Keychain) (kind : CredentialKind) (account : Text) :
    items (k.erase (kind.service, account)) = (items k).set kind account none := by
  funext kind' account'
  unfold items Items.set
  by_cases h : kind' = kind ∧ account' = account
  · obtain ⟨rfl, rfl⟩ := h
    rw [AList.lookup_erase, if_pos ⟨rfl, rfl⟩]
  · have hne : (kind'.service, account') ≠ (kind.service, account) := by
      rintro heq
      obtain ⟨hservice, haccount⟩ := Prod.mk.inj heq
      exact h ⟨service_injective hservice, haccount⟩
    rw [AList.lookup_erase_ne hne, if_neg h]

theorem set_none (h : items k kind account = none) :
    (items k).set kind account none = items k := by
  funext kind' account'
  unfold Items.set
  split
  · rename_i heq
    obtain ⟨rfl, rfl⟩ := heq
    exact h.symm
  · rfl

theorem items_edit_insert (k : Keychain) (service account : Text) (item : Item) :
    items (k.insert (service, account) item) = (items k).edit service account (some item) := by
  funext kind account'
  unfold items Items.edit
  by_cases h : kind.service = service ∧ account' = account
  · obtain ⟨rfl, rfl⟩ := h
    rw [AList.lookup_insert, if_pos ⟨rfl, rfl⟩]
  · have hne : (kind.service, account') ≠ (service, account) := fun heq => h (Prod.mk.inj heq)
    rw [AList.lookup_insert_ne hne, if_neg h]

theorem items_edit_erase (k : Keychain) (service account : Text) :
    items (k.erase (service, account)) = (items k).edit service account none := by
  funext kind account'
  unfold items Items.edit
  by_cases h : kind.service = service ∧ account' = account
  · obtain ⟨rfl, rfl⟩ := h
    rw [AList.lookup_erase, if_pos ⟨rfl, rfl⟩]
  · have hne : (kind.service, account') ≠ (service, account) := fun heq => h (Prod.mk.inj heq)
    rw [AList.lookup_erase_ne hne, if_neg h]

theorem fromUtf8_utf8 (s : Text) : fromUtf8 (utf8 s) = some s := by
  have hencode : (utf8 s).toByteArray = s.utf8Encode := rfl
  rw [fromUtf8, hencode, List.utf8Decode?_utf8Encode, Option.map_some, List.toList_toArray]

theorem utf8_of_fromUtf8 {data : List UInt8} (h : fromUtf8 data = some secret) :
    data = utf8 secret := by
  obtain ⟨cs, hcs, rfl⟩ := Option.map_eq_some_iff.mp h
  have hsome : data.toByteArray.utf8Decode?.isSome = true := by rw [hcs]; rfl
  have hback : (data.toByteArray.utf8Decode?.get hsome).toList.utf8Encode = data.toByteArray :=
    ByteArray.utf8Encode_get_utf8Decode?
  have hget : data.toByteArray.utf8Decode?.get hsome = cs := Option.get_of_eq_some hsome hcs
  have hbytes : (utf8 cs.toList).toByteArray = data.toByteArray := hget ▸ hback
  exact (List.toByteArray_inj.mp hbytes).symm

theorem utf8_injective : Function.Injective utf8 := by
  intro s s' h
  exact Option.some.inj ((fromUtf8_utf8 s).symm.trans (h ▸ fromUtf8_utf8 s'))

theorem sortedAccounts_eq (accounts : List Text) :
    sortedAccounts accounts = (accounts.mergeSort textLe).dedup := by
  have : Std.Antisymm fun a b : Text => textLe a b = true := ⟨fun _ _ => textLe_antisymm⟩
  exact (List.pairwise_mergeSort textLe_trans textLe_total accounts).destutter_eq_dedup

theorem sortedAccounts_sorted (accounts : List Text) :
    (sortedAccounts accounts).Pairwise fun a b => textLe a b = true ∧ a ≠ b := by
  rw [sortedAccounts_eq]
  have hsorted := List.pairwise_mergeSort textLe_trans textLe_total accounts
  exact (hsorted.sublist (List.dedup_sublist _)).and (List.nodup_dedup _)

theorem mem_sortedAccounts {accounts : List Text} :
    account ∈ sortedAccounts accounts ↔ account ∈ accounts := by
  rw [sortedAccounts_eq, List.mem_dedup, List.mem_mergeSort]

theorem step_save (hS : S.Laws)
    (h : Keychains.step S k (.started (.save kind account secret)) r = some (k', t')) :
    Transition k (.started (.save kind account secret)) k' t' := by
  unfold Keychains.step at h
  cases hget : S.getGenericPassword k r kind.service account with
  | ok data =>
    simp only [hget] at h
    obtain ⟨rfl, rfl⟩ := Prod.mk.inj (Option.some.inj h)
    obtain ⟨item, hitem, -⟩ := hS.get_ok hget
    exact .foundEntry (Option.isSome_iff_exists.mpr ⟨item, hitem⟩)
  | error e =>
    simp only [hget] at h
    split at h
    · rename_i hcode
      obtain ⟨rfl, rfl⟩ := Prod.mk.inj (Option.some.inj h)
      exact .foundNone (hS.get_missing hget hcode)
    · obtain ⟨rfl, rfl⟩ := Prod.mk.inj (Option.some.inj h)
      exact .probeFailed

theorem step_load (hS : S.Laws)
    (h : Keychains.step S k (.started (.load kind account)) r = some (k', t')) :
    Transition k (.started (.load kind account)) k' t' := by
  unfold Keychains.step at h
  cases hget : S.getGenericPassword k r kind.service account with
  | ok data =>
    obtain ⟨item, hitem, rfl⟩ := hS.get_ok hget
    cases htext : fromUtf8 item.data with
    | none =>
      simp only [hget, htext] at h
      obtain ⟨rfl, rfl⟩ := Prod.mk.inj (Option.some.inj h)
      exact .loadFailed
    | some secret =>
      simp only [hget, htext] at h
      obtain ⟨rfl, rfl⟩ := Prod.mk.inj (Option.some.inj h)
      exact .loaded hitem (utf8_of_fromUtf8 htext)
  | error e =>
    by_cases hcode : e.code = errSecItemNotFound
    · simp only [hget, if_pos hcode] at h
      obtain ⟨rfl, rfl⟩ := Prod.mk.inj (Option.some.inj h)
      exact .loadedNone (hS.get_missing hget hcode)
    · simp only [hget, if_neg hcode] at h
      obtain ⟨rfl, rfl⟩ := Prod.mk.inj (Option.some.inj h)
      exact .loadFailed

theorem step_delete (hS : S.Laws)
    (h : Keychains.step S k (.started (.delete kind account)) r = some (k', t')) :
    Transition k (.started (.delete kind account)) k' t' := by
  unfold Keychains.step at h
  cases hdelete : S.deleteGenericPassword k r kind.service account with
  | ok k₁ =>
    simp only [hdelete] at h
    obtain ⟨rfl, rfl⟩ := Prod.mk.inj (Option.some.inj h)
    rw [hS.delete_ok hdelete]
    exact .deleted
  | error e =>
    simp only [hdelete] at h
    split at h
    · rename_i hcode
      obtain ⟨rfl, rfl⟩ := Prod.mk.inj (Option.some.inj h)
      exact .deletedNone (hS.delete_missing hdelete hcode)
    · obtain ⟨rfl, rfl⟩ := Prod.mk.inj (Option.some.inj h)
      exact .deleteFailed

theorem step_list (hS : S.Laws)
    (h : Keychains.step S k (.started (.list kind)) r = some (k', t')) :
    Transition k (.started (.list kind)) k' t' := by
  unfold Keychains.step at h
  cases hsearch : S.search k r kind.service with
  | ok accounts =>
    simp only [hsearch] at h
    obtain ⟨rfl, rfl⟩ := Prod.mk.inj (Option.some.inj h)
    exact .listed (sortedAccounts_sorted _) fun account =>
      mem_sortedAccounts.trans (hS.search_ok hsearch account)
  | error e =>
    by_cases hcode : e.code = errSecItemNotFound
    · simp only [hsearch, if_pos hcode] at h
      obtain ⟨rfl, rfl⟩ := Prod.mk.inj (Option.some.inj h)
      exact .listed .nil fun account => by simp [items, hS.search_missing hsearch hcode account]
    · simp only [hsearch, if_neg hcode] at h
      obtain ⟨rfl, rfl⟩ := Prod.mk.inj (Option.some.inj h)
      exact .listFailed

theorem step_transition (hS : S.Laws) (h : Keychains.step S k t r = some (k', t')) :
    Transition k t k' t' := by
  cases t with
  | started call =>
    cases call with
    | save kind account secret => exact step_save hS h
    | load kind account => exact step_load hS h
    | delete kind account => exact step_delete hS h
    | list kind => exact step_list hS h
    | edit service account item =>
      unfold Keychains.step at h
      obtain ⟨rfl, rfl⟩ := Prod.mk.inj (Option.some.inj h)
      cases item with
      | none => exact .editedOut
      | some item => exact .editedSet
  | updating kind account secret =>
    unfold Keychains.step at h
    cases hset : S.setGenericPassword k r kind.service account (utf8 secret) with
    | ok k₁ =>
      simp only [hset, written] at h
      obtain ⟨rfl, rfl⟩ := Prod.mk.inj (Option.some.inj h)
      obtain ⟨attributes, hattributes, rfl⟩ := hS.set_ok hset
      exact .updated hattributes
    | error e =>
      simp only [hset, written] at h
      obtain ⟨rfl, rfl⟩ := Prod.mk.inj (Option.some.inj h)
      exact .updateFailed
  | creating kind account secret =>
    unfold Keychains.step at h
    cases hset : S.setGenericPasswordOptions k r kind.service account (ownAttributes kind account)
        (utf8 secret) with
    | ok k₁ =>
      simp only [hset, written] at h
      obtain ⟨rfl, rfl⟩ := Prod.mk.inj (Option.some.inj h)
      obtain ⟨attributes, hattributes, rfl⟩ := hS.setOptions_ok hset
      exact .created hattributes
    | error e =>
      simp only [hset, written] at h
      obtain ⟨rfl, rfl⟩ := Prod.mk.inj (Option.some.inj h)
      exact .createFailed
  | returned => cases h

/-- The entry that a save under way has probed, and whether it was there. -/
def probed : Task → Option (CredentialKind × Text × Bool)
  | .updating kind account _ => some (kind, account, true)
  | .creating kind account _ => some (kind, account, false)
  | _ => none

def Probed (c : Config Keychain Task) : Prop :=
  ∀ t ∈ c.tasks, ∀ p ∈ probed t, (items c.shared p.1 p.2.1).isSome = p.2.2

/-- No entry appears or disappears between the probe of a save and its write. -/
def Undisturbed (S : SecurityFramework) (c : Config Keychain Task) (a : Action Task S.Reply) : Prop :=
  ∀ c' ∈ (keychain S).act c a, ∀ t ∈ c'.tasks, ∀ p ∈ probed t,
    (items c'.shared p.1 p.2.1).isSome = (items c.shared p.1 p.2.1).isSome

instance (c : Config Keychain Task) (a : Action Task S.Reply) : Decidable (Undisturbed S c a) :=
  inferInstanceAs (Decidable (∀ c' ∈ (keychain S).act c a, ∀ t ∈ c'.tasks, ∀ p ∈ probed t, _ = _))

/-- A call reads or writes the store in the section in which it returns. -/
theorem Transition.pending (h : Transition k t k' t') (hr : returned t' = none) : k' = k := by
  cases h <;> first | rfl | cases hr

theorem Transition.store {call : Keychains.Call × Answer} (h : Transition k t k' t')
    (hr : returned t' = some call)
    (hupdate : ∀ kind account secret attributes, t = .updating kind account secret →
      (∀ item, items k kind account = some item → attributes = item.attributes) →
        labelling (items k) kind account attributes)
    (hcreate : ∀ kind account secret attributes, t = .creating kind account secret →
      (items k kind account = none → attributes = ownAttributes kind account) →
        labelling (items k) kind account attributes) :
    Store labelling (items k) call (items k') := by
  cases h with
  | foundEntry | foundNone => cases hr
  | probeFailed | updateFailed | createFailed =>
    obtain rfl := Option.some.inj hr
    exact .saveFailed
  | updated h =>
    obtain rfl := Option.some.inj hr
    rw [items_insert]
    exact .saved (hupdate _ _ _ _ rfl h)
  | created h =>
    obtain rfl := Option.some.inj hr
    rw [items_insert]
    exact .saved (hcreate _ _ _ _ rfl h)
  | loadedNone h =>
    obtain rfl := Option.some.inj hr
    exact .absent h
  | loaded h hsecret =>
    obtain rfl := Option.some.inj hr
    exact .found h hsecret
  | loadFailed =>
    obtain rfl := Option.some.inj hr
    exact .loadFailed
  | deleted =>
    obtain rfl := Option.some.inj hr
    rw [items_erase]
    exact .deleted
  | @deletedNone kind account h =>
    obtain rfl := Option.some.inj hr
    have hdeleted : Store labelling (items k) (.delete kind account, .deleted (.ok ())) _ := .deleted
    rwa [set_none h] at hdeleted
  | deleteFailed =>
    obtain rfl := Option.some.inj hr
    exact .deleteFailed
  | listed h hmem =>
    obtain rfl := Option.some.inj hr
    exact .listed h hmem
  | listFailed =>
    obtain rfl := Option.some.inj hr
    exact .listFailed
  | editedSet =>
    obtain rfl := Option.some.inj hr
    rw [items_edit_insert]
    exact .edited
  | editedOut =>
    obtain rfl := Option.some.inj hr
    rw [items_edit_erase]
    exact .edited

theorem returned_of_starts (h : Keychains.starts t = true) : returned t = none := by
  cases t <;> first | rfl | cases h

theorem step_returned {call : Keychains.Call × Answer} (h : returned t = some call) :
    Keychains.step S k t r = none := by
  cases t <;> first | rfl | cases h

theorem returns_any (hS : S.Laws) :
    Returns (keychain S) returned (Store anyLabel) items (fun _ => True)
    (fun _ _ => True) where
  starts _ := returned_of_starts
  ended _ _ _ _ := step_returned
  inv _ _ _ _ _ _ := trivial
  pending _ _ _ _ _ _ _ _ _ hs hr := by rw [(step_transition hS hs).pending hr]
  effect _ _ _ _ _ _ _ _ _ _ hs hr :=
    (step_transition hS hs).store hr (fun _ _ _ _ _ _ => trivial) fun _ _ _ _ _ _ => trivial

theorem Transition.probed {p : CredentialKind × Text × Bool} (h : Transition k t k' t')
    (hp : p ∈ probed t') : k' = k ∧ (items k p.1 p.2.1).isSome = p.2.2 := by
  cases h with
  | foundEntry h =>
    obtain rfl := Option.some.inj hp
    exact ⟨rfl, h⟩
  | foundNone h =>
    obtain rfl := Option.some.inj hp
    exact ⟨rfl, by rw [h]; rfl⟩
  | _ => cases hp

theorem probed_act (hS : S.Laws) {c c' : Config Keychain Task} {a : Action Task S.Reply}
    (hc : Probed c) (ha : Undisturbed S c a) (hact : (keychain S).act c a = some c') : Probed c' := by
  intro t ht p hp
  have hsame := ha c' hact t ht p hp
  obtain ⟨t₀, rfl, hstarts, rfl⟩ | ⟨i, r, t₀, k', t', rfl, hi, hs, rfl⟩ := act_cases hact
  · rcases List.mem_append.mp ht with ht | ht
    · exact hc t ht p hp
    · obtain rfl := List.mem_singleton.mp ht
      cases t with
      | started => cases hp
      | updating | creating | returned => cases hstarts
  · rcases List.mem_or_eq_of_mem_set ht with ht | rfl
    · exact hsame.trans (hc t ht p hp)
    · exact hsame.trans ((step_transition hS hs).probed hp).2

theorem returns_same (hS : S.Laws) :
    Returns (keychain S) returned (Store sameLabel) items Probed (Undisturbed S) where
  starts _ := returned_of_starts
  ended _ _ _ _ := step_returned
  inv _ _ _ := probed_act hS
  pending _ _ _ _ _ _ _ _ _ hs hr := by rw [(step_transition hS hs).pending hr]
  effect c i r t k' t' call hc hi ha hs hr := by
    have hmem := List.mem_of_getElem? hi
    refine (step_transition hS hs).store hr ?_ ?_
    · rintro kind account secret attributes rfl h
      have hthere := hc _ hmem (kind, account, true) rfl
      obtain ⟨item, hitem⟩ := Option.isSome_iff_exists.mp hthere
      rw [sameLabel, hitem]
      exact h item hitem
    · rintro kind account secret attributes rfl h
      have hthere := hc _ hmem (kind, account, false) rfl
      have hnone := Option.not_isSome_iff_eq_none.mp (by rw [hthere]; exact Bool.false_ne_true)
      rw [sameLabel, hnone]
      exact h hnone

/-- A call that changes an entry. One that failed does not. -/
def writes (kind : CredentialKind) (account : Text) : Keychains.Call × Answer → Bool
  | (.save kind' account' _, .saved (.ok _)) => kind' == kind && account' == account
  | (.delete kind' account', .deleted (.ok _)) => kind' == kind && account' == account
  | (.edit service account' _, _) => service == kind.service && account' == account
  | _ => false

def relabels (kind : CredentialKind) (account : Text) : Keychains.Call × Answer → Bool
  | (.save .., _) => false
  | call => writes kind account call

variable {v v' : Items} {call : Keychains.Call × Answer}

theorem set_ne {kind' : CredentialKind} {account' : Text} {o : Option Item}
    (h : (kind' == kind && account' == account) = false) :
    v.set kind' account' o kind account = v kind account := by
  unfold Items.set
  rw [if_neg]
  rintro ⟨rfl, rfl⟩
  simp at h

theorem edit_ne {account' : Text} {o : Option Item}
    (h : (service == kind.service && account' == account) = false) :
    v.edit service account' o kind account = v kind account := by
  unfold Items.edit
  rw [if_neg]
  rintro ⟨rfl, rfl⟩
  simp at h

theorem Store.unwritten (h : Store labelling v call v') (hcall : writes kind account call = false) :
    v' kind account = v kind account := by
  cases h with
  | saved | deleted => exact set_ne hcall
  | edited => exact edit_ne hcall
  | _ => rfl

theorem Store.labelled (h : Store sameLabel v call v') (hcall : relabels kind account call = false)
    (hitem : v kind account = some item) :
    ∃ item', v' kind account = some item' ∧ item'.attributes = item.attributes := by
  cases h with
  | @saved kind' account' secret attributes h =>
    by_cases hsame : kind' = kind ∧ account' = account
    · obtain ⟨rfl, rfl⟩ := hsame
      rw [sameLabel, hitem] at h
      exact ⟨_, if_pos ⟨rfl, rfl⟩, h⟩
    · refine ⟨item, ?_, rfl⟩
      rw [set_ne (by simpa using hsame), hitem]
  | deleted => exact ⟨item, (set_ne hcall).trans hitem, rfl⟩
  | edited => exact ⟨item, (edit_ne hcall).trans hitem, rfl⟩
  | _ => exact ⟨item, hitem, rfl⟩

/-- However the calls interleave, they are calls to one store of credentials, made one after the
other: saves, deletes, loads and lists of a kind and account act on that entry alone, a call that
fails changes nothing, and a load after a save gives the secret that was saved. -/
theorem credentials_linearizable (hS : S.Laws) (k : Keychain) (as : List (Action Task S.Reply))
    (d : Config Keychain Task) (h : (keychain S).run ⟨k, []⟩ as = some d) :
    Linearizable (keychain S) returned (Store anyLabel) items ⟨k, []⟩ as d ∧
      ∀ kind account secret answer before between after,
        (history (keychain S) returned ⟨k, []⟩ as).map Prod.snd =
          before ++ (.save kind account secret, .saved (.ok ())) :: between ++
            (.load kind account, .loaded (.ok answer)) :: after →
        (∀ call ∈ between, writes kind account call = false) → answer = some secret := by
  have hlinear := (returns_any hS).linearizable (s := k) trivial
    (meets_of_forall (p := fun _ => True) fun _ _ => trivial) h
  refine ⟨hlinear, ?_⟩
  intro kind account secret answer before between after hsplit hbetween
  have hexplained := hlinear.explained
  rw [hsplit, List.append_assoc] at hexplained
  obtain ⟨v, -, hexplained⟩ := hexplained.split
  obtain ⟨v₁, hsave, hexplained⟩ := hexplained.first
  obtain ⟨v₂, hkept, hexplained⟩ := hexplained.split
  obtain ⟨v₃, hload, -⟩ := hexplained.first
  have hstored : ∃ item, v₁ kind account = some item ∧ item.data = utf8 secret := by
    cases hsave with
    | saved => exact ⟨_, if_pos ⟨rfl, rfl⟩, rfl⟩
  have hfound : ∃ item, v₂ kind account = some item ∧ item.data = utf8 secret := by
    refine hkept.kept (P := fun v => ∃ item, v kind account = some item ∧ item.data = utf8 secret)
      ?_ hstored
    rintro call hcall v v' hstore ⟨item, hitem, hdata⟩
    exact ⟨item, (hstore.unwritten (hbetween call hcall)).trans hitem, hdata⟩
  obtain ⟨item, hitem, hdata⟩ := hfound
  cases hload with
  | absent hnone => cases hnone.symm.trans hitem
  | found hsome hsecret =>
    obtain rfl := Option.some.inj (hsome.symm.trans hitem)
    exact congrArg some (utf8_injective (hsecret.symm.trans hdata))

def done : system.Reply := ⟨none, ⟨[], [], false⟩, id, fun _ => .refl _⟩

/-- Two saves that both find no entry, and a load. -/
def twoSaves : List (Action Task system.Reply) :=
  [.spawn (.started (.save .ftpPassword ['a'] ['s'])),
    .spawn (.started (.save .ftpPassword ['a'] ['t'])), .advance 0 done, .advance 1 done,
    .advance 1 done, .advance 0 done, .spawn (.started (.load .ftpPassword ['a'])), .advance 2 done]

theorem credentials_linearizable_twoSaves : ∃ d, (keychain system).run ⟨∅, []⟩ twoSaves = some d ∧
    Linearizable (keychain system) returned (Store anyLabel) items ⟨∅, []⟩ twoSaves d := by
  obtain ⟨d, hd, -⟩ := run_decided (p := fun _ => True) (show
    (((keychain system).run ⟨∅, []⟩ twoSaves).any fun _ => decide True) = true by decide)
  exact ⟨d, hd, (credentials_linearizable system_laws ∅ twoSaves d hd).1⟩

/-- While no entry appears or disappears between the probe of a save and its write, a save keeps the
label and comment that the user has given an entry, and a new entry gets the program's own. -/
theorem labels_kept (hS : S.Laws) (k : Keychain) (as : List (Action Task S.Reply))
    (d : Config Keychain Task) (hm : (keychain S).Meets (Undisturbed S) ⟨k, []⟩ as)
    (h : (keychain S).run ⟨k, []⟩ as = some d) :
    Linearizable (keychain S) returned (Store sameLabel) items ⟨k, []⟩ as d ∧
      ∀ kind account item, items k kind account = some item →
        (∀ x ∈ history (keychain S) returned ⟨k, []⟩ as, relabels kind account x.2 = false) →
          ∃ item', items d.shared kind account = some item' ∧
            item'.attributes = item.attributes := by
  have hnone : Probed ⟨k, []⟩ := fun t ht => absurd ht List.not_mem_nil
  have hlinear := (returns_same hS).linearizable (s := k) hnone hm h
  refine ⟨hlinear, fun kind account item hitem hcalls => ?_⟩
  refine hlinear.explained.kept (P := fun v => ∃ item', v kind account = some item' ∧
    item'.attributes = item.attributes) ?_ ⟨item, hitem, rfl⟩
  rintro call hcall v v' hstore ⟨item', hitem', hsame⟩
  obtain ⟨x, hx, rfl⟩ := List.mem_map.mp hcall
  obtain ⟨item'', hitem'', heq⟩ := hstore.labelled (hcalls x hx) hitem'
  exact ⟨item'', hitem'', heq.trans hsame⟩

def named : Keychain :=
  (∅ : Keychain).insert (CredentialKind.ftpPassword.service, ['a']) ⟨[], ⟨['m', 'y'], [], false⟩⟩

def saveOver : List (Action Task system.Reply) :=
  [.spawn (.started (.save .ftpPassword ['a'] ['s'])), .advance 0 done, .advance 0 done]

theorem labels_kept_saveOver : ∃ d, (keychain system).run ⟨named, []⟩ saveOver = some d ∧
    ∃ item, items d.shared .ftpPassword ['a'] = some item ∧ item.attributes.label = ['m', 'y'] := by
  obtain ⟨d, hd, -⟩ := run_decided (p := fun _ => True) (show
    (((keychain system).run ⟨named, []⟩ saveOver).any fun _ => decide True) = true by decide)
  have hm : (keychain system).Meets (Undisturbed system) ⟨named, []⟩ saveOver := by decide
  obtain ⟨item, hitem, hlabel⟩ := (labels_kept system_laws named saveOver d hm hd).2 .ftpPassword ['a']
    ⟨[], ⟨['m', 'y'], [], false⟩⟩ (by decide) (by decide)
  exact ⟨d, hd, item, hitem, by rw [hlabel]⟩

end SshCommander.StoredCredentials
