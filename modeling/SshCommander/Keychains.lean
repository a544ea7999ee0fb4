import Mathlib.Data.List.AList
import Mathlib.Data.List.Destutter
import SshCommander.InterleavedTasks
import SshCommander.RustTextLaws

/-!
# Credentials in the keychain

The calls of the keychain crate, on a keychain that other programs use as well. Each call of the
system's library is one section; a save is two of them, a probe and a write.
-/

namespace SshCommander.Keychains
open InterleavedTasks RustText

inductive CredentialKind where
  | sshPassword
  | sshKeyPassphrase
  | sftpPassword
  | sftpKeyPassphrase
  | ftpPassword
  | postgresPassword
  deriving DecidableEq, Repr

namespace CredentialKind

def service : CredentialKind → Text
  | sshPassword => "com.r-shell.ssh.password".toList
  | sshKeyPassphrase => "com.r-shell.ssh.passphrase".toList
  | sftpPassword => "com.r-shell.sftp.password".toList
  | sftpKeyPassphrase => "com.r-shell.sftp.passphrase".toList
  | ftpPassword => "com.r-shell.ftp.password".toList
  | postgresPassword => "com.r-shell.postgres.password".toList

def friendlyLabel : CredentialKind → Text
  | sshPassword => "SSH password".toList
  | sshKeyPassphrase => "SSH key passphrase".toList
  | sftpPassword => "SFTP password".toList
  | sftpKeyPassphrase => "SFTP key passphrase".toList
  | ftpPassword => "FTP password".toList
  | postgresPassword => "Postgres password".toList

end CredentialKind

structure Attributes where
  label : Text
  comment : Text
  synchronizable : Bool
  deriving DecidableEq, Repr

structure Item where
  data : List UInt8
  attributes : Attributes
  deriving DecidableEq, Repr

abbrev Keychain := AList fun _ : Text × Text => Item

def errSecItemNotFound : Int32 := -25300

structure SecError where
  code : Int32
  message : Text
  deriving DecidableEq, Repr

/-- The library of the system that holds the keychain, with what it is asked to do in one section and
what the system chooses there. A function that writes gives the keychain it leaves. -/
structure SecurityFramework where
  Reply : Type
  getGenericPassword : Keychain → Reply → Text → Text → Except SecError (List UInt8)
  setGenericPassword : Keychain → Reply → Text → Text → List UInt8 → Except SecError Keychain
  setGenericPasswordOptions :
    Keychain → Reply → Text → Text → Attributes → List UInt8 → Except SecError Keychain
  deleteGenericPassword : Keychain → Reply → Text → Text → Except SecError Keychain
  search : Keychain → Reply → Text → Except SecError (List Text)

/-- What the library promises: a call acts on the item of its service and account and reports one as
missing only when it is. -/
structure SecurityFramework.Laws (S : SecurityFramework) : Prop where
  get_ok : ∀ {k r service account data}, S.getGenericPassword k r service account = .ok data →
    ∃ item, k.lookup (service, account) = some item ∧ item.data = data
  get_missing : ∀ {k r service account e}, S.getGenericPassword k r service account = .error e →
    e.code = errSecItemNotFound → k.lookup (service, account) = none
  /-- An item that is there keeps its attributes. -/
  set_ok : ∀ {k r service account data k'},
    S.setGenericPassword k r service account data = .ok k' →
      ∃ attributes, (∀ item, k.lookup (service, account) = some item →
          attributes = item.attributes) ∧
        k' = k.insert (service, account) ⟨data, attributes⟩
  /-- A new item gets the attributes that are asked for. -/
  setOptions_ok : ∀ {k r service account own data k'},
    S.setGenericPasswordOptions k r service account own data = .ok k' →
      ∃ attributes, (k.lookup (service, account) = none → attributes = own) ∧
        k' = k.insert (service, account) ⟨data, attributes⟩
  delete_ok : ∀ {k r service account k'}, S.deleteGenericPassword k r service account = .ok k' →
    k' = k.erase (service, account)
  delete_missing : ∀ {k r service account e},
    S.deleteGenericPassword k r service account = .error e → e.code = errSecItemNotFound →
      k.lookup (service, account) = none
  /-- The accounts of the items of one service. -/
  search_ok : ∀ {k r service accounts}, S.search k r service = .ok accounts →
    ∀ account, account ∈ accounts ↔ (k.lookup (service, account)).isSome = true
  search_missing : ∀ {k r service e}, S.search k r service = .error e →
    e.code = errSecItemNotFound → ∀ account, k.lookup (service, account) = none

def fromUtf8 (data : List UInt8) : Option Text := (data.toByteArray.utf8Decode?).map Array.toList

def keychainFailed (verb : String) (kind : CredentialKind) (account : Text) (e : SecError) : Text :=
  "keychain ".toList ++ verb.toList ++ " failed for ".toList ++ kind.service ++ ['/'] ++ account ++
    ": ".toList ++ e.message

/-- The attributes of an entry that a save makes. -/
def ownAttributes (kind : CredentialKind) (account : Text) : Attributes where
  label := "r-shell: ".toList ++ kind.friendlyLabel ++ " (".toList ++ account ++ [')']
  comment := ("Saved by r-shell. Remove from r-shell → Settings → Security → Saved Credentials, " ++
    "or delete here to force a re-prompt on the next connect.").toList
  synchronizable := false

def sortedAccounts (accounts : List Text) : List Text :=
  (accounts.mergeSort textLe).destutter (· ≠ ·)

inductive Call where
  | save (kind : CredentialKind) (account secret : Text)
  | load (kind : CredentialKind) (account : Text)
  | delete (kind : CredentialKind) (account : Text)
  | list (kind : CredentialKind)
  /-- Another program, or the user in Keychain Access, sets an entry or takes it out. -/
  | edit (service account : Text) (item : Option Item)
  deriving DecidableEq, Repr

inductive Answer where
  | saved (answer : Except Text Unit)
  | loaded (answer : Except Text (Option Text))
  | deleted (answer : Except Text Unit)
  | listed (answer : Except Text (List Text))
  | edited

/-- Where a call stands; a save that has probed knows whether it found an entry. -/
inductive Task where
  | started (call : Call)
  | updating (kind : CredentialKind) (account secret : Text)
  | creating (kind : CredentialKind) (account secret : Text)
  | returned (call : Call) (answer : Answer)

def starts : Task → Bool
  | .started _ => true
  | _ => false

def written (k : Keychain) (kind : CredentialKind) (account : Text) (verb : String) (call : Call)
    (answer : Except Text Unit → Answer) (result : Except SecError Keychain) :
    Option (Keychain × Task) :=
  match result with
  | .ok k' => some (k', .returned call (answer (.ok ())))
  | .error e => some (k, .returned call (answer (.error (keychainFailed verb kind account e))))

/-- One section of `save_password`, `load_password`, `delete_password` or `list_accounts`. -/
def step (S : SecurityFramework) (k : Keychain) (t : Task) (r : S.Reply) : Option (Keychain × Task) :=
  match t with
  | .started (.save kind account secret) =>
    match S.getGenericPassword k r kind.service account with
    | .ok _ => some (k, .updating kind account secret)
    | .error e =>
      if e.code = errSecItemNotFound then some (k, .creating kind account secret)
      else some (k, .returned (.save kind account secret)
        (.saved (.error (keychainFailed "pre-save probe" kind account e))))
  | .updating kind account secret =>
    written k kind account "update" (.save kind account secret) .saved
      (S.setGenericPassword k r kind.service account (utf8 secret))
  | .creating kind account secret =>
    written k kind account "create" (.save kind account secret) .saved
      (S.setGenericPasswordOptions k r kind.service account (ownAttributes kind account)
        (utf8 secret))
  | .started (.load kind account) =>
    let answer := match S.getGenericPassword k r kind.service account with
      | .ok bytes =>
        match fromUtf8 bytes with
        | some s => .ok (some s)
        | none => .error ("keychain item ".toList ++ kind.service ++ ['/'] ++ account ++
            " is not valid UTF-8".toList)
      | .error e =>
        if e.code = errSecItemNotFound then .ok none
        else .error (keychainFailed "load" kind account e)
    some (k, .returned (.load kind account) (.loaded answer))
  | .started (.delete kind account) =>
    match S.deleteGenericPassword k r kind.service account with
    | .ok k' => some (k', .returned (.delete kind account) (.deleted (.ok ())))
    | .error e =>
      if e.code = errSecItemNotFound then
        some (k, .returned (.delete kind account) (.deleted (.ok ())))
      else some (k, .returned (.delete kind account)
        (.deleted (.error (keychainFailed "delete" kind account e))))
  | .started (.list kind) =>
    let answer := match S.search k r kind.service with
      | .ok accounts => .ok (sortedAccounts accounts)
      | .error e =>
        if e.code = errSecItemNotFound then .ok []
        else .error ("keychain list failed for ".toList ++ kind.service ++ ": ".toList ++ e.message)
    some (k, .returned (.list kind) (.listed answer))
  | .started (.edit service account item) =>
    some (match item with
      | some item => k.insert (service, account) item
      | none => k.erase (service, account), .returned (.edit service account item) .edited)
  | .returned .. => none

def keychain (S : SecurityFramework) : TaskSystem Keychain Task S.Reply := ⟨starts, step S⟩

def returned : Task → Option (Call × Answer)
  | .returned call answer => some (call, answer)
  | _ => none

/-- What a system may choose: whether a call fails, the attributes that are left to it, and the order
of what it finds. -/
structure Reply where
  failure : Option { e : SecError // e.code ≠ errSecItemNotFound }
  attributes : Attributes
  order : List Text → List Text
  order_perm : ∀ l, (order l).Perm l

def missing : SecError :=
  ⟨errSecItemNotFound, "The specified item could not be found in the keychain.".toList⟩

def getGenericPassword (k : Keychain) (r : Reply) (service account : Text) :
    Except SecError (List UInt8) :=
  match r.failure with
  | some e => .error e
  | none =>
    match k.lookup (service, account) with
    | none => .error missing
    | some item => .ok item.data

def setGenericPassword (k : Keychain) (r : Reply) (service account : Text) (data : List UInt8) :
    Except SecError Keychain :=
  match r.failure with
  | some e => .error e
  | none =>
    match k.lookup (service, account) with
    | none => .ok (k.insert (service, account) ⟨data, r.attributes⟩)
    | some item => .ok (k.insert (service, account) { item with data })

def setGenericPasswordOptions (k : Keychain) (r : Reply) (service account : Text)
    (attributes : Attributes) (data : List UInt8) : Except SecError Keychain :=
  match r.failure with
  | some e => .error e
  | none =>
    match k.lookup (service, account) with
    | none => .ok (k.insert (service, account) ⟨data, attributes⟩)
    | some _ => .ok (k.insert (service, account) ⟨data, r.attributes⟩)

def deleteGenericPassword (k : Keychain) (r : Reply) (service account : Text) :
    Except SecError Keychain :=
  match r.failure with
  | some e => .error e
  | none =>
    match k.lookup (service, account) with
    | none => .error missing
    | some _ => .ok (k.erase (service, account))

def search (k : Keychain) (r : Reply) (service : Text) : Except SecError (List Text) :=
  match r.failure with
  | some e => .error e
  | none =>
    match (k.keys.filter (·.1 == service)).map Prod.snd with
    | [] => .error missing
    | accounts => .ok (r.order accounts)

def system : SecurityFramework :=
  ⟨Reply, getGenericPassword, setGenericPassword, setGenericPasswordOptions, deleteGenericPassword,
    search⟩

theorem mem_accounts {k : Keychain} {service account : Text} :
    account ∈ (k.keys.filter (·.1 == service)).map Prod.snd ↔
      (k.lookup (service, account)).isSome = true := by
  rw [AList.lookup_isSome, AList.mem_keys, List.mem_map]
  constructor
  · rintro ⟨⟨service', account⟩, hmem, rfl⟩
    obtain ⟨hkey, hservice⟩ := List.mem_filter.mp hmem
    obtain rfl : service' = service := beq_iff_eq.mp hservice
    exact hkey
  · intro hkey
    exact ⟨(service, account), List.mem_filter.mpr ⟨hkey, beq_self_eq_true _⟩, rfl⟩

theorem system_laws : system.Laws where
  get_ok {k r service account data} h := by
    simp only [system, getGenericPassword] at h
    split at h
    · cases h
    · split at h
      · cases h
      · rename_i item hitem
        exact ⟨item, hitem, Except.ok.inj h⟩
  get_missing {k r service account e} h hcode := by
    simp only [system, getGenericPassword] at h
    split at h
    · rename_i e' _
      exact absurd (Except.error.inj h ▸ hcode) e'.2
    · split at h
      · assumption
      · cases h
  set_ok {k r service account data k'} h := by
    simp only [system, setGenericPassword] at h
    split at h
    · cases h
    · split at h
      · rename_i hnone
        refine ⟨r.attributes, fun item hitem => ?_, (Except.ok.inj h).symm⟩
        cases hitem.symm.trans hnone
      · rename_i item hitem
        refine ⟨item.attributes, fun item' hitem' => ?_, (Except.ok.inj h).symm⟩
        rw [Option.some.inj (hitem.symm.trans hitem')]
  setOptions_ok {k r service account own data k'} h := by
    simp only [system, setGenericPasswordOptions] at h
    split at h
    · cases h
    · split at h
      · exact ⟨own, fun _ => rfl, (Except.ok.inj h).symm⟩
      · rename_i hitem
        refine ⟨r.attributes, fun hnone => ?_, (Except.ok.inj h).symm⟩
        cases hnone.symm.trans hitem
  delete_ok {k r service account k'} h := by
    simp only [system, deleteGenericPassword] at h
    split at h
    · cases h
    · split at h
      · cases h
      · exact (Except.ok.inj h).symm
  delete_missing {k r service account e} h hcode := by
    simp only [system, deleteGenericPassword] at h
    split at h
    · rename_i e' _
      exact absurd (Except.error.inj h ▸ hcode) e'.2
    · split at h
      · assumption
      · cases h
  search_ok {k r service accounts} h account := by
    simp only [system, search] at h
    split at h
    · cases h
    · split at h
      · cases h
      · rename_i haccounts
        rw [← Except.ok.inj h, (r.order_perm _).mem_iff, ← mem_accounts]
  search_missing {k r service e} h hcode account := by
    simp only [system, search] at h
    split at h
    · rename_i e' _
      exact absurd (Except.error.inj h ▸ hcode) e'.2
    · split at h
      · rename_i haccounts
        rw [← Option.not_isSome_iff_eq_none, ← mem_accounts, haccounts]
        exact List.not_mem_nil
      · cases h

end SshCommander.Keychains
