/- digest: The secrets store: encrypted rows of every user, the vault that its answers come from, and users kept apart. -/

import Mathlib.Data.List.Sort
import Mathlib.Data.Option.Basic
import Mathlib.Data.String.Basic
import Gyre.Lib.Logs

/-!
A call is one transaction on the table of the libSQL store, and may fail as a whole. Times are
nanoseconds; rows keep them in milliseconds, as RFC 3339 writes them.
-/

set_option autoImplicit false
set_option relaxedAutoImplicit false

namespace Gyre.Secrets

open Gyre.Lib

def keySize : Nat := 32

def nonceSize : Nat := 12

def tagSize : Nat := 16

inductive SecretError where
  | notFound (name : String)
  | expired
  | decryptionFailed (reason : String)
  | encryptionFailed (reason : String)
  | invalidMasterKey
  | invalidUtf8
  | database (reason : String)
  deriving DecidableEq, Repr

section Crypto

/-- HKDF-SHA256 with the label of the store, and AES-256-GCM. -/
structure Ciphers where
  hkdf (salt master : List UInt8) : List UInt8
  encrypt (key nonce plaintext : List UInt8) : Except String (List UInt8)
  decrypt (key nonce ciphertext : List UInt8) : Except String (List UInt8)

/-- What has been encrypted carries a tag, and is decrypted under the same key and nonce. -/
structure Ciphers.Lawful (ciphers : Ciphers) : Prop where
  opens : ∀ key nonce plaintext ciphertext, ciphers.encrypt key nonce plaintext = .ok ciphertext →
    ciphers.decrypt key nonce ciphertext = .ok plaintext
  tagged : ∀ key nonce plaintext ciphertext, ciphers.encrypt key nonce plaintext = .ok ciphertext →
    ciphertext.length = plaintext.length + tagSize

def asBytes (s : String) : List UInt8 := s.toUTF8.data.toList

/-- `DecryptedSecret::from_bytes`. -/
def fromBytes (bytes : List UInt8) : Except SecretError String :=
  match String.fromUTF8? ⟨bytes.toArray⟩ with
  | some value => .ok value
  | none => .error .invalidUtf8

theorem fromBytes_asBytes (s : String) : fromBytes (asBytes s) = .ok s := by
  have hutf8 : String.fromUTF8? s.toUTF8 = some s := by
    unfold String.fromUTF8?
    exact dif_pos s.isValidUTF8
  have hbytes : (⟨(asBytes s).toArray⟩ : ByteArray) = s.toUTF8 := rfl
  unfold fromBytes
  rw [hbytes, hutf8]

abbrev Nonce := { bytes : List UInt8 // bytes.length = nonceSize }

/-- A master key that is long enough. -/
structure SecretsCrypto where
  masterKey : List UInt8
  long : keySize ≤ masterKey.length

namespace SecretsCrypto

def new (masterKey : String) : Except SecretError SecretsCrypto :=
  if h : keySize ≤ (asBytes masterKey).length then .ok ⟨asBytes masterKey, h⟩ else .error .invalidMasterKey

variable (ciphers : Ciphers) (crypto : SecretsCrypto)

def deriveKey (salt : List UInt8) : List UInt8 := ciphers.hkdf salt crypto.masterKey

/-- The encrypted value, which is the nonce and the ciphertext, and the salt. -/
def encrypt (salt : List UInt8) (nonce : Nonce) (plaintext : List UInt8) :
    Except SecretError (List UInt8 × List UInt8) :=
  match ciphers.encrypt (crypto.deriveKey ciphers salt) nonce.val plaintext with
  | .error e => .error (.encryptionFailed ("Encryption failed: " ++ e))
  | .ok ciphertext => .ok (nonce.val ++ ciphertext, salt)

def decrypt (encryptedValue salt : List UInt8) : Except SecretError String :=
  if encryptedValue.length < nonceSize + tagSize then
    .error (.decryptionFailed "Encrypted value too short")
  else
    match ciphers.decrypt (crypto.deriveKey ciphers salt) (encryptedValue.take nonceSize)
        (encryptedValue.drop nonceSize) with
    | .error e => .error (.decryptionFailed ("Decryption failed: " ++ e))
    | .ok plaintext => fromBytes plaintext

variable {ciphers}

theorem decrypt_encrypt (hlawful : ciphers.Lawful) {salt : List UInt8} {nonce : Nonce} {value : String}
    {encryptedValue keySalt : List UInt8}
    (h : crypto.encrypt ciphers salt nonce (asBytes value) = .ok (encryptedValue, keySalt)) :
    crypto.decrypt ciphers encryptedValue keySalt = .ok value := by
  unfold encrypt at h
  cases hc : ciphers.encrypt (crypto.deriveKey ciphers salt) nonce.val (asBytes value) with
  | error e =>
    rw [hc] at h
    cases h
  | ok ciphertext =>
    rw [hc] at h
    cases h
    have hlong : ¬ (nonce.val ++ ciphertext).length < nonceSize + tagSize := by
      have htagged := hlawful.tagged _ _ _ _ hc
      have hnonce := nonce.property
      rw [List.length_append]
      omega
    unfold decrypt
    rw [if_neg hlong, List.take_left' nonce.property, List.drop_left' nonce.property,
      hlawful.opens _ _ _ _ hc]
    exact fromBytes_asBytes value

end SecretsCrypto

end Crypto

section Table

structure Secret where
  id : Nat
  userId : String
  name : String
  encryptedValue : List UInt8
  keySalt : List UInt8
  provider : Option String
  expiresAt : Option Nat
  lastUsedAt : Option Nat
  usageCount : Nat
  createdAt : Nat
  updatedAt : Nat
  deriving DecidableEq, Repr

structure SecretRef where
  name : String
  provider : Option String
  deriving DecidableEq, Repr

structure CreateSecretParams where
  name : String
  value : String
  provider : Option String
  expiresAt : Option Nat
  deriving DecidableEq, Repr

/-- A time as rows keep it. -/
def millis (t : Nat) : Nat := t / 1000000 * 1000000

def Secret.isAt (row : Secret) (userId name : String) : Bool := row.userId == userId && row.name == name

/-- The row under a user and a name, if there is one. -/
def rowAt (table : List Secret) (userId name : String) : Option Secret :=
  table.find? fun row => row.isAt userId name

/-- `libsql_row_to_secret`. -/
def Secret.read (row : Secret) : Secret := { row with provider := row.provider.filter (· ≠ "") }

/-- What a row becomes when it is created again. -/
def Secret.replaced (old new : Secret) : Secret :=
  { old with
    encryptedValue := new.encryptedValue
    keySalt := new.keySalt
    provider := new.provider
    expiresAt := new.expiresAt
    updatedAt := new.updatedAt }

/-- `INSERT … ON CONFLICT (user_id, name) DO UPDATE`. -/
def upsert (table : List Secret) (new : Secret) : List Secret :=
  if (rowAt table new.userId new.name).isSome then
    table.map fun row => if row.isAt new.userId new.name then row.replaced new else row
  else table ++ [new]

/-- What a call meets, and what it draws. -/
structure Encounter where
  fault : Option String
  now : Nat
  id : Nat
  salt : List UInt8
  nonce : Nonce

inductive Operation where
  | create (userId : String) (params : CreateSecretParams)
  | get (userId name : String)
  | getDecrypted (userId name : String)
  | existsSecret (userId name : String)
  | list (userId : String)
  | delete (userId name : String)
  | recordUsage (secretId : Nat)
  | isAccessible (userId secretName : String) (allowedSecrets : List String)
  deriving DecidableEq, Repr

inductive Answer where
  | secret (secret : Secret)
  | decrypted (value : String)
  | found (found : Bool)
  | refs (refs : List SecretRef)
  | deleted (deleted : Bool)
  | recorded
  | accessible (accessible : Bool)
  deriving DecidableEq, Repr

abbrev Reply := Except SecretError Answer

def get (table : List Secret) (now : Nat) (userId name : String) : Except SecretError Secret :=
  match rowAt table userId name with
  | none => .error (.notFound name)
  | some row => if row.read.expiresAt.any (· < now) then .error .expired else .ok row.read

/-- `SELECT … ORDER BY name`. -/
def list (table : List Secret) (userId : String) : List SecretRef :=
  ((table.filter fun row => row.userId == userId).map fun row => ⟨row.name, row.provider⟩).mergeSort
    fun a b => a.name ≤ b.name

/-- The patterns of `is_accessible`. -/
def allowsSecret (allowedSecrets : List String) (secretName : String) : Bool :=
  allowedSecrets.any fun pattern =>
    pattern == secretName ||
      (pattern.toList.getLast? == some '*' && pattern.toList.dropLast.isPrefixOf secretName.toList)

def recordUsage (table : List Secret) (now secretId : Nat) : List Secret :=
  table.map fun row =>
    if row.id = secretId then
      { row with lastUsedAt := some (millis now), usageCount := row.usageCount + 1 }
    else row

variable (ciphers : Ciphers) (crypto : SecretsCrypto)

def getDecrypted (table : List Secret) (now : Nat) (userId name : String) : Reply :=
  (get table now userId name).bind fun secret =>
    (crypto.decrypt ciphers secret.encryptedValue secret.keySalt).map .decrypted

/-- The row that `create` inserts. -/
def createdRow (userId : String) (params : CreateSecretParams) (env : Encounter)
    (encryptedValue keySalt : List UInt8) : Secret where
  id := env.id
  userId := userId
  name := params.name
  encryptedValue := encryptedValue
  keySalt := keySalt
  provider := params.provider
  expiresAt := params.expiresAt.map millis
  lastUsedAt := none
  usageCount := 0
  createdAt := millis env.now
  updatedAt := millis env.now

/-- `create`, with the read of the row in the same transaction. -/
def create (table : List Secret) (userId : String) (params : CreateSecretParams) (env : Encounter) :
    List Secret × Reply :=
  match crypto.encrypt ciphers env.salt env.nonce (asBytes params.value) with
  | .error e => (table, .error e)
  | .ok (encryptedValue, keySalt) =>
    match env.fault with
    | some reason => (table, .error (.database reason))
    | none =>
      let next := upsert table (createdRow userId params env encryptedValue keySalt)
      match rowAt next userId params.name with
      | none => (table, .error (.database "Insert succeeded but row not found"))
      | some row => (next, .ok (.secret row.read))

/-- A transaction that fails leaves the table as it is. -/
def attempt (table : List Secret) (env : Encounter) (done : List Secret × Reply) : List Secret × Reply :=
  match env.fault with
  | some reason => (table, .error (.database reason))
  | none => done

def perform (table : List Secret) (operation : Operation) (env : Encounter) : List Secret × Reply :=
  match operation with
  | .create userId params => create ciphers crypto table userId params env
  | .get userId name => attempt table env (table, (get table env.now userId name).map .secret)
  | .getDecrypted userId name => attempt table env (table, getDecrypted ciphers crypto table env.now userId name)
  | .existsSecret userId name => attempt table env (table, .ok (.found (rowAt table userId name).isSome))
  | .list userId => attempt table env (table, .ok (.refs (list table userId)))
  | .delete userId name =>
    attempt table env
      (table.filter fun row => !row.isAt userId name, .ok (.deleted (rowAt table userId name).isSome))
  | .recordUsage secretId => attempt table env (recordUsage table env.now secretId, .ok .recorded)
  | .isAccessible userId secretName allowedSecrets =>
    attempt table env (table, .ok (.accessible
      ((rowAt table userId secretName).isSome && allowsSecret allowedSecrets secretName)))

end Table

section Rows

variable {table : List Secret} {userId name : String} {row : Secret}

theorem Secret.isAt_iff : row.isAt userId name = true ↔ row.userId = userId ∧ row.name = name := by
  simp [Secret.isAt]

theorem mem_of_rowAt (h : rowAt table userId name = some row) :
    row ∈ table ∧ row.userId = userId ∧ row.name = name := by
  have hat := List.find?_some (p := fun row : Secret => row.isAt userId name) h
  exact ⟨List.mem_of_find?_eq_some h, Secret.isAt_iff.mp hat⟩

/-- No two rows have the same user and the same name. -/
def Apart (table : List Secret) : Prop := (table.map fun row => (row.userId, row.name)).Nodup

theorem rowAt_of_mem (hapart : Apart table) (h : row ∈ table) :
    rowAt table row.userId row.name = some row := by
  have hsome : (rowAt table row.userId row.name).isSome = true :=
    List.find?_isSome.mpr ⟨row, h, Secret.isAt_iff.mpr ⟨rfl, rfl⟩⟩
  obtain ⟨found, hfound⟩ := Option.isSome_iff_exists.mp hsome
  obtain ⟨hmem, huser, hname⟩ := mem_of_rowAt hfound
  have heq : found = row :=
    List.inj_on_of_nodup_map hapart hmem h (Prod.ext huser hname)
  rw [hfound, heq]

theorem rowAt_map {f : Secret → Secret} (huser : ∀ row, (f row).userId = row.userId)
    (hname : ∀ row, (f row).name = row.name) :
    rowAt (table.map f) userId name = (rowAt table userId name).map f := by
  have hat : (fun row : Secret => row.isAt userId name) ∘ f = fun row => row.isAt userId name := by
    funext row
    simp only [Function.comp, Secret.isAt, huser, hname]
  unfold rowAt
  rw [List.find?_map, hat]

theorem Apart.map {f : Secret → Secret} (h : Apart table) (huser : ∀ row, (f row).userId = row.userId)
    (hname : ∀ row, (f row).name = row.name) : Apart (table.map f) := by
  have hkeys : (table.map f).map (fun row => (row.userId, row.name)) =
      table.map fun row => (row.userId, row.name) := by
    rw [List.map_map]
    exact List.map_congr_left fun row _ => Prod.ext (huser row) (hname row)
  unfold Apart
  rw [hkeys]
  exact h

private theorem userId_update {new : Secret} (row : Secret) :
    (if row.isAt new.userId new.name then row.replaced new else row).userId = row.userId := by
  split
  · rfl
  · rfl

private theorem name_update {new : Secret} (row : Secret) :
    (if row.isAt new.userId new.name then row.replaced new else row).name = row.name := by
  split
  · rfl
  · rfl

theorem apart_upsert (h : Apart table) (new : Secret) : Apart (upsert table new) := by
  unfold upsert
  split
  · exact h.map userId_update name_update
  · next hnone =>
    unfold Apart
    rw [List.map_append, List.map_singleton]
    refine List.nodup_append.mpr ⟨h, List.nodup_singleton _, ?_⟩
    intro a ha b hb heq
    obtain ⟨row, hrow, rfl⟩ := List.mem_map.mp ha
    rw [List.mem_singleton.mp hb] at heq
    have hat := Prod.mk.inj heq
    exact hnone (List.find?_isSome.mpr ⟨row, hrow, Secret.isAt_iff.mpr hat⟩)

/-- What stands under a user and a name after a row has been inserted or updated there. -/
theorem rowAt_upsert_self (new : Secret) :
    rowAt (upsert table new) new.userId new.name =
      some (((rowAt table new.userId new.name).map (·.replaced new)).getD new) := by
  unfold upsert
  split
  · next hsome =>
    obtain ⟨old, hold⟩ := Option.isSome_iff_exists.mp hsome
    have hat : old.isAt new.userId new.name = true := Secret.isAt_iff.mpr (mem_of_rowAt hold).2
    rw [rowAt_map userId_update name_update, hold]
    simp [hat]
  · next hnone =>
    have hold : rowAt table new.userId new.name = none := by simpa using hnone
    have hself : new.isAt new.userId new.name = true := Secret.isAt_iff.mpr ⟨rfl, rfl⟩
    rw [hold]
    unfold rowAt at hold ⊢
    rw [List.find?_append, hold, List.find?_singleton, if_pos hself]
    rfl

theorem rowAt_upsert_of_ne {new : Secret} (h : ¬ (new.userId = userId ∧ new.name = name)) :
    rowAt (upsert table new) userId name = rowAt table userId name := by
  unfold upsert
  split
  · rw [rowAt_map userId_update name_update]
    cases hrow : rowAt table userId name with
    | none => rfl
    | some row =>
      obtain ⟨-, huser, hname⟩ := mem_of_rowAt hrow
      have hat : row.isAt new.userId new.name = false := by
        rw [Bool.eq_false_iff, Ne, Secret.isAt_iff, huser, hname]
        exact fun heq => h ⟨heq.1.symm, heq.2.symm⟩
      simp [hat]
  · have hat : new.isAt userId name = false := by
      rw [Bool.eq_false_iff, Ne, Secret.isAt_iff]
      exact h
    unfold rowAt
    rw [List.find?_append, List.find?_singleton, if_neg (by simp [hat]), Option.or_none]

theorem rowAt_delete_self : rowAt (table.filter fun row => !row.isAt userId name) userId name = none := by
  refine List.find?_eq_none.mpr fun row hrow => ?_
  simpa using (List.mem_filter.mp hrow).2

theorem rowAt_delete_of_ne {userId' name' : String} (h : ¬ (userId = userId' ∧ name = name')) :
    rowAt (table.filter fun row => !row.isAt userId name) userId' name' = rowAt table userId' name' := by
  unfold rowAt
  rw [List.find?_filter]
  congr 1
  funext row
  cases hat : row.isAt userId' name' with
  | false => simp
  | true =>
    obtain ⟨rfl, rfl⟩ := Secret.isAt_iff.mp hat
    have hother : row.isAt userId name = false := by
      rw [Bool.eq_false_iff, Ne, Secret.isAt_iff]
      exact fun heq => h ⟨heq.1.symm, heq.2.symm⟩
    rw [hother]
    rfl

/-- The references are in ascending order of their names, one for each row of the user. -/
theorem list_sorted (hapart : Apart table) :
    ((list table userId).map (·.name)).Pairwise (· < ·) := by
  have hsorted : (list table userId).Pairwise fun a b => a.name ≤ b.name := by
    have hle := @List.pairwise_mergeSort SecretRef (fun a b => decide (a.name ≤ b.name))
      (fun a b c hab hbc => by
        rw [decide_eq_true_eq] at hab hbc ⊢
        exact hab.trans hbc)
      (fun a b => by
        rw [Bool.or_eq_true, decide_eq_true_eq, decide_eq_true_eq]
        exact le_total a.name b.name)
      ((table.filter fun row => row.userId == userId).map fun row => ⟨row.name, row.provider⟩)
    exact hle.imp fun h => of_decide_eq_true h
  have hnodup : ((list table userId).map (·.name)).Nodup := by
    have hperm := (List.mergeSort_perm ((table.filter fun row => row.userId == userId).map
      fun row => (⟨row.name, row.provider⟩ : SecretRef)) fun a b => a.name ≤ b.name).map (·.name)
    refine hperm.nodup_iff.mpr ?_
    rw [List.map_map]
    have hkeys : ((table.filter fun row => row.userId == userId).map
        fun row => (row.userId, row.name)).Nodup := hapart.sublist (List.filter_sublist.map _)
    refine List.Nodup.of_map (fun name => (userId, name)) ?_
    rw [List.map_map]
    convert hkeys using 1
    refine List.map_congr_left fun row hrow => ?_
    have huser : row.userId = userId := by simpa using (List.mem_filter.mp hrow).2
    exact Prod.ext huser.symm rfl
  have hle : ((list table userId).map (·.name)).Pairwise (· ≤ ·) := List.pairwise_map.mpr hsorted
  exact (hle.and hnodup).imp fun h => lt_of_le_of_ne h.1 h.2

theorem mem_list (hapart : Apart table) {ref : SecretRef} :
    ref ∈ list table userId ↔ ∃ row, rowAt table userId ref.name = some row ∧ row.provider = ref.provider := by
  unfold list
  rw [List.mem_mergeSort, List.mem_map]
  constructor
  · rintro ⟨row, hrow, rfl⟩
    obtain ⟨hmem, huser⟩ := List.mem_filter.mp hrow
    rw [beq_iff_eq] at huser
    exact ⟨row, huser ▸ rowAt_of_mem hapart hmem, rfl⟩
  · rintro ⟨row, hrow, hprovider⟩
    obtain ⟨hmem, huser, hname⟩ := mem_of_rowAt hrow
    refine ⟨row, List.mem_filter.mpr ⟨hmem, beq_iff_eq.mpr huser⟩, ?_⟩
    rw [hname, hprovider]

end Rows

section Answers

/-- What a user keeps under a name. -/
structure Entry where
  value : String
  provider : Option String
  expiresAt : Option Nat
  deriving DecidableEq, Repr

/-- What the store is for: the entries of every user. -/
abbrev Vault := String → String → Option Entry

namespace Vault

def empty : Vault := fun _ _ => none

def put (vault : Vault) (userId name : String) (entry : Option Entry) : Vault :=
  fun userId' name' => if userId = userId' ∧ name = name' then entry else vault userId' name'

/-- The vault after an operation, by the reply to it. -/
def after (vault : Vault) (operation : Operation) : Reply → Vault
  | .error _ => vault
  | .ok _ =>
    match operation with
    | .create userId params =>
      vault.put userId params.name (some ⟨params.value, params.provider, params.expiresAt.map millis⟩)
    | .delete userId name => vault.put userId name none
    | _ => vault

/-- The entry that can be read at a time. -/
def readable (vault : Vault) (now : Nat) (userId name : String) : Except SecretError Entry :=
  match vault userId name with
  | none => .error (.notFound name)
  | some entry => if entry.expiresAt.any (· < now) then .error .expired else .ok entry

end Vault

variable (ciphers : Ciphers) (crypto : SecretsCrypto)

/-- A secret as it is read carries an entry. -/
structure Secret.Carries (secret : Secret) (userId name : String) (entry : Entry) : Prop where
  userId : secret.userId = userId
  name : secret.name = name
  value : crypto.decrypt ciphers secret.encryptedValue secret.keySalt = .ok entry.value
  provider : secret.provider = entry.provider.filter (· ≠ "")
  expiresAt : secret.expiresAt = entry.expiresAt

/-- The reply that a vault accounts for, when nothing fails. -/
def Vault.Answers (vault : Vault) (now : Nat) (operation : Operation) (reply : Reply) : Prop :=
  match operation with
  | .create userId params =>
    ∃ secret, reply = .ok (.secret secret) ∧
      secret.Carries ciphers crypto userId params.name
        ⟨params.value, params.provider, params.expiresAt.map millis⟩
  | .get userId name =>
    match vault.readable now userId name with
    | .error e => reply = .error e
    | .ok entry => ∃ secret, reply = .ok (.secret secret) ∧ secret.Carries ciphers crypto userId name entry
  | .getDecrypted userId name =>
    reply = (vault.readable now userId name).map fun entry => .decrypted entry.value
  | .existsSecret userId name => reply = .ok (.found (vault userId name).isSome)
  | .list userId =>
    ∃ refs, reply = .ok (.refs refs) ∧ (refs.map (·.name)).Pairwise (· < ·) ∧
      ∀ ref, ref ∈ refs ↔ (vault userId ref.name).map (·.provider) = some ref.provider
  | .delete userId name => reply = .ok (.deleted (vault userId name).isSome)
  | .recordUsage _ => reply = .ok .recorded
  | .isAccessible userId secretName allowedSecrets =>
    reply = .ok (.accessible ((vault userId secretName).isSome && allowsSecret allowedSecrets secretName))

/-- A reply is that of the vault, or tells of a fault or of a value that cannot be encrypted. -/
def Vault.Accounts (vault : Vault) (operation : Operation) (env : Encounter) (reply : Reply) : Prop :=
  (∃ userId params reason, operation = .create userId params ∧ reply = .error (.encryptionFailed reason)) ∨
    match env.fault with
    | some reason => reply = .error (.database reason)
    | none => vault.Answers ciphers crypto env.now operation reply

/-- A row shows an entry. -/
structure Secret.Shows (row : Secret) (entry : Entry) : Prop where
  value : crypto.decrypt ciphers row.encryptedValue row.keySalt = .ok entry.value
  provider : row.provider = entry.provider
  expiresAt : row.expiresAt = entry.expiresAt

/-- The rows of a table are the entries of a vault. -/
structure Holds (table : List Secret) (vault : Vault) : Prop where
  apart : Apart table
  shows : ∀ userId name, Option.Rel (Secret.Shows ciphers crypto) (rowAt table userId name) (vault userId name)

variable {ciphers} {crypto} {table : List Secret} {vault : Vault} {userId name : String}

theorem Holds.cases (h : Holds ciphers crypto table vault) (userId name : String) :
    (rowAt table userId name = none ∧ vault userId name = none) ∨
      ∃ row entry, rowAt table userId name = some row ∧ vault userId name = some entry ∧
        row.Shows ciphers crypto entry := by
  have hshows := h.shows userId name
  generalize rowAt table userId name = row at hshows ⊢
  generalize vault userId name = entry at hshows ⊢
  cases hshows with
  | none => exact .inl ⟨rfl, rfl⟩
  | some hshows => exact .inr ⟨_, _, rfl, rfl, hshows⟩

theorem Holds.isSome (h : Holds ciphers crypto table vault) :
    (rowAt table userId name).isSome = (vault userId name).isSome := by
  rcases h.cases userId name with ⟨hrow, hentry⟩ | ⟨row, entry, hrow, hentry, -⟩
  · rw [hrow, hentry]
    rfl
  · rw [hrow, hentry]
    rfl

theorem Secret.Shows.carries {row : Secret} {entry : Entry} (h : row.Shows ciphers crypto entry)
    (huser : row.userId = userId) (hname : row.name = name) :
    row.read.Carries ciphers crypto userId name entry where
  userId := huser
  name := hname
  value := h.value
  provider := congrArg (Option.filter (· ≠ "")) h.provider
  expiresAt := h.expiresAt

/-- `get` reads what the vault lets be read. -/
theorem Holds.get (h : Holds ciphers crypto table vault) (now : Nat) (userId name : String) :
    match vault.readable now userId name with
    | .error e => get table now userId name = .error e
    | .ok entry => ∃ secret, get table now userId name = .ok secret ∧
        secret.Carries ciphers crypto userId name entry := by
  unfold Vault.readable Secrets.get
  rcases h.cases userId name with ⟨hrow, hentry⟩ | ⟨row, entry, hrow, hentry, hshows⟩
  · rw [hrow, hentry]
  · have hexpires : row.read.expiresAt = entry.expiresAt := hshows.expiresAt
    obtain ⟨-, huser, hname⟩ := mem_of_rowAt hrow
    rw [hrow, hentry]
    simp only [hexpires]
    cases entry.expiresAt.any (· < now) with
    | true => rfl
    | false => exact ⟨row.read, rfl, hshows.carries huser hname⟩

theorem Vault.put_self {entry : Option Entry} : vault.put userId name entry userId name = entry := by
  simp [Vault.put]

theorem Vault.put_of_ne {entry : Option Entry} {userId' name' : String}
    (h : ¬ (userId = userId' ∧ name = name')) : vault.put userId name entry userId' name' = vault userId' name' := by
  simp [Vault.put, h]

theorem holds_upsert (h : Holds ciphers crypto table vault) {new : Secret} {entry : Entry}
    (hnew : new.Shows ciphers crypto entry) :
    Holds ciphers crypto (upsert table new) (vault.put new.userId new.name (some entry)) where
  apart := apart_upsert h.apart new
  shows userId name := by
    by_cases hat : new.userId = userId ∧ new.name = name
    · obtain ⟨rfl, rfl⟩ := hat
      rw [rowAt_upsert_self, Vault.put_self]
      refine .some ?_
      cases rowAt table new.userId new.name with
      | none => exact hnew
      | some old => exact ⟨hnew.value, hnew.provider, hnew.expiresAt⟩
    · rw [rowAt_upsert_of_ne hat, Vault.put_of_ne hat]
      exact h.shows userId name

theorem holds_delete (h : Holds ciphers crypto table vault) :
    Holds ciphers crypto (table.filter fun row => !row.isAt userId name) (vault.put userId name none) where
  apart := List.Nodup.sublist (List.filter_sublist.map _) h.apart
  shows userId' name' := by
    by_cases hat : userId = userId' ∧ name = name'
    · obtain ⟨rfl, rfl⟩ := hat
      rw [rowAt_delete_self, Vault.put_self]
      exact .none
    · rw [rowAt_delete_of_ne hat, Vault.put_of_ne hat]
      exact h.shows userId' name'

private theorem userId_recordUsage {now secretId : Nat} (row : Secret) :
    (if row.id = secretId then
      { row with lastUsedAt := some (millis now), usageCount := row.usageCount + 1 }
    else row).userId = row.userId := by
  split
  · rfl
  · rfl

private theorem name_recordUsage {now secretId : Nat} (row : Secret) :
    (if row.id = secretId then
      { row with lastUsedAt := some (millis now), usageCount := row.usageCount + 1 }
    else row).name = row.name := by
  split
  · rfl
  · rfl

theorem holds_recordUsage (h : Holds ciphers crypto table vault) (now secretId : Nat) :
    Holds ciphers crypto (recordUsage table now secretId) vault where
  apart := h.apart.map userId_recordUsage name_recordUsage
  shows userId name := by
    unfold recordUsage
    rw [rowAt_map userId_recordUsage name_recordUsage]
    rcases h.cases userId name with ⟨hrow, hentry⟩ | ⟨row, entry, hrow, hentry, hshows⟩
    · rw [hrow, hentry]
      exact .none
    · rw [hrow, hentry]
      refine .some ?_
      dsimp only
      split
      · exact ⟨hshows.value, hshows.provider, hshows.expiresAt⟩
      · exact hshows

/-- What `create` comes to. -/
theorem create_cases (hlawful : ciphers.Lawful) (h : Holds ciphers crypto table vault) (userId : String)
    (params : CreateSecretParams) (env : Encounter) :
    (∃ reason, create ciphers crypto table userId params env = (table, .error (.encryptionFailed reason))) ∨
    (∃ reason, env.fault = some reason ∧
      create ciphers crypto table userId params env = (table, .error (.database reason))) ∨
    (env.fault = none ∧ ∃ next secret,
      create ciphers crypto table userId params env = (next, .ok (.secret secret)) ∧
      secret.Carries ciphers crypto userId params.name
        ⟨params.value, params.provider, params.expiresAt.map millis⟩ ∧
      Holds ciphers crypto next (vault.put userId params.name
        (some ⟨params.value, params.provider, params.expiresAt.map millis⟩))) := by
  unfold create
  cases henc : crypto.encrypt ciphers env.salt env.nonce (asBytes params.value) with
  | error e =>
    unfold SecretsCrypto.encrypt at henc
    split at henc
    · cases henc
      exact .inl ⟨_, rfl⟩
    · cases henc
  | ok encrypted =>
    obtain ⟨encryptedValue, keySalt⟩ := encrypted
    cases hfault : env.fault with
    | some reason => exact .inr (.inl ⟨reason, rfl, rfl⟩)
    | none =>
      have hvalue := crypto.decrypt_encrypt hlawful henc
      have hnew : Secret.Shows ciphers crypto (createdRow userId params env encryptedValue keySalt)
          ⟨params.value, params.provider, params.expiresAt.map millis⟩ := ⟨hvalue, rfl, rfl⟩
      have hholds := holds_upsert h hnew
      have hat := @rowAt_upsert_self table (createdRow userId params env encryptedValue keySalt)
      change rowAt _ userId params.name = _ at hat
      have hshows := hholds.shows userId params.name
      rw [hat] at hshows
      simp only [hat]
      obtain ⟨-, huser, hname⟩ := mem_of_rowAt hat
      change Option.Rel _ _ (Vault.put _ userId params.name _ userId params.name) at hshows
      rw [Vault.put_self] at hshows
      cases hshows with
      | some hshows => exact .inr (.inr ⟨trivial, _, _, rfl, hshows.carries huser hname, hholds⟩)

/-- Without a fault, an operation is carried out. -/
theorem attempt_cases (table : List Secret) (env : Encounter) (done : List Secret × Reply) :
    (∃ reason, env.fault = some reason ∧ attempt table env done = (table, .error (.database reason))) ∨
      (env.fault = none ∧ attempt table env done = done) := by
  unfold attempt
  cases env.fault with
  | some reason => exact .inl ⟨reason, rfl, rfl⟩
  | none => exact .inr ⟨rfl, rfl⟩

/-- An operation that is carried out is accounted for, and leaves the table as the vault is then. -/
private theorem accounted_attempt (h : Holds ciphers crypto table vault) {operation : Operation}
    {env : Encounter} {done : List Secret × Reply}
    (hanswers : vault.Answers ciphers crypto env.now operation done.2)
    (hholds : Holds ciphers crypto done.1 (vault.after operation done.2)) :
    vault.Accounts ciphers crypto operation env (attempt table env done).2 ∧
      Holds ciphers crypto (attempt table env done).1
        (vault.after operation (attempt table env done).2) := by
  unfold Vault.Accounts
  rcases attempt_cases table env done with ⟨reason, hfault, hattempt⟩ | ⟨hfault, hattempt⟩
  · rw [hattempt, hfault]
    exact ⟨.inr rfl, h⟩
  · rw [hattempt, hfault]
    exact ⟨.inr hanswers, hholds⟩

theorem accounted_perform (hlawful : ciphers.Lawful) (h : Holds ciphers crypto table vault)
    (operation : Operation) (env : Encounter) :
    vault.Accounts ciphers crypto operation env (perform ciphers crypto table operation env).2 ∧
      Holds ciphers crypto (perform ciphers crypto table operation env).1
        (vault.after operation (perform ciphers crypto table operation env).2) := by
  cases operation with
  | create userId params =>
    rcases create_cases hlawful h userId params env with ⟨reason, hcreate⟩ | ⟨reason, hfault, hcreate⟩ |
      ⟨hfault, next, secret, hcreate, hcarries, hholds⟩
    · simp only [perform, hcreate]
      exact ⟨.inl ⟨userId, params, reason, rfl, rfl⟩, h⟩
    · simp only [perform, hcreate, Vault.Accounts, hfault]
      exact ⟨.inr trivial, h⟩
    · simp only [perform, hcreate, Vault.Accounts, hfault]
      exact ⟨.inr ⟨secret, rfl, hcarries⟩, hholds⟩
  | get userId name =>
    have hget := h.get env.now userId name
    refine accounted_attempt h ?_ ?_
    · unfold Vault.Answers
      split at hget
      · next hreadable =>
        simp only [hreadable, hget]
        rfl
      · next entry hreadable =>
        obtain ⟨secret, hsecret, hcarries⟩ := hget
        simp only [hreadable, hsecret]
        exact ⟨secret, rfl, hcarries⟩
    · cases Secrets.get table env.now userId name <;> exact h
  | getDecrypted userId name =>
    have hget := h.get env.now userId name
    have hreply : getDecrypted ciphers crypto table env.now userId name =
        (vault.readable env.now userId name).map fun entry => .decrypted entry.value := by
      unfold getDecrypted
      split at hget
      · next hreadable =>
        rw [hreadable, hget]
        rfl
      · next entry hreadable =>
        obtain ⟨secret, hsecret, hcarries⟩ := hget
        rw [hreadable, hsecret]
        change (crypto.decrypt ciphers secret.encryptedValue secret.keySalt).map _ = _
        rw [hcarries.value]
        rfl
    refine accounted_attempt h hreply ?_
    cases getDecrypted ciphers crypto table env.now userId name <;> exact h
  | existsSecret userId name =>
    refine accounted_attempt h ?_ h
    exact congrArg (fun found => Except.ok (Answer.found found)) h.isSome
  | list userId =>
    refine accounted_attempt h ⟨list table userId, rfl, list_sorted h.apart, fun ref => ?_⟩ h
    rw [mem_list h.apart]
    rcases h.cases userId ref.name with ⟨hrow, hentry⟩ | ⟨row, entry, hrow, hentry, hshows⟩
    · simp [hrow, hentry]
    · simp [hrow, hentry, hshows.provider]
  | delete userId name =>
    refine accounted_attempt h ?_ (holds_delete h)
    exact congrArg (fun found => Except.ok (Answer.deleted found)) h.isSome
  | recordUsage secretId => exact accounted_attempt h rfl (holds_recordUsage h env.now secretId)
  | isAccessible userId secretName allowedSecrets =>
    refine accounted_attempt h ?_ h
    exact congrArg (fun found => Except.ok (Answer.accessible (found && allowsSecret allowedSecrets secretName)))
      h.isSome

end Answers

section Runs

structure Call where
  operation : Operation
  env : Encounter

variable (ciphers : Ciphers) (crypto : SecretsCrypto)

def step (table : List Secret) (call : Call) : List Secret × List (Call × Reply) :=
  let next := perform ciphers crypto table call.operation call.env
  (next.1, [(call, next.2)])

/-- The vault after some calls, by the replies to them. -/
def Vault.afterAll (log : List (Call × Reply)) : Vault :=
  log.foldl (fun vault entry => vault.after entry.1.operation entry.2) Vault.empty

variable {ciphers} {crypto}

theorem holds_empty : Holds ciphers crypto [] Vault.empty where
  apart := List.nodup_nil
  shows _ _ := .none

/-- A call keeps the table to the vault that the calls have left. -/
theorem holds_step (hlawful : ciphers.Lawful) {table : List Secret} {log : List (Call × Reply)} (call : Call)
    (h : Holds ciphers crypto table (Vault.afterAll log)) :
    Holds ciphers crypto (step ciphers crypto table call).1
      (Vault.afterAll (log ++ (step ciphers crypto table call).2)) := by
  have hholds := (accounted_perform hlawful h call.operation call.env).2
  unfold Vault.afterAll at hholds ⊢
  rw [List.foldl_append]
  exact hholds

/-- A call is answered from the vault that the calls before it have left. -/
theorem accounted_step (hlawful : ciphers.Lawful) {table : List Secret} {log : List (Call × Reply)} (call : Call)
    (h : Holds ciphers crypto table (Vault.afterAll log)) :
    Always (fun before entry =>
        (Vault.afterAll (log ++ before)).Accounts ciphers crypto entry.1.operation entry.1.env entry.2)
      (step ciphers crypto table call).2 := by
  refine always_singleton ?_
  rw [List.append_nil]
  exact (accounted_perform hlawful h call.operation call.env).1

/-- Whatever users ask for in whatever order, every reply is that of the vault which the calls before it
have left: the latest value that was stored, until it is deleted or has expired. -/
theorem replies_from_vault (hlawful : ciphers.Lawful) (calls : List Call) :
    Always (fun before entry =>
        (Vault.afterAll before).Accounts ciphers crypto entry.1.operation entry.1.env entry.2)
      (run (step ciphers crypto) [] calls).2 := by
  refine run_always (fun table log => Holds ciphers crypto table (Vault.afterAll log)) holds_empty ?_ ?_ calls
  · intro table log call h
    exact holds_step hlawful call h
  · intro table log call h
    exact accounted_step hlawful call h

/-- Whether an operation changes what a user keeps under a name. -/
def Operation.writes (userId name : String) : Operation → Bool
  | .create userId' params => userId' == userId && params.name == name
  | .delete userId' name' => userId' == userId && name' == name
  | _ => false

/-- Until the name is written again, a value is what the user reads under it. -/
def ReadsBack (userId name value : String) (log : List (Call × Reply)) : Prop :=
  ∀ between env reply after, log = between ++ (⟨.getDecrypted userId name, env⟩, reply) :: after →
    (∀ entry ∈ between, entry.1.operation.writes userId name = false) → env.fault = none →
      reply = .ok (.decrypted value)

theorem Vault.after_of_not_writes {vault : Vault} {userId name : String} {operation : Operation}
    (h : operation.writes userId name = false) (reply : Reply) :
    vault.after operation reply userId name = vault userId name := by
  cases reply with
  | error e => rfl
  | ok answer =>
    cases operation with
    | create userId' params => exact Vault.put_of_ne (by simpa [Operation.writes] using h)
    | delete userId' name' => exact Vault.put_of_ne (by simpa [Operation.writes] using h)
    | _ => rfl

/-- A value that has been stored without an expiry is read back. -/
theorem readsBack_of_created {userId : String} {params : CreateSecretParams} {env : Encounter}
    {answer : Answer} {before log : List (Call × Reply)} (hexpires : params.expiresAt = none)
    (h : Always (fun before entry =>
        (Vault.afterAll before).Accounts ciphers crypto entry.1.operation entry.1.env entry.2)
      (before ++ (⟨.create userId params, env⟩, .ok answer) :: log)) :
    ReadsBack userId params.name params.value log := by
  intro between env' reply after hlog hquiet hfault
  subst hlog
  have hcreated : Vault.afterAll (before ++ (⟨.create userId params, env⟩, .ok answer) :: between)
      userId params.name = some ⟨params.value, params.provider, none⟩ := by
    unfold Vault.afterAll
    rw [List.foldl_append, List.foldl_cons]
    generalize List.foldl _ Vault.empty before = vault
    have hput : (vault.after (.create userId params) (.ok answer)) userId params.name =
        some ⟨params.value, params.provider, none⟩ := by
      change vault.put userId params.name _ userId params.name = _
      rw [Vault.put_self, hexpires]
      rfl
    generalize vault.after (.create userId params) (.ok answer) = vault' at hput
    clear h
    induction between generalizing vault' with
    | nil => exact hput
    | cons entry between ih =>
      rw [List.foldl_cons]
      refine ih (fun e he => hquiet e (List.mem_cons_of_mem _ he)) _ ?_
      rw [Vault.after_of_not_writes (hquiet entry List.mem_cons_self)]
      exact hput
  have haccounts := h (before ++ (⟨.create userId params, env⟩, .ok answer) :: between)
    (⟨.getDecrypted userId params.name, env'⟩, reply) after (by simp)
  rcases haccounts with ⟨userId', params', reason, hoperation, -⟩ | hanswers
  · cases hoperation
  · simp only [hfault] at hanswers
    change reply = _ at hanswers
    rw [hanswers, Vault.readable, hcreated]
    rfl

/-- A cipher of one byte, with that byte as its tag. -/
def oneByte : Ciphers where
  hkdf salt master := salt ++ master
  encrypt key _ plaintext := .ok (plaintext.map (· ^^^ key.head?.getD 0) ++ List.replicate tagSize (key.head?.getD 0))
  decrypt key _ ciphertext :=
    let length := ciphertext.length - tagSize
    if ciphertext.drop length = List.replicate tagSize (key.head?.getD 0) then
      .ok ((ciphertext.take length).map (· ^^^ key.head?.getD 0))
    else .error "aead::Error"

theorem oneByte_lawful : oneByte.Lawful := by
  refine ⟨fun key nonce plaintext ciphertext h => ?_, fun key nonce plaintext ciphertext h => ?_⟩
  · cases h
    have hundone : ((fun b => b ^^^ key.head?.getD 0) ∘ fun b : UInt8 => b ^^^ key.head?.getD 0) = id := by
      funext b
      change (b ^^^ key.head?.getD 0) ^^^ key.head?.getD 0 = b
      rw [UInt8.xor_assoc, UInt8.xor_self, UInt8.xor_zero]
    simp [oneByte, hundone]
  · cases h
    simp

def sevens : SecretsCrypto := ⟨List.replicate 32 7, by decide⟩

def quietly (id now : Nat) : Encounter := ⟨none, now, id, [3], ⟨List.replicate 12 5, by decide⟩⟩

/-- Two users store a secret of one name, and one of them stores it again. -/
private def rotation : List Call :=
  [⟨.create "ann" ⟨"api_key", "one", none, none⟩, quietly 1 10⟩,
    ⟨.create "ben" ⟨"api_key", "other", none, none⟩, quietly 2 20⟩,
    ⟨.create "ann" ⟨"api_key", "two", some "provider", some 2000000000⟩, quietly 3 30⟩,
    ⟨.getDecrypted "ann" "api_key", quietly 4 2000000000⟩]

theorem rotated_from_vault :
    (run (step oneByte sevens) [] rotation).2.getLast?.map (·.2) = some (.ok (.decrypted "two")) ∧
      Always (fun before entry =>
          (Vault.afterAll before).Accounts oneByte sevens entry.1.operation entry.1.env entry.2)
        (run (step oneByte sevens) [] rotation).2 :=
  ⟨by decide +kernel, replies_from_vault oneByte_lawful rotation⟩

end Runs

section Users

variable {ciphers : Ciphers} {crypto : SecretsCrypto} {table : List Secret} {userId name : String}

/-- An operation for a user, or on a secret that is given by its id. -/
def Operation.concerns (userId : String) : Operation → Bool
  | .create userId' _ | .get userId' _ | .getDecrypted userId' _ | .existsSecret userId' _ | .list userId'
  | .delete userId' _ | .isAccessible userId' _ _ => userId' == userId
  | .recordUsage _ => true

/-- The rows of a user. -/
def ofUser (userId : String) (table : List Secret) : List Secret :=
  table.filter fun row => row.userId == userId

theorem rowAt_ofUser : rowAt (ofUser userId table) userId name = rowAt table userId name := by
  unfold rowAt ofUser
  rw [List.find?_filter]
  congr 1
  funext row
  rw [Bool.eq_iff_iff]
  simp [Secret.isAt]

theorem ofUser_map {f : Secret → Secret} (huser : ∀ row, (f row).userId = row.userId) :
    ofUser userId (table.map f) = (ofUser userId table).map f := by
  have hkept : (fun row : Secret => row.userId == userId) ∘ f = fun row => row.userId == userId := by
    funext row
    simp only [Function.comp, huser]
  unfold ofUser
  rw [List.filter_map, hkept]

theorem ofUser_upsert {new : Secret} (h : new.userId = userId) :
    ofUser userId (upsert table new) = upsert (ofUser userId table) new := by
  have hsame := @rowAt_ofUser table userId new.name
  unfold upsert
  rw [h, hsame]
  split
  · have hupdate := @ofUser_map table userId _ (@userId_update new)
    rw [h] at hupdate
    exact hupdate
  · unfold ofUser
    rw [List.filter_append, List.filter_singleton, h]
    simp

theorem ofUser_upsert_of_ne {new : Secret} (h : new.userId ≠ userId) :
    ofUser userId (upsert table new) = ofUser userId table := by
  unfold upsert
  split
  · rw [ofUser_map userId_update]
    refine (List.map_congr_left fun row hrow => ?_).trans (List.map_id _)
    have huser : row.userId = userId := by simpa using (List.mem_filter.mp hrow).2
    have hat : row.isAt new.userId new.name = false := by
      rw [Bool.eq_false_iff, Ne, Secret.isAt_iff, huser]
      exact fun heq => h heq.1.symm
    simp [hat]
  · unfold ofUser
    rw [List.filter_append, List.filter_singleton, beq_false_of_ne h]
    exact List.append_nil _

theorem list_ofUser : list (ofUser userId table) userId = list table userId := by
  unfold list ofUser
  rw [List.filter_filter]
  simp only [Bool.and_self]

theorem get_ofUser (now : Nat) :
    Secrets.get (ofUser userId table) now userId name = Secrets.get table now userId name := by
  unfold Secrets.get
  rw [rowAt_ofUser]

theorem ofUser_delete {userId' : String} :
    ofUser userId (table.filter fun row => !row.isAt userId' name) =
      (ofUser userId table).filter fun row => !row.isAt userId' name := by
  unfold ofUser
  rw [List.filter_filter, List.filter_filter]
  simp only [Bool.and_comm]

theorem ofUser_delete_of_ne {userId' : String} (h : userId' ≠ userId) :
    ofUser userId (table.filter fun row => !row.isAt userId' name) = ofUser userId table := by
  rw [ofUser_delete]
  refine List.filter_eq_self.mpr fun row hrow => ?_
  have huser : row.userId = userId := by simpa using (List.mem_filter.mp hrow).2
  have hat : row.isAt userId' name = false := by
    rw [Bool.eq_false_iff, Ne, Secret.isAt_iff, huser]
    exact fun heq => h heq.1.symm
  rw [hat]
  rfl

/-- An attempt on the rows of a user, when what is attempted goes on there alone. -/
private theorem attempt_ofUser {env : Encounter} {done done' : List Secret × Reply}
    (h : ofUser userId done.1 = done'.1 ∧ done.2 = done'.2) :
    ofUser userId (attempt table env done).1 = (attempt (ofUser userId table) env done').1 ∧
      (attempt table env done).2 = (attempt (ofUser userId table) env done').2 := by
  unfold attempt
  cases env.fault with
  | some reason => exact ⟨rfl, rfl⟩
  | none => exact h

private theorem attempt_kept {env : Encounter} {done : List Secret × Reply}
    (h : ofUser userId done.1 = ofUser userId table) :
    ofUser userId (attempt table env done).1 = ofUser userId table := by
  unfold attempt
  cases env.fault with
  | some reason => rfl
  | none => exact h

private theorem create_ofUser (params : CreateSecretParams) (env : Encounter) :
    ofUser userId (create ciphers crypto table userId params env).1 =
        (create ciphers crypto (ofUser userId table) userId params env).1 ∧
      (create ciphers crypto table userId params env).2 =
        (create ciphers crypto (ofUser userId table) userId params env).2 := by
  unfold create
  split
  · exact ⟨rfl, rfl⟩
  · split
    · exact ⟨rfl, rfl⟩
    · next encryptedValue keySalt _ _ _ =>
      have hrows := @ofUser_upsert table userId (createdRow userId params env encryptedValue keySalt) rfl
      simp only [← hrows, rowAt_ofUser]
      split
      · exact ⟨rfl, rfl⟩
      · exact ⟨rfl, rfl⟩

private theorem create_kept {userId' : String} (h : userId' ≠ userId) (params : CreateSecretParams)
    (env : Encounter) :
    ofUser userId (create ciphers crypto table userId' params env).1 = ofUser userId table := by
  unfold create
  split
  · rfl
  · split
    · rfl
    · simp only
      split
      · rfl
      · exact ofUser_upsert_of_ne h

/-- An operation that concerns a user looks at nothing but the rows of the user. -/
private theorem perform_concerning {operation : Operation} (h : operation.concerns userId = true)
    (env : Encounter) :
    ofUser userId (perform ciphers crypto table operation env).1 =
        (perform ciphers crypto (ofUser userId table) operation env).1 ∧
      (perform ciphers crypto table operation env).2 =
        (perform ciphers crypto (ofUser userId table) operation env).2 := by
  cases operation with
  | recordUsage secretId => exact attempt_ofUser ⟨ofUser_map userId_recordUsage, rfl⟩
  | create userId' params =>
    obtain rfl : userId' = userId := by simpa [Operation.concerns] using h
    exact create_ofUser params env
  | get userId' name =>
    obtain rfl : userId' = userId := by simpa [Operation.concerns] using h
    exact attempt_ofUser ⟨rfl, congrArg (Except.map Answer.secret) (get_ofUser env.now).symm⟩
  | getDecrypted userId' name =>
    obtain rfl : userId' = userId := by simpa [Operation.concerns] using h
    refine attempt_ofUser ⟨rfl, ?_⟩
    simp only [getDecrypted, get_ofUser]
  | existsSecret userId' name =>
    obtain rfl : userId' = userId := by simpa [Operation.concerns] using h
    refine attempt_ofUser ⟨rfl, ?_⟩
    simp only [rowAt_ofUser]
  | list userId' =>
    obtain rfl : userId' = userId := by simpa [Operation.concerns] using h
    refine attempt_ofUser ⟨rfl, ?_⟩
    simp only [list_ofUser]
  | delete userId' name =>
    obtain rfl : userId' = userId := by simpa [Operation.concerns] using h
    refine attempt_ofUser ⟨ofUser_delete, ?_⟩
    simp only [rowAt_ofUser]
  | isAccessible userId' secretName allowedSecrets =>
    obtain rfl : userId' = userId := by simpa [Operation.concerns] using h
    refine attempt_ofUser ⟨rfl, ?_⟩
    simp only [rowAt_ofUser]

/-- An operation of another user leaves the rows of a user as they are. -/
private theorem perform_of_another {operation : Operation} (h : operation.concerns userId = false)
    (env : Encounter) :
    ofUser userId (perform ciphers crypto table operation env).1 = ofUser userId table := by
  cases operation with
  | recordUsage secretId => cases h
  | create userId' params => exact create_kept (by simpa [Operation.concerns] using h) params env
  | delete userId' name =>
    exact attempt_kept (ofUser_delete_of_ne (by simpa [Operation.concerns] using h))
  | _ => exact attempt_kept rfl

/-- A user's replies are what they would be if no other user had ever called. -/
theorem users_apart (ciphers : Ciphers) (crypto : SecretsCrypto) (userId : String) (calls : List Call) :
    (run (step ciphers crypto) [] calls).2.filter (fun entry => entry.1.operation.concerns userId) =
      (run (step ciphers crypto) [] (calls.filter fun call => call.operation.concerns userId)).2 := by
  refine run_purge (ofUser userId) ?_ ?_ [] calls
  · intro table call hother
    refine ⟨perform_of_another hother call.env, ?_⟩
    exact List.filter_cons_of_neg (by simp [hother])
  · intro table call hconcerns
    obtain ⟨hrows, hreply⟩ :=
      @perform_concerning ciphers crypto table userId call.operation hconcerns call.env
    refine ⟨hrows, ?_⟩
    simp only [step, hreply]
    exact List.filter_cons_of_pos hconcerns

end Users

end Gyre.Secrets
