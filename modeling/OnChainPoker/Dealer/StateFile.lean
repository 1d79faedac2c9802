import Mathlib.Data.Finset.Basic
import OnChainPoker.Foundation.Bytes
import OnChainPoker.Foundation.Result

/-!
# The state files of the daemon

`EpochStateStore` writes files with a version byte in front and still reads the ones from
before, which begin with the salt.  It takes a file for a new one if its first byte is the
version, and so it misreads the old files whose salt happens to begin with that byte.
-/

namespace OnChainPoker.Dealer

open Foundation

abbrev Salt := {b : Bytes // b.length = 16}

abbrev Iv := {b : Bytes // b.length = 12}

/-- What the store calls and does not contain: JSON, the key derivations and AES-GCM, which
decrypts what it has encrypted under the same key and nonce and nothing else. -/
structure StateRuntime (Secrets : Type) where
  epochId : Secrets → Nat
  stringify : Secrets → Bytes
  stringifyIndented : Secrets → Bytes
  parse : Bytes → Except String Secrets
  deriveKey : String → Bytes → Bytes
  sha256 : Bytes → Bytes
  encrypt : Bytes → Bytes → Bytes → Bytes × Bytes
  decrypt : Bytes → Bytes → Bytes → Bytes → Option Bytes
  parse_stringify : ∀ v, parse (stringify v) = .ok v
  stringify_ne : ∀ v, stringify v ≠ []
  decrypt_iff : ∀ key iv ciphertext tag text,
    decrypt key iv ciphertext tag = some text ↔ encrypt key iv text = (ciphertext, tag)
  ciphertext_length : ∀ key iv text, (encrypt key iv text).1.length = text.length
  tag_length : ∀ key iv text, (encrypt key iv text).2.length = 16

structure EpochStateStore (Secrets : Type) where
  passphrase : String
  files : Nat → Option Bytes
  cache : Nat → Option Secrets
  legacyEpochs : Finset Nat

def versionV2 : UInt8 := 0x02

def v1HeaderLen : Nat := 16 + 12 + 16

namespace StateRuntime

variable {Secrets : Type} (R : StateRuntime Secrets)

def deriveKeyLegacy (passphrase : String) (salt : Bytes) : Bytes :=
  R.sha256 (stringBytes passphrase ++ salt)

/-- `salt(16) || iv(12) || tag(16) || ciphertext` -/
def encryptFields (deriveKey : Bytes → Bytes) (data : Secrets) (salt : Salt) (iv : Iv) :
    Bytes :=
  let (encrypted, tag) := R.encrypt (deriveKey salt) iv (R.stringify data)
  salt.1 ++ (iv.1 ++ (tag ++ encrypted))

def encryptJsonV2 (data : Secrets) (passphrase : String) (salt : Salt) (iv : Iv) : Bytes :=
  versionV2 :: R.encryptFields (R.deriveKey passphrase) data salt iv

def encryptJsonV1 (data : Secrets) (passphrase : String) (salt : Salt) (iv : Iv) : Bytes :=
  R.encryptFields (R.deriveKeyLegacy passphrase) data salt iv

def decryptFields (deriveKey : Bytes → Bytes) (data : Bytes) : Except String Secrets := do
  let salt := data.take 16
  let iv := (data.drop 16).take 12
  let tag := (data.drop 28).take 16
  let ciphertext := data.drop 44
  let decrypted ← require (R.decrypt (deriveKey salt) iv ciphertext tag)
    "Unsupported state or unable to authenticate data"
  R.parse decrypted

def decryptJsonV2 (data : Bytes) (passphrase : String) : Except String Secrets :=
  R.decryptFields (R.deriveKey passphrase) (data.drop 1)

def decryptJsonV1 (data : Bytes) (passphrase : String) : Except String Secrets :=
  R.decryptFields (R.deriveKeyLegacy passphrase) data

def decryptJson (data : Bytes) (passphrase : String) : Except String (Secrets × Bool) :=
  if data.head? = some versionV2 then do
    let value ← R.decryptJsonV2 data passphrase
    pure (value, false)
  else if data.length ≥ v1HeaderLen + 1 then do
    let value ← R.decryptJsonV1 data passphrase
    pure (value, true)
  else .error "state blob is too short to be a valid v1 or v2 ciphertext"

/-- Without a passphrase the files are not encrypted. -/
def readState (raw : Bytes) (passphrase : String) : Except String (Secrets × Bool) :=
  if passphrase ≠ "" then R.decryptJson raw passphrase
  else do
    let secrets ← R.parse raw
    pure (secrets, false)

variable (store : EpochStateStore Secrets)

/-- The salt and the nonce are drawn at random. -/
def save (secrets : Secrets) (salt : Salt) (iv : Iv) : EpochStateStore Secrets :=
  let epochId := R.epochId secrets
  let blob := if store.passphrase ≠ "" then R.encryptJsonV2 secrets store.passphrase salt iv
    else R.stringifyIndented secrets
  { store with
    files := Function.update store.files epochId (some blob)
    cache := Function.update store.cache epochId (some secrets)
    legacyEpochs := store.legacyEpochs.erase epochId }

def load (epochId : Nat) : Except String (Option Secrets × EpochStateStore Secrets) :=
  match store.cache epochId, store.files epochId with
  | some cached, _ => .ok (some cached, store)
  | none, none => .ok (none, store)
  | none, some raw => do
      let (secrets, wasLegacy) ← R.readState raw store.passphrase
      pure (some secrets, { store with
        cache := Function.update store.cache epochId (some secrets)
        legacyEpochs := if wasLegacy then insert epochId store.legacyEpochs
          else store.legacyEpochs })

def started (passphrase : String) (files : Nat → Option Bytes) : EpochStateStore Secrets :=
  ⟨passphrase, files, fun _ => none, ∅⟩

def Loads (passphrase : String) (files : Nat → Option Bytes) (v : Secrets) : Prop :=
  ∃ store, R.load (started passphrase files) (R.epochId v) = .ok (some v, store)

variable {R}

theorem decryptFields_encryptFields (deriveKey : Bytes → Bytes) (v : Secrets) (salt : Salt)
    (iv : Iv) : R.decryptFields deriveKey (R.encryptFields deriveKey v salt iv) = .ok v := by
  have htag := R.tag_length (deriveKey salt) iv (R.stringify v)
  have hopens := (R.decrypt_iff (deriveKey salt) iv _ _ (R.stringify v)).mpr rfl
  have h28 : (salt.1 ++ iv.1).length = 28 := by rw [List.length_append, salt.2, iv.2]
  have h44 : (salt.1 ++ iv.1 ++ (R.encrypt (deriveKey salt) iv (R.stringify v)).2).length = 44 := by
    rw [List.length_append, h28, htag]
  rw [decryptFields, encryptFields]
  dsimp only
  rw [List.take_left' salt.2, List.drop_left' salt.2, List.take_left' iv.2,
    ← List.append_assoc salt.1, List.drop_left' h28, List.take_left' htag,
    ← List.append_assoc (salt.1 ++ iv.1), List.drop_left' h44, hopens]
  exact R.parse_stringify v

theorem loads_iff {passphrase : String} {files : Nat → Option Bytes} {v : Secrets}
    {raw : Bytes} (hfile : files (R.epochId v) = some raw) :
    R.Loads passphrase files v ↔ (passphrase = "" → R.parse raw = .ok v) ∧
      (passphrase ≠ "" → ∃ wasLegacy, R.decryptJson raw passphrase = .ok (v, wasLegacy)) := by
  have hread : R.Loads passphrase files v ↔
      ∃ wasLegacy, R.readState raw passphrase = .ok (v, wasLegacy) := by
    simp only [Loads, load, started, hfile, ok_iff]
    constructor
    · rintro ⟨_, ⟨_, wasLegacy⟩, hread, hpair⟩
      cases hpair
      exact ⟨wasLegacy, hread⟩
    · rintro ⟨wasLegacy, hread⟩
      exact ⟨_, _, hread, rfl⟩
  rw [hread, readState]
  split <;> simp_all

theorem load_passphrase {store store' : EpochStateStore Secrets} {epochId : Nat}
    {found : Option Secrets} (hok : R.load store epochId = .ok (found, store')) :
    store'.passphrase = store.passphrase := by
  unfold load at hok
  split at hok
  · cases hok
    rfl
  · cases hok
    rfl
  · simp only [ok_iff] at hok
    obtain ⟨_, _, hpair⟩ := hok
    cases hpair
    rfl

/-- A started daemon reads every new file.  It reads an old one except where the salt begins
with the version byte and the file makes no sense as a new one.  What it has read it writes
to a new file. -/
theorem state_file_loads_iff (R : StateRuntime Secrets) (v : Secrets) (passphrase : String)
    (salt : Salt) (iv : Iv) (files : Nat → Option Bytes) :
    (files (R.epochId v) = some (R.encryptJsonV2 v passphrase salt iv) →
      (R.Loads passphrase files v ↔
        (passphrase = "" → R.parse (R.encryptJsonV2 v passphrase salt iv) = .ok v))) ∧
    (files (R.epochId v) = some (R.encryptJsonV1 v passphrase salt iv) →
      (R.Loads passphrase files v ↔
        (passphrase = "" → R.parse (R.encryptJsonV1 v passphrase salt iv) = .ok v) ∧
        (passphrase ≠ "" → salt.1.head? = some versionV2 →
          R.decryptJsonV2 (R.encryptJsonV1 v passphrase salt iv) passphrase = .ok v))) ∧
    ∀ store, R.load (started passphrase files) (R.epochId v) = .ok (some v, store) →
      passphrase ≠ "" → ∀ salt' iv', (R.save store v salt' iv').files (R.epochId v) =
          some (R.encryptJsonV2 v passphrase salt' iv') ∧
        R.Loads passphrase (R.save store v salt' iv').files v := by
  have hnew {files : Nat → Option Bytes} {salt : Salt} {iv : Iv}
      (hfile : files (R.epochId v) = some (R.encryptJsonV2 v passphrase salt iv)) :
      R.Loads passphrase files v ↔
        (passphrase = "" → R.parse (R.encryptJsonV2 v passphrase salt iv) = .ok v) := by
    have hread : R.decryptJson (R.encryptJsonV2 v passphrase salt iv) passphrase =
        .ok (v, false) := by
      rw [decryptJson, encryptJsonV2, List.head?_cons, if_pos rfl, decryptJsonV2,
        List.drop_one, List.tail_cons, decryptFields_encryptFields]
      rfl
    rw [loads_iff hfile, and_iff_left fun _ => ⟨false, hread⟩]
  refine ⟨hnew, fun hfile => ?_, ?_⟩
  · rw [loads_iff hfile]
    refine and_congr_right fun _ => forall_congr' fun _ => ?_
    have hhead : (R.encryptJsonV1 v passphrase salt iv).head? = salt.1.head? :=
      List.head?_append_of_ne_nil _ (List.ne_nil_of_length_pos (by rw [salt.2]; decide))
    have hlong : v1HeaderLen + 1 ≤ (R.encryptJsonV1 v passphrase salt iv).length := by
      have hpos := List.length_pos_iff.mpr (R.stringify_ne v)
      simp only [encryptJsonV1, encryptFields, List.length_append, salt.2, iv.2, R.tag_length,
        R.ciphertext_length, v1HeaderLen]
      omega
    rw [decryptJson, hhead]
    by_cases hfirst : salt.1.head? = some versionV2
    · simp [hfirst]
    · rw [if_neg hfirst, if_pos hlong, decryptJsonV1, encryptJsonV1,
        decryptFields_encryptFields]
      simp [hfirst]
  · intro store hload hpass salt' iv'
    have hstore : store.passphrase = passphrase := load_passphrase hload
    have hfile : (R.save store v salt' iv').files (R.epochId v) =
        some (R.encryptJsonV2 v passphrase salt' iv') := by
      simp [save, hstore, hpass]
    exact ⟨hfile, (hnew hfile).mpr fun hempty => absurd hempty hpass⟩

end StateRuntime

def plainRuntime : StateRuntime Nat where
  epochId v := v
  stringify v := List.replicate (v + 1) 0
  stringifyIndented v := List.replicate (v + 1) 0
  parse b := .ok (b.length - 1)
  deriveKey _ _ := [2]
  sha256 _ := [1]
  encrypt key _ text := (text, List.replicate 16 (key.headD 0))
  decrypt key _ ciphertext tag :=
    if tag = List.replicate 16 (key.headD 0) then some ciphertext else none
  parse_stringify v := by simp
  stringify_ne v := by simp
  decrypt_iff key iv ciphertext tag text := by
    split <;> simp_all [eq_comm]
  ciphertext_length _ _ _ := rfl
  tag_length _ _ _ := by simp

def versionSalt : Salt := ⟨versionV2 :: List.replicate 15 0, rfl⟩

def zeroIv : Iv := ⟨List.replicate 12 0, rfl⟩

theorem versionSalt_misread :
    plainRuntime.load (StateRuntime.started "secret" fun _ =>
      some (plainRuntime.encryptJsonV1 0 "secret" versionSalt zeroIv)) 0 =
      .error "Unsupported state or unable to authenticate data" := by
  rfl

end OnChainPoker.Dealer
