import Varco.Foundations.Dict
import Varco.Foundations.Text

/-!
# Encryptors and their registries

The encryptors of `varco_core.encryption`. `Fernet` is the cipher of the `cryptography` package, of
which only this is used: a token is decrypted by the key that made it and by no other, and it is
base64 text that starts with the letter `g` (`Fernet.Lawful`). Encryption draws randomness, which is
an argument here. A key stands for its 32 bytes; the base64 text that it is handed over as is left
out.

`MultiKeyEncryptorRegistry` writes the identifier of the key in front of the ciphertext;
`TenantAwareEncryptorRegistry` and `ScopedEncryptorRegistry` pass on to the encryptor of a context.
-/

namespace Varco

/-! ## Exceptions -/

/-- `"encrypt"` or `"decrypt"` -/
inductive CipherOperation
  | encrypt
  | decrypt
  deriving DecidableEq

/-- What encryptors and their registries raise. -/
inductive EncryptionExc
  /-- `EncryptionError` -/
  | encryptionError (message : String) (operation : CipherOperation) (context : Option String)
  /-- `KeyDestroyedError` -/
  | keyDestroyedError (message : String) (operation : CipherOperation)
      (context kid scope : Option String)
  /-- `UnicodeDecodeError`, whose text is left out. -/
  | unicodeDecodeError
  /-- An exception that is not of this module. -/
  | other (e : PyException)
  deriving DecidableEq

/-- `KeyError(message)`, whose `str()` is the `repr()` of its argument. -/
def EncryptionExc.keyError (message : String) : EncryptionExc :=
  .other ⟨"KeyError", pyRepr message⟩

/-- `repr()` of a string or `None`. -/
def reprOption : Option String → String
  | none => "None"
  | some s => pyRepr s

/-- `repr()` of a list of strings. -/
def reprList (l : List String) : String := "[" ++ ", ".intercalate (l.map pyRepr) ++ "]"

/-- The structural protocol `FieldEncryptor`, with the randomness of `encrypt`. -/
class FieldEncryptor (E : Type) where
  encrypt : E → Bytes → Option String → Bytes → Except EncryptionExc Bytes
  decrypt : E → Bytes → Option String → Except EncryptionExc Bytes

/-! ## `FernetFieldEncryptor` -/

/-- The cipher: `encrypt key random plaintext` and `decrypt key token`. -/
structure Fernet where
  encrypt : Bytes → Bytes → Bytes → Bytes
  decrypt : Bytes → Bytes → Option Bytes

/-- What is relied on: the key that made a token decrypts it and no other key does, a token is the
base64 text of bytes that start with the version `0x80`, and no bytes are no token. -/
structure Fernet.Lawful (F : Fernet) : Prop where
  decrypt_encrypt : ∀ key random plaintext,
    F.decrypt key (F.encrypt key random plaintext) = some plaintext
  decrypt_ne : ∀ key key' random plaintext, key' ≠ key →
    F.decrypt key' (F.encrypt key random plaintext) = none
  head : ∀ key random plaintext, (F.encrypt key random plaintext).head? = some 0x67
  decrypt_nil : ∀ key, F.decrypt key [] = none

def Fernet.unseal : Bytes → Bytes → Option Bytes
  | [], 0 :: plaintext => some plaintext
  | b :: key, 1 :: b' :: token => if b = b' then Fernet.unseal key token else none
  | _, _ => none

def Fernet.plain : Fernet where
  encrypt key _ plaintext := 0x67 :: (key.flatMap fun b => [1, b]) ++ 0 :: plaintext
  decrypt key token := Fernet.unseal key token.tail

theorem Fernet.unseal_self (key plaintext : Bytes) :
    Fernet.unseal key ((key.flatMap fun b => [1, b]) ++ 0 :: plaintext) = some plaintext := by
  induction key with
  | nil => rfl
  | cons b key ih => simpa [Fernet.unseal] using ih

theorem Fernet.unseal_ne {key key' : Bytes} (h : key' ≠ key) (plaintext : Bytes) :
    Fernet.unseal key' ((key.flatMap fun b => [1, b]) ++ 0 :: plaintext) = none := by
  induction key generalizing key' with
  | nil =>
    cases key' with
    | nil => exact absurd rfl h
    | cons b key' => simp [Fernet.unseal]
  | cons b key ih =>
    cases key' with
    | nil => simp [Fernet.unseal]
    | cons b' key' =>
      by_cases hb : b' = b
      · subst hb
        simpa [Fernet.unseal] using ih fun heq => h (by rw [heq])
      · simp [Fernet.unseal, hb]

theorem Fernet.plain_lawful : Fernet.plain.Lawful where
  decrypt_encrypt key _ plaintext := Fernet.unseal_self key plaintext
  decrypt_ne _ _ _ plaintext h := Fernet.unseal_ne h plaintext
  head _ _ _ := rfl
  decrypt_nil key := by cases key <;> rfl

/-- `FernetFieldEncryptor`: its key. -/
structure FernetFieldEncryptor (F : Fernet) where
  key : Bytes
  length_key : key.length = 32

namespace FernetFieldEncryptor

variable {F : Fernet}

theorem length_replicate_key (b : UInt8) : (List.replicate 32 b).length = 32 :=
  List.length_replicate

instance : DecidableEq (FernetFieldEncryptor F) := fun a b =>
  decidable_of_iff (a.key = b.key) (by cases a; cases b; simp)

/-- `FernetFieldEncryptor(key)`, of the bytes of a key. -/
def new (key : Bytes) : Except EncryptionExc (FernetFieldEncryptor F) :=
  if h : key.length = 32 then .ok ⟨key, h⟩
  else .error (.other (.valueError "Fernet key must be 32 url-safe base64-encoded bytes."))

def encrypt (e : FernetFieldEncryptor F) (plaintext random : Bytes) : Bytes :=
  F.encrypt e.key random plaintext

def decrypt (e : FernetFieldEncryptor F) (ciphertext : Bytes) (context : Option String) :
    Except EncryptionExc Bytes :=
  match F.decrypt e.key ciphertext with
  | some plaintext => .ok plaintext
  | none =>
    .error (.encryptionError "Fernet decryption failed — wrong key or tampered ciphertext." .decrypt
      context)

instance : FieldEncryptor (FernetFieldEncryptor F) where
  encrypt e plaintext _ random := .ok (e.encrypt plaintext random)
  decrypt := decrypt

end FernetFieldEncryptor

/-! ## The wire format -/

/-- `kid.encode("utf-8")` -/
def encodeKid (kid : String) : Bytes := kid.toByteArray.data.toList

/-- `bytes.decode("utf-8")` -/
def decodeKid (bytes : Bytes) : Option String := String.fromUTF8? ⟨bytes.toArray⟩

/-- `_KID_LEN_STRUCT.pack(n)`: four bytes, the highest first. -/
def packLength (n : ℕ) : Bytes :=
  [UInt8.ofNat (n / 2 ^ 24), UInt8.ofNat (n / 2 ^ 16), UInt8.ofNat (n / 2 ^ 8), UInt8.ofNat n]

/-- `_KID_LEN_STRUCT.unpack(bytes)` -/
def unpackLength (bytes : Bytes) : ℕ := bytes.foldl (fun n b => 256 * n + b.toNat) 0

/-- `_pack_ciphertext`, for a key identifier of less than 4 GiB. -/
def packCiphertext (kid : String) (rawCiphertext : Bytes) : Bytes :=
  packLength (encodeKid kid).length ++ encodeKid kid ++ rawCiphertext

def unpackCiphertext (framed : Bytes) : Except EncryptionExc (String × Bytes) :=
  let headerSize := 4
  if framed.length < headerSize then
    .error (.encryptionError
      (s!"Ciphertext is too short to contain a kid header " ++
        s!"(got {framed.length} bytes, expected at least {headerSize}).") .decrypt none)
  else
    let kidLen := unpackLength (framed.take headerSize)
    let totalHeader := headerSize + kidLen
    if framed.length < totalHeader then
      .error (.encryptionError
        (s!"Ciphertext header declares kid_len={kidLen} but only " ++
          s!"{framed.length - headerSize} bytes follow the length field.") .decrypt none)
    else
      match decodeKid ((framed.take totalHeader).drop headerSize) with
      | none => .error .unicodeDecodeError
      | some kid => .ok (kid, framed.drop totalHeader)

theorem decodeKid_encodeKid (kid : String) : decodeKid (encodeKid kid) = some kid := by
  unfold decodeKid encodeKid String.fromUTF8?
  rw [Array.toArray_toList, dif_pos kid.isValidUTF8]
  rfl

theorem unpackLength_packLength {n : ℕ} (h : n < 2 ^ 32) : unpackLength (packLength n) = n := by
  simp [unpackLength, packLength]
  omega

/-- **The frame**: what was packed is unpacked. -/
theorem unpackCiphertext_packCiphertext {kid : String} (h : (encodeKid kid).length < 2 ^ 32)
    (rawCiphertext : Bytes) :
    unpackCiphertext (packCiphertext kid rawCiphertext) = .ok (kid, rawCiphertext) := by
  have hpack : (packLength (encodeKid kid).length).length = 4 := rfl
  have hheader : (packCiphertext kid rawCiphertext).take 4 =
      packLength (encodeKid kid).length := by
    rw [packCiphertext, List.append_assoc, List.take_left' hpack]
  have hboth : (packLength (encodeKid kid).length ++ encodeKid kid).length =
      4 + (encodeKid kid).length := by
    rw [List.length_append, hpack]
  have hkid : ((packCiphertext kid rawCiphertext).take (4 + (encodeKid kid).length)).drop 4 =
      encodeKid kid := by
    rw [packCiphertext, List.take_left' hboth, List.drop_left' hpack]
  have hrest : (packCiphertext kid rawCiphertext).drop (4 + (encodeKid kid).length) =
      rawCiphertext := List.drop_left' hboth
  have hlength : (packCiphertext kid rawCiphertext).length =
      4 + (encodeKid kid).length + rawCiphertext.length := by
    rw [packCiphertext, List.length_append, hboth]
  unfold unpackCiphertext
  simp only [hheader, unpackLength_packLength h, hkid, hrest, hlength, decodeKid_encodeKid]
  rw [if_neg (by omega), if_neg (by omega)]

/-! ## `MultiKeyEncryptorRegistry` -/

structure MultiKeyEncryptorRegistry (E : Type) where
  encryptors : Dict String E
  primaryKid : String
  destroyed : List String := []

namespace MultiKeyEncryptorRegistry

variable {E : Type}

/-- `MultiKeyEncryptorRegistry(primary_kid, primary_encryptor)` -/
def new (primaryKid : String) (primaryEncryptor : E) : MultiKeyEncryptorRegistry E where
  encryptors := Dict.empty.set primaryKid primaryEncryptor
  primaryKid

def register (r : MultiKeyEncryptorRegistry E) (kid : String) (encryptor : E) :
    MultiKeyEncryptorRegistry E :=
  { r with encryptors := r.encryptors.set kid encryptor }

/-- `list(self._encryptors.keys())` -/
def kids (r : MultiKeyEncryptorRegistry E) : List String := r.encryptors.entries.map Prod.fst

def setPrimary (r : MultiKeyEncryptorRegistry E) (kid : String) :
    Except EncryptionExc (MultiKeyEncryptorRegistry E) :=
  if kid ∈ r.kids then .ok { r with primaryKid := kid }
  else
    .error (.keyError
      (s!"Cannot promote {pyRepr kid} to primary — it is not registered. " ++
        s!"Registered kids: {reprList r.kids}. Call register() first."))

def retire (r : MultiKeyEncryptorRegistry E) (kid : String) :
    Except EncryptionExc (MultiKeyEncryptorRegistry E) :=
  if kid = r.primaryKid then
    .error (.other (.valueError
      (s!"Cannot retire {pyRepr kid} — it is the current primary key. " ++
        "Promote another key with set_primary() before retiring this one.")))
  else if kid ∈ r.kids then .ok { r with encryptors := r.encryptors.erase kid }
  else
    .error (.keyError
      (s!"Cannot retire {pyRepr kid} — it is not registered. " ++
        s!"Registered kids: {reprList r.kids}."))

def destroy (r : MultiKeyEncryptorRegistry E) (kid : String) : MultiKeyEncryptorRegistry E :=
  { r with destroyed := kid :: r.destroyed }

variable [FieldEncryptor E]

def encrypt (r : MultiKeyEncryptorRegistry E) (plaintext : Bytes) (context : Option String)
    (random : Bytes) : Except EncryptionExc Bytes := do
  match r.encryptors.get? r.primaryKid with
  | none => throw (.keyError r.primaryKid)
  | some encryptor =>
    let raw ← FieldEncryptor.encrypt encryptor plaintext context random
    return packCiphertext r.primaryKid raw

def decrypt (r : MultiKeyEncryptorRegistry E) (ciphertext : Bytes) (context : Option String) :
    Except EncryptionExc Bytes := do
  let (kid, rawCiphertext) ← unpackCiphertext ciphertext
  if kid ∈ r.destroyed then
    throw (.keyDestroyedError
      (s!"Decryption failed — kid {pyRepr kid} has been destroyed " ++
        "(crypto-shredded). This ciphertext's data subject has been " ++
        "erased; it is not recoverable.") .decrypt context (some kid) context)
  match r.encryptors.get? kid with
  | none =>
    throw (.encryptionError
      (s!"Decryption failed — kid {pyRepr kid} is not registered " ++
        s!"(it may have been retired). Registered kids: {reprList r.kids}. " ++
        "Ensure all rows encrypted with this kid are re-encrypted before retiring it.") .decrypt
      context)
  | some encryptor => FieldEncryptor.decrypt encryptor rawCiphertext context

instance : FieldEncryptor (MultiKeyEncryptorRegistry E) where
  encrypt := encrypt
  decrypt := decrypt

section

variable {r : MultiKeyEncryptorRegistry E} {kid : String} {raw : Bytes} {context : Option String}

theorem decrypt_of_destroyed (hkid : (encodeKid kid).length < 2 ^ 32) (h : kid ∈ r.destroyed) :
    ∃ message, r.decrypt (packCiphertext kid raw) context =
      .error (.keyDestroyedError message .decrypt context (some kid) context) := by
  unfold decrypt
  rw [unpackCiphertext_packCiphertext hkid]
  simp only [bind, Except.bind, if_pos h]
  exact ⟨_, rfl⟩

theorem decrypt_of_registered (hkid : (encodeKid kid).length < 2 ^ 32) (h : kid ∉ r.destroyed)
    {encryptor : E} (hget : r.encryptors.get? kid = some encryptor) :
    r.decrypt (packCiphertext kid raw) context = FieldEncryptor.decrypt encryptor raw context := by
  unfold decrypt
  rw [unpackCiphertext_packCiphertext hkid]
  simp only [bind, Except.bind, if_neg h, hget]

theorem decrypt_of_unregistered (hkid : (encodeKid kid).length < 2 ^ 32) (h : kid ∉ r.destroyed)
    (hget : r.encryptors.get? kid = none) :
    ∃ message, r.decrypt (packCiphertext kid raw) context =
      .error (.encryptionError message .decrypt context) := by
  unfold decrypt
  rw [unpackCiphertext_packCiphertext hkid]
  simp only [bind, Except.bind, if_neg h, hget]
  exact ⟨_, rfl⟩

end

end MultiKeyEncryptorRegistry

/-! ## Registries by context -/

/-- The encryptors of contexts, and the one of every other context. -/
structure ContextRegistry (E : Type) where
  registry : Dict String E := .empty
  default : Option E := none

namespace ContextRegistry

variable {E : Type}

def register (r : ContextRegistry E) (context : String) (encryptor : E) : ContextRegistry E :=
  { r with registry := r.registry.set context encryptor }

/-- `_resolve`, for contexts that are called `noun`. -/
def resolve (noun : String) (r : ContextRegistry E) (context : Option String) :
    Except EncryptionExc E :=
  match (context.bind r.registry.get?).or r.default with
  | some encryptor => .ok encryptor
  | none =>
    .error (.encryptionError
      (s!"No encryptor registered for {noun} {reprOption context} " ++
        "and no default encryptor configured. " ++
        s!"Registered {noun}s: {reprList (r.registry.entries.map Prod.fst)}. " ++
        s!"Call register() for this {noun} or provide a default encryptor.")
      (if context = none then .encrypt else .decrypt) context)

end ContextRegistry

abbrev TenantAwareEncryptorRegistry (E : Type) := ContextRegistry E

abbrev ScopedEncryptorRegistry (E : Type) := ContextRegistry E

def TenantAwareEncryptorRegistry.resolve {E : Type} (r : TenantAwareEncryptorRegistry E)
    (context : Option String) : Except EncryptionExc E :=
  ContextRegistry.resolve "tenant" r context

def TenantAwareEncryptorRegistry.decrypt {E : Type} [FieldEncryptor E]
    (r : TenantAwareEncryptorRegistry E) (ciphertext : Bytes) (context : Option String) :
    Except EncryptionExc Bytes := do
  let encryptor ← TenantAwareEncryptorRegistry.resolve r context
  FieldEncryptor.decrypt encryptor ciphertext context

def ScopedEncryptorRegistry.resolve {E : Type} (r : ScopedEncryptorRegistry E)
    (context : Option String) : Except EncryptionExc E :=
  ContextRegistry.resolve "scope" r context

end Varco
