import Varco.Encryption.Registry

/-!
# What a multi-key registry decrypts

Runs of `MultiKeyEncryptorRegistry` of `varco_core.encryption`: keys are registered under fresh
identifiers, promoted, retired and destroyed in any order, and ciphertexts are made along the way
(`RegistryHistory`). `multi_key_framing` says what becomes of a ciphertext: it is decrypted as long
as its key is neither retired nor destroyed, and a destroyed key is reported as destroyed. Of bytes
that no registry made it says that they are refused with an `EncryptionError`, if and only if the
identifier that their header declares is UTF-8.
-/

namespace Varco

/-- `EncryptionError` and its subclass. -/
def EncryptionExc.IsEncryptionError : EncryptionExc → Prop
  | .encryptionError .. => True
  | .keyDestroyedError .. => True
  | .unicodeDecodeError => False
  | .other _ => False

section

variable {E : Type} [FieldEncryptor E]

/-- What is asked of a member: it decrypts what it encrypted, and refuses with an
`EncryptionError`. -/
structure MemberSound (e : E) : Prop where
  decrypts : ∀ plaintext context random raw,
    FieldEncryptor.encrypt e plaintext context random = .ok raw →
      FieldEncryptor.decrypt e raw context = .ok plaintext
  refuses : ∀ raw context exc, FieldEncryptor.decrypt e raw context = .error exc →
    exc.IsEncryptionError

/-- A ciphertext that was made, with the identifier of the primary key of the time. -/
structure IssuedCiphertext where
  kid : String
  plaintext : Bytes
  context : Option String
  ciphertext : Bytes

/-- A registry, the identifiers that have been registered and retired, and the ciphertexts made. -/
structure RegistryHistory (E : Type) where
  registry : MultiKeyEncryptorRegistry E
  named : List String
  retired : List String := []
  issued : List IssuedCiphertext := []

/-- The calls on a registry that change it or make a ciphertext. -/
inductive RegistryOp (E : Type)
  | register (kid : String) (encryptor : E)
  | setPrimary (kid : String)
  | retire (kid : String)
  | destroy (kid : String)
  | encrypt (plaintext : Bytes) (context : Option String) (random : Bytes)

namespace RegistryHistory

/-- A call; one that raises changes nothing. `struct.pack` raises for an identifier of 4 GiB. -/
def exec (h : RegistryHistory E) : RegistryOp E → RegistryHistory E
  | .register kid encryptor =>
    { h with registry := h.registry.register kid encryptor, named := kid :: h.named }
  | .setPrimary kid =>
    match h.registry.setPrimary kid with
    | .ok r => { h with registry := r }
    | .error _ => h
  | .retire kid =>
    match h.registry.retire kid with
    | .ok r => { h with registry := r, retired := kid :: h.retired }
    | .error _ => h
  | .destroy kid => { h with registry := h.registry.destroy kid }
  | .encrypt plaintext context random =>
    match h.registry.encrypt plaintext context random with
    | .ok ciphertext =>
      if (encodeKid h.registry.primaryKid).length < 2 ^ 32 then
        { h with issued := ⟨h.registry.primaryKid, plaintext, context, ciphertext⟩ :: h.issued }
      else h
    | .error _ => h

/-- A key is registered under a fresh identifier, and is a sound member. -/
def Allowed (h : RegistryHistory E) : RegistryOp E → Prop
  | .register kid encryptor => kid ∉ h.named ∧ MemberSound encryptor
  | _ => True

/-- The histories of registries. -/
inductive Reachable : RegistryHistory E → Prop
  | new (kid : String) {encryptor : E} (hsound : MemberSound encryptor) :
    Reachable ⟨.new kid encryptor, [kid], [], []⟩
  | exec {h : RegistryHistory E} (hr : Reachable h) (op : RegistryOp E) (hop : h.Allowed op) :
    Reachable (h.exec op)

/-- What every history keeps. -/
structure Inv (h : RegistryHistory E) : Prop where
  member : ∀ kid encryptor, h.registry.encryptors.get? kid = some encryptor →
    kid ∈ h.named ∧ MemberSound encryptor
  framed : ∀ i ∈ h.issued, i.kid ∈ h.named ∧ (encodeKid i.kid).length < 2 ^ 32 ∧
    ∃ raw, i.ciphertext = packCiphertext i.kid raw ∧ (i.kid ∉ h.retired →
      ∃ encryptor, h.registry.encryptors.get? i.kid = some encryptor ∧
        FieldEncryptor.decrypt encryptor raw i.context = .ok i.plaintext)

variable {h : RegistryHistory E}

/-- What a successful `encrypt` returns. -/
theorem encrypt_eq_ok {r : MultiKeyEncryptorRegistry E} {plaintext random ciphertext : Bytes}
    {context : Option String} (he : r.encrypt plaintext context random = .ok ciphertext) :
    ∃ encryptor raw, r.encryptors.get? r.primaryKid = some encryptor ∧
      FieldEncryptor.encrypt encryptor plaintext context random = .ok raw ∧
      ciphertext = packCiphertext r.primaryKid raw := by
  unfold MultiKeyEncryptorRegistry.encrypt at he
  split at he
  · cases he
  · rename_i encryptor hget
    cases hraw : FieldEncryptor.encrypt encryptor plaintext context random with
    | error exc =>
      rw [hraw] at he
      cases he
    | ok raw =>
      rw [hraw] at he
      cases he
      exact ⟨encryptor, raw, hget, hraw, rfl⟩

theorem Inv.exec (hi : h.Inv) {op : RegistryOp E} (hop : h.Allowed op) : (h.exec op).Inv := by
  cases op with
  | register kid encryptor =>
    obtain ⟨hfresh, hsound⟩ := hop
    refine ⟨fun k e hget => ?_, fun i hmem => ?_⟩
    · simp only [RegistryHistory.exec, MultiKeyEncryptorRegistry.register, Dict.get?_set] at hget ⊢
      split_ifs at hget with hk
      · cases hget
        exact ⟨hk ▸ List.mem_cons_self, hsound⟩
      · obtain ⟨hnamed, hs⟩ := hi.member k e hget
        exact ⟨List.mem_cons_of_mem _ hnamed, hs⟩
    · obtain ⟨hnamed, hlen, raw, hraw, hkept⟩ := hi.framed i hmem
      have hne : i.kid ≠ kid := fun he => hfresh (he ▸ hnamed)
      refine ⟨List.mem_cons_of_mem _ hnamed, hlen, raw, hraw, fun hret => ?_⟩
      obtain ⟨e, hget, hdec⟩ := hkept hret
      refine ⟨e, ?_, hdec⟩
      rwa [RegistryHistory.exec, MultiKeyEncryptorRegistry.register, Dict.get?_set, if_neg hne]
  | setPrimary kid =>
    unfold RegistryHistory.exec MultiKeyEncryptorRegistry.setPrimary
    by_cases hk : kid ∈ h.registry.kids
    · simp only [if_pos hk]
      exact ⟨hi.member, hi.framed⟩
    · simp only [if_neg hk]
      exact hi
  | retire kid =>
    unfold RegistryHistory.exec MultiKeyEncryptorRegistry.retire
    by_cases hp : kid = h.registry.primaryKid
    · simp only [if_pos hp]
      exact hi
    by_cases hk : kid ∈ h.registry.kids
    · simp only [if_neg hp, if_pos hk]
      refine ⟨fun k e hget => ?_, fun i hmem => ?_⟩
      · rw [Dict.get?_erase] at hget
        split_ifs at hget
        exact hi.member k e hget
      · obtain ⟨hnamed, hlen, raw, hraw, hkept⟩ := hi.framed i hmem
        refine ⟨hnamed, hlen, raw, hraw, fun hret => ?_⟩
        rw [List.mem_cons, not_or] at hret
        obtain ⟨hne, hret⟩ := hret
        obtain ⟨e, hget, hdec⟩ := hkept hret
        refine ⟨e, ?_, hdec⟩
        rwa [Dict.get?_erase, if_neg hne]
    · simp only [if_neg hp, if_neg hk]
      exact hi
  | destroy kid => exact ⟨hi.member, hi.framed⟩
  | encrypt plaintext context random =>
    cases he : h.registry.encrypt plaintext context random with
    | error exc =>
      simp only [RegistryHistory.exec, he]
      exact hi
    | ok ciphertext =>
      by_cases hlen : (encodeKid h.registry.primaryKid).length < 2 ^ 32
      · simp only [RegistryHistory.exec, he, if_pos hlen]
        obtain ⟨encryptor, raw, hget, hraw, rfl⟩ := encrypt_eq_ok he
        obtain ⟨hnamed, hsound⟩ := hi.member _ _ hget
        refine ⟨hi.member, fun i hmem => ?_⟩
        rcases List.mem_cons.mp hmem with rfl | hmem
        · exact ⟨hnamed, hlen, raw, rfl, fun _ => ⟨encryptor, hget, hsound.decrypts _ _ _ _ hraw⟩⟩
        · exact hi.framed i hmem
      · simp only [RegistryHistory.exec, he, if_neg hlen]
        exact hi

/-- **Every history keeps the invariant.** -/
theorem Reachable.inv (hr : h.Reachable) : h.Inv := by
  induction hr with
  | @new kid encryptor hsound =>
    refine ⟨fun k e hget => ?_, fun i hmem => absurd hmem List.not_mem_nil⟩
    rw [MultiKeyEncryptorRegistry.new, Dict.get?_set] at hget
    split_ifs at hget with hk
    · cases hget
      exact ⟨hk ▸ List.mem_cons_self, hsound⟩
    · cases hget
  | exec _ op hop ih => exact ih.exec hop

end RegistryHistory

/-! ## Bytes of any kind -/

/-- The identifier that the header of some bytes declares is UTF-8, unless it is cut off. -/
def ReadableKid (framed : Bytes) : Prop :=
  framed.length < 4 + unpackLength (framed.take 4) ∨
    ∃ kid, decodeKid ((framed.take (4 + unpackLength (framed.take 4))).drop 4) = some kid

/-- What `_unpack_ciphertext` does with bytes of any kind. -/
theorem unpackCiphertext_error {framed : Bytes} :
    (∀ exc, unpackCiphertext framed = .error exc → exc.IsEncryptionError) ↔ ReadableKid framed := by
  unfold unpackCiphertext ReadableKid
  simp only
  split_ifs with hheader hlength
  · refine iff_of_true ?_ (.inl (by omega))
    rintro exc ⟨⟩
    trivial
  · refine iff_of_true ?_ (.inl hlength)
    rintro exc ⟨⟩
    trivial
  · rw [or_iff_right hlength]
    cases hkid : decodeKid ((framed.take (4 + unpackLength (framed.take 4))).drop 4) with
    | none =>
      refine iff_of_false (fun h => h .unicodeDecodeError rfl) ?_
      rintro ⟨kid, hk⟩
      cases hk
    | some kid => exact iff_of_true (fun _ he => nomatch he) ⟨kid, rfl⟩

/-- Bytes of any kind are refused with an `EncryptionError`, if sound members do so. -/
theorem decrypt_error {r : MultiKeyEncryptorRegistry E}
    (hsound : ∀ kid encryptor, r.encryptors.get? kid = some encryptor → MemberSound encryptor)
    (framed : Bytes) (context : Option String) :
    (∀ exc, r.decrypt framed context = .error exc → exc.IsEncryptionError) ↔
    ReadableKid framed := by
  rw [← unpackCiphertext_error]
  unfold MultiKeyEncryptorRegistry.decrypt
  cases hu : unpackCiphertext framed with
  | error exc =>
    constructor
    · rintro h _ ⟨⟩
      exact h exc rfl
    · rintro h _ ⟨⟩
      exact h exc rfl
  | ok p =>
    obtain ⟨kid, raw⟩ := p
    refine iff_of_true (fun exc he => ?_) fun _ he => nomatch he
    simp only [bind, Except.bind] at he
    split_ifs at he
    · cases he
      trivial
    · split at he
      · cases he
        trivial
      · rename_i encryptor hget
        exact (hsound kid encryptor hget).refuses raw context exc he

/-- **Multi-key framing.** In every history a ciphertext is decrypted as long as its key is neither
retired nor destroyed, and reported as destroyed if its key is; and bytes of any kind are decrypted
or refused with an `EncryptionError`, if and only if the identifier that they declare is UTF-8. -/
theorem multi_key_framing {h : RegistryHistory E} (hr : h.Reachable) :
    (∀ i ∈ h.issued, i.kid ∉ h.retired → i.kid ∉ h.registry.destroyed →
      h.registry.decrypt i.ciphertext i.context = .ok i.plaintext) ∧
    (∀ i ∈ h.issued, i.kid ∈ h.registry.destroyed → ∀ context, ∃ message,
      h.registry.decrypt i.ciphertext context =
        .error (.keyDestroyedError message .decrypt context (some i.kid) context)) ∧
    ∀ framed context,
      (∀ exc, h.registry.decrypt framed context = .error exc → exc.IsEncryptionError) ↔
        ReadableKid framed := by
  have hi := hr.inv
  refine ⟨fun i hmem hret hdes => ?_, fun i hmem hdes context => ?_, fun framed context => ?_⟩
  · obtain ⟨-, hlen, raw, hraw, hkept⟩ := hi.framed i hmem
    obtain ⟨encryptor, hget, hdec⟩ := hkept hret
    rw [hraw, MultiKeyEncryptorRegistry.decrypt_of_registered hlen hdes hget, hdec]
  · obtain ⟨-, hlen, raw, hraw, -⟩ := hi.framed i hmem
    rw [hraw]
    exact MultiKeyEncryptorRegistry.decrypt_of_destroyed hlen hdes
  · exact decrypt_error (fun kid e hget => (hi.member kid e hget).2) framed context

end

/-! ## Instances -/

/-- The encryptors with a lawful cipher are sound members. -/
theorem memberSound_fernet {F : Fernet} (hF : F.Lawful) (e : FernetFieldEncryptor F) :
    MemberSound e where
  decrypts plaintext context random raw h := by
    cases h
    change e.decrypt (e.encrypt plaintext random) context = _
    rw [FernetFieldEncryptor.decrypt, FernetFieldEncryptor.encrypt, hF.decrypt_encrypt]
  refuses raw context exc h := by
    change e.decrypt raw context = .error exc at h
    unfold FernetFieldEncryptor.decrypt at h
    split at h
    · cases h
    · cases h
      trivial

/-- The key of 32 bytes `b`. -/
def constantKey (b : UInt8) : FernetFieldEncryptor Fernet.plain :=
  ⟨List.replicate 32 b, FernetFieldEncryptor.length_replicate_key b⟩

/-- A key is rotated and the old one destroyed, with a ciphertext of each. -/
def rotatedHistory : RegistryHistory (FernetFieldEncryptor Fernet.plain) :=
  [.encrypt [1] none [], .register "v2" (constantKey 2), .setPrimary "v2", .encrypt [2] none [],
    .destroy "v1"].foldl RegistryHistory.exec ⟨.new "v1" (constantKey 1), ["v1"], [], []⟩

theorem rotatedHistory_reachable : rotatedHistory.Reachable := by
  have hsound := memberSound_fernet Fernet.plain_lawful
  have hnew := RegistryHistory.Reachable.new "v1" (hsound (constantKey 1))
  exact ((((hnew.exec (.encrypt [1] none []) trivial).exec (.register "v2" (constantKey 2))
    ⟨by decide +kernel, hsound _⟩).exec (.setPrimary "v2") trivial).exec (.encrypt [2] none [])
    trivial).exec (.destroy "v1") trivial

/-- The ciphertext of the new key is decrypted, that of the old one is reported as destroyed. -/
theorem multi_key_framing_rotated : ∃ old new : IssuedCiphertext,
    rotatedHistory.issued = [new, old] ∧
      rotatedHistory.registry.decrypt new.ciphertext none = .ok [2] ∧
      ∃ message, rotatedHistory.registry.decrypt old.ciphertext none =
        .error (.keyDestroyedError message .decrypt none (some "v1") none) := by
  obtain ⟨hkept, hdestroyed, -⟩ := multi_key_framing rotatedHistory_reachable
  have hissued : rotatedHistory.issued.map (fun i => (i.kid, i.plaintext, i.context)) =
      [("v2", [2], none), ("v1", [1], none)] := by
    decide +kernel
  have hmarked : rotatedHistory.retired = [] ∧ rotatedHistory.registry.destroyed = ["v1"] := by
    decide +kernel
  have hlength := congrArg List.length hissued
  rw [List.length_map] at hlength
  obtain ⟨new, old, hl⟩ := List.length_eq_two.mp hlength
  rw [hl] at hissued
  simp only [List.map_cons, List.map_nil, List.cons.injEq, Prod.mk.injEq, and_true] at hissued
  obtain ⟨⟨hnew, hplain, hcontext⟩, hold, -⟩ := hissued
  have hdecrypted := hkept new (by simp [hl]) (by simp [hmarked]) (by simp [hmarked, hnew])
  have hreported := hdestroyed old (by simp [hl]) (by simp [hmarked, hold]) none
  rw [hcontext, hplain] at hdecrypted
  rw [hold] at hreported
  exact ⟨old, new, hl, hdecrypted, hreported⟩

/-- A header that declares an identifier which is no UTF-8. -/
theorem multi_key_framing_unreadable : ∃ h : RegistryHistory (FernetFieldEncryptor Fernet.plain),
    h.Reachable ∧ h.registry.decrypt [0, 0, 0, 1, 0xff] none = .error .unicodeDecodeError ∧
      ¬EncryptionExc.unicodeDecodeError.IsEncryptionError := by
  refine ⟨rotatedHistory, rotatedHistory_reachable, ?_, id⟩
  have hunpack : unpackCiphertext [0, 0, 0, 1, 0xff] = .error .unicodeDecodeError := by
    decide +kernel
  unfold MultiKeyEncryptorRegistry.decrypt
  rw [hunpack]
  rfl

end Varco
