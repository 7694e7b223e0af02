import Zeptoclaw.Spec.Encryption

/-!
# Secrets at rest and across restarts

`decrypt_after_restart_iff`: a secret that was encrypted with the key of one
`resolve_master_key` is decrypted with the key of another, for the same passphrase, exactly
if both drew the same salt. The salt that a key was derived with is not kept, and the one
in the envelope is another one.

`decrypt_encrypt`: with one key, or one passphrase, what is encrypted is decrypted, and a
call of `decrypt` cuts no text out of range (`cutEnvelope_eq`).
-/

namespace Zeptoclaw

variable {lib : CryptoLib}

/-! ## Envelopes -/

theorem fromUtf8_encode (s : Str) : fromUtf8 (Utf8.encode s) = some s := by
  rw [fromUtf8, Utf8.fromUtf8Lossy_encode]
  exact if_pos rfl

theorem colon_notMem_encode (bytes : Bytes) : ':' ∉ Base64.encode bytes := by
  intro h
  obtain h | h := Base64.mem_encode h
  · exact absurd h (by decide)
  · exact absurd h (by decide)

theorem isEncrypted_formatEnvelope (salt nonce ciphertext : Bytes) :
    isEncrypted (formatEnvelope salt nonce ciphertext) = true := by
  rw [isEncrypted, Bool.and_eq_true, decide_eq_true_eq, decide_eq_true_eq, formatEnvelope]
  exact ⟨⟨_, (List.append_assoc _ _ _).symm⟩, List.suffix_append _ _⟩

theorem splitOn_formatEnvelope (salt nonce ciphertext : Bytes) :
    ((formatEnvelope salt nonce ciphertext).drop 4).dropLast.splitOn ':' =
      [formatVersion, Base64.encode salt, Base64.encode nonce, Base64.encode ciphertext] := by
  have hinner : ((formatEnvelope salt nonce ciphertext).drop 4).dropLast = [':'].intercalate
      [formatVersion, Base64.encode salt, Base64.encode nonce, Base64.encode ciphertext] := by
    rw [formatEnvelope, List.append_assoc]
    exact List.dropLast_concat
  rw [hinner]
  refine List.splitOn_intercalate _ ?_ (List.cons_ne_nil _ _)
  intro part hpart
  simp only [List.mem_cons, List.not_mem_nil, or_false] at hpart
  obtain rfl | rfl | rfl | rfl := hpart
  · decide
  · exact colon_notMem_encode salt
  · exact colon_notMem_encode nonce
  · exact colon_notMem_encode ciphertext

theorem decodePart_encode (name : String) (bytes : Bytes) :
    decodePart lib name (Base64.encode bytes) = .ok bytes := by
  rw [decodePart, Base64.decode_encode]

/-- An envelope is read as it was written. -/
theorem parseEnvelope_format (salt : Bytes) (nonce : Nonce) (ciphertext : Bytes) :
    parseEnvelope lib (formatEnvelope salt nonce.1 ciphertext) = .ok ⟨salt, nonce, ciphertext⟩ := by
  obtain ⟨nonce, hnonce⟩ := nonce
  unfold parseEnvelope
  rw [isEncrypted_formatEnvelope, splitOn_formatEnvelope]
  simp only [Bool.not_true, Bool.false_eq_true, if_false, ne_eq, not_true_eq_false, decodePart_encode]
  show (if h : nonce.length = 24 then _ else _) = _
  rw [dif_pos hnonce]
  rfl

/-- What is sealed under one key is opened as its ciphertext is under the other. -/
theorem decrypt_sealed {key : Key} {salt : Salt} {nonce : Nonce} {plaintext envelope : Str}
    (h : sealWith lib key salt nonce plaintext = .ok envelope) :
    ∃ ciphertext, lib.encrypt key nonce (Utf8.encode plaintext) = .ok ciphertext ∧
      ∀ enc : SecretEncryption, enc.decrypt lib envelope = openWith lib enc.key ⟨salt.1, nonce, ciphertext⟩ := by
  unfold sealWith at h
  cases hc : lib.encrypt key nonce (Utf8.encode plaintext) with
  | error e =>
    rw [hc] at h
    cases h
  | ok ciphertext =>
    rw [hc] at h
    obtain rfl := Except.ok.inj h
    refine ⟨ciphertext, rfl, fun enc => ?_⟩
    unfold SecretEncryption.decrypt
    rw [parseEnvelope_format]
    rfl

theorem openWith_ok {key : Key} {envelope : Envelope} {plaintext : Str}
    (h : lib.decrypt key envelope.nonce envelope.ciphertext = .ok (Utf8.encode plaintext)) :
    openWith lib key envelope = .ok plaintext := by
  unfold openWith configErr
  rw [h]
  dsimp only [bind, Except.bind]
  rw [fromUtf8_encode]

theorem openWith_error {key : Key} (envelope : Envelope) {e : Str}
    (h : lib.decrypt key envelope.nonce envelope.ciphertext = .error e) (plaintext : Str) :
    openWith lib key envelope ≠ .ok plaintext := by
  unfold openWith
  rw [h]
  intro heq
  cases heq

/-! ## The master key -/

/-- A ciphertext is opened by the key that sealed it. -/
def AeadCorrect (lib : CryptoLib) : Prop :=
  ∀ key nonce plaintext ciphertext, lib.encrypt key nonce plaintext = .ok ciphertext →
    lib.decrypt key nonce ciphertext = .ok plaintext

/-- Different salts give different keys. -/
def KdfSeparates (lib : CryptoLib) : Prop :=
  ∀ (password : Bytes) (salt salt' : Salt) (key : Key), lib.hashPasswordInto password salt.1 = .ok key →
    lib.hashPasswordInto password salt'.1 = .ok key → salt = salt'

/-- What the first key makes of the plaintext, the second rejects unless it is the same. -/
def RejectsOther (lib : CryptoLib) (key key' : Key) (nonce : Nonce) (plaintext : Bytes) : Prop :=
  key ≠ key' → ∀ ciphertext, lib.encrypt key nonce plaintext = .ok ciphertext →
    ∃ e, lib.decrypt key' nonce ciphertext = .error e

/-- The key of an interactive call is derived with the salt that the call draws. -/
theorem resolveMasterKey_interactive {passphrase : Str} {salt : Salt} {enc : SecretEncryption}
    (h : resolveMasterKey lib none true (.ok passphrase) salt = .ok enc) :
    lib.hashPasswordInto (Utf8.encode passphrase) salt.1 = .ok enc.key := by
  have h' : (if passphrase = [] then .error (.config "passphrase cannot be empty".toList)
      else SecretEncryption.fromPassphrase lib passphrase salt) = Except.ok enc := h
  split at h'
  · cases h'
  unfold SecretEncryption.fromPassphrase deriveKey at h'
  cases hkey : lib.hashPasswordInto (Utf8.encode passphrase) salt.1 with
  | error e =>
    rw [hkey] at h'
    cases h'
  | ok key =>
    rw [hkey] at h'
    obtain rfl := Except.ok.inj h'
    rfl

/-- **A secret survives a restart exactly if both runs draw the same salt.** -/
theorem decrypt_after_restart_iff (haead : AeadCorrect lib) (hkdf : KdfSeparates lib) {passphrase : Str}
    {salt salt' : Salt} {enc enc' : SecretEncryption}
    (h : resolveMasterKey lib none true (.ok passphrase) salt = .ok enc)
    (h' : resolveMasterKey lib none true (.ok passphrase) salt' = .ok enc')
    {envelopeSalt : Salt} {nonce : Nonce} {plaintext envelope : Str}
    (hauth : RejectsOther lib enc.key enc'.key nonce (Utf8.encode plaintext))
    (he : enc.encrypt lib envelopeSalt nonce plaintext = .ok envelope) :
    enc'.decrypt lib envelope = .ok plaintext ↔ salt = salt' := by
  have hkey := resolveMasterKey_interactive h
  have hkey' := resolveMasterKey_interactive h'
  obtain ⟨ciphertext, hc, hopen⟩ := decrypt_sealed he
  rw [hopen]
  constructor
  · intro hplain
    by_contra hne
    have hkeys : enc.key ≠ enc'.key := fun heq => hne (hkdf _ salt salt' _ hkey (heq ▸ hkey'))
    obtain ⟨e, herror⟩ := hauth hkeys ciphertext hc
    exact openWith_error ⟨envelopeSalt.1, nonce, ciphertext⟩ herror plaintext hplain
  · rintro rfl
    have hkeys : enc.key = enc'.key := Except.ok.inj (hkey.symm.trans hkey')
    refine openWith_ok ?_
    rw [← hkeys]
    exact haead _ _ _ _ hc

/-- Keys, tags and ciphertexts of the lengths that the crates give, with the simplest
contents that keep the laws. -/
def sampleCrypto : CryptoLib where
  hashPasswordInto _ salt :=
    if h : salt.length = 16 then .ok ⟨salt ++ salt, by rw [List.length_append, h]⟩
    else .error "salt is too short".toList
  encrypt key _ plaintext := .ok (plaintext ++ key.1.take 16)
  decrypt key _ ciphertext :=
    if key.1.take 16 <:+ ciphertext then .ok (ciphertext.take (ciphertext.length - 16))
    else .error "aead::Error".toList
  hexDecode _ := .error "Odd number of digits".toList
  base64Error _ := "Invalid padding".toList
  utf8Error _ := "invalid utf-8 sequence of 1 bytes from index 0".toList

theorem sampleCrypto_aead : AeadCorrect sampleCrypto := by
  intro key nonce plaintext ciphertext h
  obtain rfl := Except.ok.inj h
  show (if _ then _ else _) = _
  have hlen : (key.1.take 16).length = 16 := by
    rw [List.length_take, key.2]
    rfl
  rw [if_pos (List.suffix_append _ _), List.length_append, hlen, Nat.add_sub_cancel, List.take_left]

theorem sampleCrypto_kdf : KdfSeparates sampleCrypto := by
  intro password salt salt' key h h'
  have hkey : ∀ s : Salt, sampleCrypto.hashPasswordInto password s.1 = .ok key → key.1.take 16 = s.1 := by
    intro s hs
    have hs' : (if h : s.1.length = 16 then .ok ⟨s.1 ++ s.1, by rw [List.length_append, h]⟩
        else .error "salt is too short".toList) = Except.ok key := hs
    rw [dif_pos s.2] at hs'
    obtain rfl := Except.ok.inj hs'
    exact List.take_left' s.2
  exact Subtype.ext ((hkey salt h).symm.trans (hkey salt' h'))

/-- An array of one byte, repeated. -/
def filled (n : ℕ) (b : UInt8) : ByteArr n := ⟨List.replicate n b, List.length_replicate⟩

/-- The key that an interactive call derives from a salt of one byte, repeated. -/
def sampleKey (b : UInt8) : SecretEncryption := ⟨⟨List.replicate 16 b ++ List.replicate 16 b, rfl⟩⟩

theorem decrypt_after_restart_sample :
    (sampleKey 2).decrypt sampleCrypto
      (formatEnvelope (filled 16 3).1 (filled 24 4).1 (Utf8.encode "key".toList ++ List.replicate 16 1)) =
        .ok "key".toList ↔ filled 16 1 = filled 16 2 := by
  have hfirst : resolveMasterKey sampleCrypto none true (.ok "open sesame".toList) (filled 16 1) =
      .ok (sampleKey 1) := rfl
  have hlater : resolveMasterKey sampleCrypto none true (.ok "open sesame".toList) (filled 16 2) =
      .ok (sampleKey 2) := rfl
  refine decrypt_after_restart_iff sampleCrypto_aead sampleCrypto_kdf hfirst hlater ?_ rfl
  intro _ ciphertext hc
  obtain rfl := Except.ok.inj hc
  exact ⟨_, rfl⟩

/-- A secret that is lost with a restart. -/
theorem decrypt_lost_after_restart : ¬ ∀ (lib : CryptoLib), AeadCorrect lib → KdfSeparates lib →
    ∀ (passphrase : Str) (salt salt' : Salt) (enc enc' : SecretEncryption),
    resolveMasterKey lib none true (.ok passphrase) salt = .ok enc →
    resolveMasterKey lib none true (.ok passphrase) salt' = .ok enc' →
    ∀ (envelopeSalt : Salt) (nonce : Nonce) (plaintext envelope : Str),
    enc.encrypt lib envelopeSalt nonce plaintext = .ok envelope → enc'.decrypt lib envelope = .ok plaintext := by
  intro hall
  have h := hall sampleCrypto sampleCrypto_aead sampleCrypto_kdf "open sesame".toList (filled 16 1) (filled 16 2)
    (sampleKey 1) (sampleKey 2) rfl rfl (filled 16 3) (filled 24 4) "key".toList
  have hsealed : sealWith sampleCrypto (sampleKey 1).key (filled 16 3) (filled 24 4) "key".toList = .ok _ := rfl
  obtain ⟨ciphertext, hc, hopen⟩ := decrypt_sealed hsealed
  obtain rfl := Except.ok.inj hc
  have hplain := h _ hsealed
  rw [hopen] at hplain
  exact openWith_error _ rfl _ hplain

/-! ## Cuts -/

section Cuts

variable {α β : Type}

@[simp] theorem orPanic_some_bind (a : α) (f : α → ExceptT ZeptoError Option β) : (orPanic (some a) >>= f) = f a := rfl

@[simp] theorem ofResult_ok_bind (a : α) (f : α → ExceptT ZeptoError Option β) :
    (ofResult (.ok a) >>= f) = f a := rfl

@[simp] theorem ofResult_error_bind (e : ZeptoError) (f : α → ExceptT ZeptoError Option β) :
    (ofResult (.error e) >>= f) = ofResult (.error e) := rfl

end Cuts

/-- An encrypted value is long enough for its two marks. -/
theorem isEncrypted_split {value : Str} (h : isEncrypted value = true) : ∃ inner, value = "ENC[".toList ++ inner ++ [']'] := by
  rw [isEncrypted, Bool.and_eq_true, decide_eq_true_eq, decide_eq_true_eq] at h
  obtain ⟨⟨rest, rfl⟩, hend⟩ := h
  rcases List.eq_nil_or_concat rest with rfl | ⟨inner, c, rfl⟩
  · exact absurd hend (by decide)
  · rw [List.concat_eq_append, ← List.append_assoc] at hend ⊢
    have hc : c = ']' := by
      obtain ⟨l, hl⟩ := hend
      exact (List.append_inj_right' hl rfl |> List.cons.inj).1.symm
    exact ⟨inner, by rw [hc]⟩

/-- The slice between the marks is there, and it is what `parseEnvelope` splits. -/
theorem slice_isEncrypted {value : Str} (h : isEncrypted value = true) :
    Text.slice value 4 (Text.byteLen value - 1) = some (value.drop 4).dropLast := by
  obtain ⟨inner, rfl⟩ := isEncrypted_split h
  have hinner : (("ENC[".toList ++ inner ++ [']']).drop 4).dropLast = inner := by
    rw [List.append_assoc]
    exact List.dropLast_concat
  have hmark : Text.byteLen [']'] = 1 := by decide
  rw [hinner, Text.slice_eq_some]
  refine ⟨"ENC[".toList, [']'], rfl, by decide, ?_⟩
  rw [Text.byteLen_append ("ENC[".toList ++ inner) [']'], hmark, Nat.add_sub_cancel]

/-- **No cut is out of range**: the checks with their cuts give what the checks give. -/
theorem cutEnvelope_eq (value : Str) : cutEnvelope lib value = ofResult (parseEnvelope lib value) := by
  unfold cutEnvelope parseEnvelope
  cases h : isEncrypted value with
  | false => rfl
  | true =>
    simp only [Bool.not_true, Bool.false_eq_true, if_false, slice_isEncrypted h, orPanic_some_bind]
    match hparts : (value.drop 4).dropLast.splitOn ':' with
    | [version, salt, nonce, ciphertext] =>
      dsimp only [List.length_cons, List.length_nil]
      rw [if_neg (by decide)]
      simp only [List.getElem?_cons_zero, List.getElem?_cons_succ, orPanic_some_bind]
      by_cases hv : version = formatVersion
      · rw [if_neg (not_not.mpr hv), if_neg (not_not.mpr hv)]
        cases decodePart lib "salt" salt with
        | error e => rfl
        | ok saltBytes =>
          cases decodePart lib "nonce" nonce with
          | error e => rfl
          | ok nonceBytes =>
            by_cases hlen : nonceBytes.length = 24
            · simp only [ofResult_ok_bind, if_neg (not_not.mpr hlen)]
              cases decodePart lib "ciphertext" ciphertext with
              | error e =>
                show _ = ofResult (if h : nonceBytes.length = 24 then _ else _)
                rw [dif_pos hlen]
                rfl
              | ok ciphertextBytes =>
                show (orPanic (nonceFromSlice nonceBytes) >>= _) = ofResult (if h : nonceBytes.length = 24 then _ else _)
                rw [dif_pos hlen, nonceFromSlice, dif_pos hlen]
                rfl
            · simp only [ofResult_ok_bind, if_pos hlen]
              show _ = ofResult (if h : nonceBytes.length = 24 then _ else _)
              rw [dif_neg hlen]
      · rw [if_pos hv, if_pos hv]
    | [] => rfl
    | [_] => rfl
    | [_, _] => rfl
    | [_, _, _] => rfl
    | _ :: _ :: _ :: _ :: _ :: rest =>
      rw [if_pos (by simp only [List.length_cons]; omega)]

theorem SecretEncryption.callDecrypt_eq (enc : SecretEncryption) (value : Str) :
    enc.callDecrypt lib value = some (enc.decrypt lib value) := by
  unfold SecretEncryption.callDecrypt SecretEncryption.decrypt
  rw [cutEnvelope_eq]
  cases parseEnvelope lib value with
  | error e => rfl
  | ok envelope => rfl

theorem PassphraseEncryption.callDecrypt_eq (enc : PassphraseEncryption) (value : Str) :
    enc.callDecrypt lib value = some (enc.decrypt lib value) := by
  unfold PassphraseEncryption.callDecrypt PassphraseEncryption.decrypt
  rw [cutEnvelope_eq]
  cases parseEnvelope lib value with
  | error e => rfl
  | ok envelope =>
    show ExceptT.run (ofResult (deriveKey lib enc.passphrase envelope.salt) >>= _) =
      some (deriveKey lib enc.passphrase envelope.salt >>= _)
    cases deriveKey lib enc.passphrase envelope.salt with
    | error e => rfl
    | ok key => rfl

/-! ## Round trips -/

/-- The AEAD makes a ciphertext of the plaintext. -/
def Seals (lib : CryptoLib) (key : Key) (nonce : Nonce) (plaintext : Str) : Prop :=
  ∃ ciphertext, lib.encrypt key nonce (Utf8.encode plaintext) = .ok ciphertext

theorem openWith_sealed (haead : AeadCorrect lib) {key : Key} {nonce : Nonce} {plaintext : Str} {ciphertext : Bytes}
    (hc : lib.encrypt key nonce (Utf8.encode plaintext) = .ok ciphertext) (salt : Bytes) :
    openWith lib key ⟨salt, nonce, ciphertext⟩ = .ok plaintext :=
  openWith_ok (haead _ _ _ _ hc)

theorem sealWith_of_encrypt {key : Key} {nonce : Nonce} {plaintext : Str} {ciphertext : Bytes}
    (hc : lib.encrypt key nonce (Utf8.encode plaintext) = .ok ciphertext) (salt : Salt) :
    sealWith lib key salt nonce plaintext = .ok (formatEnvelope salt.1 nonce.1 ciphertext) := by
  unfold sealWith
  rw [hc]
  rfl

/-- **What is encrypted is decrypted to the plaintext**, with a key and with a passphrase,
and a call of `decrypt` returns on every text. -/
theorem decrypt_encrypt (haead : AeadCorrect lib) :
    (∀ (key : Key) (salt : Salt) (nonce : Nonce) (plaintext : Str), Seals lib key nonce plaintext →
      ∃ envelope, (SecretEncryption.fromRawKey key).encrypt lib salt nonce plaintext = .ok envelope ∧
        (SecretEncryption.fromRawKey key).callDecrypt lib envelope = some (.ok plaintext)) ∧
    (∀ (passphrase : Str) (salt : Salt) (key : Key) (nonce : Nonce) (plaintext : Str),
      lib.hashPasswordInto (Utf8.encode passphrase) salt.1 = .ok key → Seals lib key nonce plaintext →
      ∃ envelope, (PassphraseEncryption.mk passphrase).encrypt lib salt nonce plaintext = .ok envelope ∧
        (PassphraseEncryption.mk passphrase).callDecrypt lib envelope = some (.ok plaintext)) ∧
    (∀ (enc : SecretEncryption) (value : Str), ∃ result, enc.callDecrypt lib value = some result) ∧
    ∀ (enc : PassphraseEncryption) (value : Str), ∃ result, enc.callDecrypt lib value = some result := by
  refine ⟨?_, ?_, fun enc value => ⟨_, enc.callDecrypt_eq value⟩, fun enc value => ⟨_, enc.callDecrypt_eq value⟩⟩
  · rintro key salt nonce plaintext ⟨ciphertext, hc⟩
    refine ⟨_, sealWith_of_encrypt hc salt, ?_⟩
    rw [SecretEncryption.callDecrypt_eq, SecretEncryption.decrypt, parseEnvelope_format]
    exact congrArg some (openWith_sealed haead hc salt.1)
  · rintro passphrase salt key nonce plaintext hkey ⟨ciphertext, hc⟩
    have hderive : deriveKey lib passphrase salt.1 = .ok key := by
      rw [deriveKey, hkey]
      rfl
    refine ⟨formatEnvelope salt.1 nonce.1 ciphertext, ?_, ?_⟩
    · rw [PassphraseEncryption.encrypt, hderive]
      exact sealWith_of_encrypt hc salt
    · rw [PassphraseEncryption.callDecrypt_eq, PassphraseEncryption.decrypt, parseEnvelope_format]
      show some (deriveKey lib passphrase salt.1 >>= _) = _
      rw [hderive]
      exact congrArg some (openWith_sealed haead hc salt.1)

theorem decrypt_encrypt_sample :
    ∃ envelope, (PassphraseEncryption.mk "open sesame".toList).encrypt sampleCrypto (filled 16 1) (filled 24 2)
        "key".toList = .ok envelope ∧
      (PassphraseEncryption.mk "open sesame".toList).callDecrypt sampleCrypto envelope = some (.ok "key".toList) :=
  (decrypt_encrypt sampleCrypto_aead).2.1 "open sesame".toList (filled 16 1) (sampleKey 1).key (filled 24 2) "key".toList
    rfl ⟨_, rfl⟩

end Zeptoclaw
