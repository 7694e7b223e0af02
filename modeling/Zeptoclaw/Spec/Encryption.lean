import Zeptoclaw.Lib.Base64
import Zeptoclaw.Lib.Offset
import Zeptoclaw.Spec.Error

/-!
# Secrets at rest

`security/encryption.rs`: envelopes `ENC[1:salt:nonce:ciphertext]`, written and read with a
key (`SecretEncryption`) or with a passphrase (`PassphraseEncryption`), and
`resolve_master_key`. What is drawn at random is an argument.
-/

namespace Zeptoclaw

/-- An array of bytes of a fixed length. -/
abbrev ByteArr (n : ℕ) : Type := { bytes : Bytes // bytes.length = n }

abbrev Key : Type := ByteArr 32
abbrev Salt : Type := ByteArr 16
abbrev Nonce : Type := ByteArr 24

/-- What the code takes from the `argon2`, `chacha20poly1305` and `hex` crates, and the texts
of decoding errors. -/
structure CryptoLib where
  -- Argon2id, version 0x13, 64 MiB, three iterations, one lane
  hashPasswordInto : (password salt : Bytes) → Except Str Key
  -- XChaCha20-Poly1305
  encrypt : Key → Nonce → (plaintext : Bytes) → Except Str Bytes
  decrypt : Key → Nonce → (ciphertext : Bytes) → Except Str Bytes
  hexDecode : Str → Except Str Bytes
  base64Error : Str → Str
  utf8Error : Bytes → Str

/-- `String::from_utf8`. -/
def fromUtf8 (bytes : Bytes) : Option Str :=
  let s := Utf8.fromUtf8Lossy bytes
  if Utf8.encode s = bytes then some s else none

def formatVersion : Str := ['1']

variable (lib : CryptoLib)

/-- An error of the crates, as an error of the code. -/
def configErr {α : Type*} (msg : String) : Except Str α → Except ZeptoError α
  | .ok a => .ok a
  | .error e => .error (.config (msg.toList ++ e))

def deriveKey (passphrase : Str) (salt : Bytes) : Except ZeptoError Key :=
  configErr "key derivation failed: " (lib.hashPasswordInto (Utf8.encode passphrase) salt)

/-! ## Envelopes -/

def isEncrypted (value : Str) : Bool := decide ("ENC[".toList <+: value) && decide ([']'] <:+ value)

/-- The text of an envelope. -/
def formatEnvelope (salt nonce ciphertext : Bytes) : Str :=
  "ENC[".toList ++ [':'].intercalate
    [formatVersion, Base64.encode salt, Base64.encode nonce, Base64.encode ciphertext] ++ [']']

/-- The plaintext is encrypted under a key, and put into an envelope. -/
def sealWith (key : Key) (salt : Salt) (nonce : Nonce) (plaintext : Str) : Except ZeptoError Str :=
  match configErr "encryption failed: " (lib.encrypt key nonce (Utf8.encode plaintext)) with
  | .error e => .error e
  | .ok ciphertext => .ok (formatEnvelope salt.1 nonce.1 ciphertext)

/-- `BASE64.decode`, with the error for a part of the envelope. -/
def decodePart (name : String) (part : Str) : Except ZeptoError Bytes :=
  match Base64.decode part with
  | some bytes => .ok bytes
  | none => .error (.config ("invalid ".toList ++ name.toList ++ " encoding: ".toList ++ lib.base64Error part))

structure Envelope where
  salt : Bytes
  nonce : Nonce
  ciphertext : Bytes

/-- The checks that both kinds of `decrypt` make. -/
def parseEnvelope (encrypted : Str) : Except ZeptoError Envelope :=
  if !isEncrypted encrypted then .error (.config "value is not an encrypted envelope".toList)
  else
    match (encrypted.drop 4).dropLast.splitOn ':' with
    | [version, salt, nonce, ciphertext] =>
      if version ≠ formatVersion then .error (.config ("unsupported encryption version: ".toList ++ version))
      else do
        let salt ← decodePart lib "salt" salt
        let nonce ← decodePart lib "nonce" nonce
        if h : nonce.length = 24 then
          let ciphertext ← decodePart lib "ciphertext" ciphertext
          .ok ⟨salt, ⟨nonce, h⟩, ciphertext⟩
        else .error (.config ("invalid nonce length: expected 24, got ".toList ++ (toString nonce.length).toList))
    | parts =>
      .error (.config ("invalid encrypted format: expected 4 parts, got ".toList ++ (toString parts.length).toList))

/-- The ciphertext is decrypted under a key. -/
def openWith (key : Key) (envelope : Envelope) : Except ZeptoError Str := do
  let plaintext ← configErr "decryption failed: " (lib.decrypt key envelope.nonce envelope.ciphertext)
  match fromUtf8 plaintext with
  | some s => .ok s
  | none => .error (.config ("decrypted value is not valid UTF-8: ".toList ++ lib.utf8Error plaintext))

/-! ## With a key -/

structure SecretEncryption where
  key : Key

namespace SecretEncryption

/-- `SecretEncryption::from_passphrase`; the salt is drawn here, and kept nowhere. -/
def fromPassphrase (passphrase : Str) (salt : Salt) : Except ZeptoError SecretEncryption := do
  let key ← deriveKey lib passphrase salt.1
  .ok ⟨key⟩

def fromRawKey (key : Key) : SecretEncryption := ⟨key⟩

/-- `SecretEncryption::encrypt`; salt and nonce are drawn here. -/
def encrypt (enc : SecretEncryption) (salt : Salt) (nonce : Nonce) (plaintext : Str) : Except ZeptoError Str :=
  sealWith lib enc.key salt nonce plaintext

/-- `SecretEncryption::decrypt`. -/
def decrypt (enc : SecretEncryption) (encrypted : Str) : Except ZeptoError Str := do
  let envelope ← parseEnvelope lib encrypted
  openWith lib enc.key envelope

end SecretEncryption

/-! ## With a passphrase -/

structure PassphraseEncryption where
  passphrase : Str

namespace PassphraseEncryption

/-- `PassphraseEncryption::encrypt`. -/
def encrypt (enc : PassphraseEncryption) (salt : Salt) (nonce : Nonce) (plaintext : Str) : Except ZeptoError Str := do
  let key ← deriveKey lib enc.passphrase salt.1
  sealWith lib key salt nonce plaintext

/-- `PassphraseEncryption::decrypt`: the key is derived again, with the salt of the envelope. -/
def decrypt (enc : PassphraseEncryption) (encrypted : Str) : Except ZeptoError Str := do
  let envelope ← parseEnvelope lib encrypted
  let key ← deriveKey lib enc.passphrase envelope.salt
  openWith lib key envelope

end PassphraseEncryption

/-! ## Cuts

`decrypt` cuts the value at byte offsets, takes the parts by index and makes a nonce of a
slice. What stands above has no such cuts; here one that is out of range is seen: the
computation is `none`, a panic. -/

/-- The value of an expression that may panic. -/
def orPanic {α : Type} (value : Option α) : ExceptT ZeptoError Option α := ExceptT.mk (value.map .ok)

def ofResult {α : Type} (result : Except ZeptoError α) : ExceptT ZeptoError Option α := ExceptT.mk (some result)

/-- `XNonce::from_slice`, which panics on another length. -/
def nonceFromSlice (bytes : Bytes) : Option Nonce := if h : bytes.length = 24 then some ⟨bytes, h⟩ else none

/-- The checks of both kinds of `decrypt`, with their cuts. -/
def cutEnvelope (encrypted : Str) : ExceptT ZeptoError Option Envelope :=
  if !isEncrypted encrypted then ofResult (.error (.config "value is not an encrypted envelope".toList))
  else do
    let inner ← orPanic (Text.slice encrypted 4 (Text.byteLen encrypted - 1))
    let parts := inner.splitOn ':'
    if parts.length ≠ 4 then
      ofResult (.error (.config
        ("invalid encrypted format: expected 4 parts, got ".toList ++ (toString parts.length).toList)))
    else
      let version ← orPanic parts[0]?
      if version ≠ formatVersion then
        ofResult (.error (.config ("unsupported encryption version: ".toList ++ version)))
      else
        let saltPart ← orPanic parts[1]?
        let salt ← ofResult (decodePart lib "salt" saltPart)
        let noncePart ← orPanic parts[2]?
        let nonceBytes ← ofResult (decodePart lib "nonce" noncePart)
        if nonceBytes.length ≠ 24 then
          ofResult (.error (.config
            ("invalid nonce length: expected 24, got ".toList ++ (toString nonceBytes.length).toList)))
        else
          let ciphertextPart ← orPanic parts[3]?
          let ciphertext ← ofResult (decodePart lib "ciphertext" ciphertextPart)
          let nonce ← orPanic (nonceFromSlice nonceBytes)
          pure ⟨salt, nonce, ciphertext⟩

/-- A call of `SecretEncryption::decrypt`. -/
def SecretEncryption.callDecrypt (enc : SecretEncryption) (encrypted : Str) : Option (Except ZeptoError Str) :=
  ExceptT.run do
    let envelope ← cutEnvelope lib encrypted
    ofResult (openWith lib enc.key envelope)

/-- A call of `PassphraseEncryption::decrypt`. -/
def PassphraseEncryption.callDecrypt (enc : PassphraseEncryption) (encrypted : Str) : Option (Except ZeptoError Str) :=
  ExceptT.run do
    let envelope ← cutEnvelope lib encrypted
    let key ← ofResult (deriveKey lib enc.passphrase envelope.salt)
    ofResult (openWith lib key envelope)

/-! ## The master key -/

/-- `resolve_master_key`: `env` is the environment variable, `prompt` what is typed, `salt`
what is drawn. -/
def resolveMasterKey (env : Option Str) (interactive : Bool) (prompt : Except Str Str) (salt : Salt) :
    Except ZeptoError SecretEncryption :=
  match env with
  | some hexKey => do
    let bytes ← configErr "ZEPTOCLAW_MASTER_KEY is not valid hex: " (lib.hexDecode (Text.trim hexKey))
    if h : bytes.length = 32 then .ok (.fromRawKey ⟨bytes, h⟩)
    else
      .error (.config ("ZEPTOCLAW_MASTER_KEY must be 64 hex chars (32 bytes), got ".toList ++
        (toString bytes.length).toList ++ " bytes".toList))
  | none =>
    if interactive then do
      let passphrase ← configErr "failed to read passphrase: " prompt
      if passphrase = [] then .error (.config "passphrase cannot be empty".toList)
      else SecretEncryption.fromPassphrase lib passphrase salt
    else
      .error (.config
        "no master key available: set ZEPTOCLAW_MASTER_KEY env var or use interactive mode".toList)

end Zeptoclaw
