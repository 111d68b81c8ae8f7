import Mininet.Crypto

/-!
# Authenticated encryption

ChaCha20-Poly1305 comes from an outside crate and is a parameter here; `LawfulAead` says what is
relied on of it.
-/

namespace Mininet

inductive AeadSuite where
  | chaCha20Poly1305
  deriving DecidableEq

def AeadSuite.tag : AeadSuite → UInt8
  | .chaCha20Poly1305 => 0x01

def AeadSuite.fromTag (tag : UInt8) : Except CryptoError AeadSuite :=
  if tag = 0x01 then .ok .chaCha20Poly1305 else .error (.unknownAeadSuite tag)

abbrev AeadNonce := Vector UInt8 12

/-- A symmetric key tagged with its suite. -/
structure AeadKey where
  suite : AeadSuite
  bytes : Hash
  deriving DecidableEq

/-- The cipher taken from an outside crate. -/
class AeadPrimitives where
  /-- ChaCha20-Poly1305 encryption of a plaintext, with associated data. -/
  chaCha20Poly1305Encrypt : Hash → AeadNonce → Bytes → Bytes → Option Bytes
  /-- Decryption, which fails on what does not authenticate. -/
  chaCha20Poly1305Decrypt : Hash → AeadNonce → Bytes → Bytes → Option Bytes

export AeadPrimitives (chaCha20Poly1305Encrypt chaCha20Poly1305Decrypt)

/-- What was encrypted decrypts, and carries a tag of 16 bytes. -/
class LawfulAead [AeadPrimitives] : Prop where
  decrypt_encrypt {key : Hash} {nonce : AeadNonce} {plaintext aad ciphertext : Bytes}
    (h : chaCha20Poly1305Encrypt key nonce plaintext aad = some ciphertext) :
    chaCha20Poly1305Decrypt key nonce ciphertext aad = some plaintext
  length_encrypt {key : Hash} {nonce : AeadNonce} {plaintext aad ciphertext : Bytes}
    (h : chaCha20Poly1305Encrypt key nonce plaintext aad = some ciphertext) :
    ciphertext.length = plaintext.length + 16

namespace AeadKey

variable [AeadPrimitives]

def encrypt (key : AeadKey) (nonce : AeadNonce) (plaintext aad : Bytes) : Option Bytes :=
  match key.suite with
  | .chaCha20Poly1305 => chaCha20Poly1305Encrypt key.bytes nonce plaintext aad

def decrypt (key : AeadKey) (nonce : AeadNonce) (ciphertext aad : Bytes) : Option Bytes :=
  match key.suite with
  | .chaCha20Poly1305 => chaCha20Poly1305Decrypt key.bytes nonce ciphertext aad

variable [LawfulAead] {plaintext aad ciphertext : Bytes} {nonce : AeadNonce} {key : AeadKey}

lemma decrypt_of_encrypt (h : key.encrypt nonce plaintext aad = some ciphertext) :
    key.decrypt nonce ciphertext aad = some plaintext :=
  LawfulAead.decrypt_encrypt h

lemma length_of_encrypt (h : key.encrypt nonce plaintext aad = some ciphertext) :
    ciphertext.length = plaintext.length + 16 :=
  LawfulAead.length_encrypt h

end AeadKey

/-- A cipher to evaluate the model with: it encrypts nothing and its tag is zero. -/
@[reducible] def AeadPrimitives.sample : AeadPrimitives where
  chaCha20Poly1305Encrypt _ _ plaintext _ := some (plaintext ++ List.replicate 16 0)
  chaCha20Poly1305Decrypt _ _ ciphertext _ := some (ciphertext.take (ciphertext.length - 16))

lemma lawfulAead_sample : @LawfulAead .sample := by
  refine @LawfulAead.mk .sample ?_ ?_
  · intro key nonce plaintext aad ciphertext h
    cases h
    have htake : (plaintext ++ List.replicate 16 (0 : UInt8)).take
        ((plaintext ++ List.replicate 16 0).length - 16) = plaintext := by
      simp
    exact congrArg some htake
  · intro key nonce plaintext aad ciphertext h
    cases h
    simp

end Mininet
