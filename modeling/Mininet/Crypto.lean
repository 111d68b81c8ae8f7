import Mininet.Lib.Reader

/-!
# Cryptographic primitives

The primitives Mininet composes from outside crates (BLAKE3, Ed25519, ML-DSA-65) are parameters:
`Primitives` names the functions the code calls. Everything built around them in `mini-crypto`
(suite tags, length checks, suite matching) is modelled as the code computes it.
-/

namespace Mininet

open Codec Fallible

abbrev Bytes := List UInt8

instance Bytes.lawfulBEq : LawfulBEq Bytes := inferInstance

/-- A 32-byte digest, network identifier or root. -/
abbrev Hash := Vector UInt8 32

namespace Hash

instance lawfulBEq : LawfulBEq Hash := inferInstance

instance transOrd : Std.TransOrd Hash := inferInstance

instance lawfulEqOrd : Std.LawfulEqOrd Hash := inferInstance

def bytes (h : Hash) : Bytes := h.toList

/-- The all-zero digest. -/
def zero : Hash := Vector.replicate 32 0

@[simp] lemma length_bytes (h : Hash) : h.bytes.length = 32 := by simp [bytes]

lemma bytes_injective : Function.Injective bytes := fun _ _ h => Vector.toList_inj.mp h

/-- The digest a byte string of 32 bytes is. -/
def ofBytes (bs : Bytes) : Hash := Vector.ofFn fun i => bs.getD i 0

@[simp] lemma ofBytes_bytes (h : Hash) : ofBytes h.bytes = h := by
  apply Vector.ext
  intro i hi
  simp [ofBytes, bytes]

lemma bytes_ofBytes {bs : Bytes} (h : bs.length = 32) : (ofBytes bs).bytes = bs := by
  apply List.ext_getElem
  · simp [h]
  · intro i hi hi'
    simp [ofBytes, bytes, hi']

/-- Read 32 bytes. -/
def read {ε : Type} (e : ε) : Reader ε Hash := ofBytes <$> take e 32

lemma reads_read {ε : Type} (e : ε) (h : Hash) : Reads (read e) h.bytes h := by
  have hread := Reads.map (p := take e 32) ofBytes (reads_take (length_bytes h))
  rwa [ofBytes_bytes] at hread

lemma decodes_read {ε : Type} (e : ε) : Decodes (read e) bytes fun _ => True := by
  intro bs h rest
  rw [read, (decodes_take e 32).map]
  constructor
  · rintro ⟨raw, hlength, rfl, rfl⟩
    exact ⟨by rw [bytes_ofBytes hlength, id], trivial⟩
  · rintro ⟨rfl, -⟩
    exact ⟨h.bytes, length_bytes h, (ofBytes_bytes h).symm, rfl⟩

end Hash

inductive CryptoError where
  | badLength (expected got : ℕ)
  | invalidPublicKey
  | badSignature
  | unknownSuite (tag : UInt8)
  | badEncoding
  | unsupportedMultibase (base : Char)
  | emptyMultibase
  | unknownOrForbiddenHashCode (code : UInt64)
  | badVarint
  | entropy
  | unknownAeadSuite (tag : UInt8)
  | aead
  deriving DecidableEq, Repr

/-- The functions taken from outside crates. -/
class Primitives where
  /-- BLAKE3 with 256-bit output. -/
  blake3 : Bytes → Hash
  /-- Whether 32 bytes decode to an Ed25519 public key. -/
  ed25519Key : Bytes → Bool
  /-- Ed25519 verification of a 64-byte signature over a message. -/
  ed25519Verify : Bytes → Bytes → Bytes → Bool
  /-- Whether 1952 bytes decode to an ML-DSA-65 public key. -/
  mlDsa65Key : Bytes → Bool
  /-- ML-DSA-65 verification of a 3309-byte signature over a message. -/
  mlDsa65Verify : Bytes → Bytes → Bytes → Bool
  /-- Whether a string is a multibase encoding of a canonical strong multihash. -/
  validateScid : String → Except CryptoError Unit

export Primitives (blake3)

/-- Primitives to evaluate the model with: the digest of a message is its last 32 bytes, backwards,
and every key and signature of the right length is accepted. -/
@[reducible] def Primitives.sample : Primitives where
  blake3 bs := Vector.ofFn fun i => bs.reverse.getD i 0
  ed25519Key _ := true
  ed25519Verify _ _ _ := true
  mlDsa65Key _ := true
  mlDsa65Verify _ _ _ := true
  validateScid _ := .ok ()

namespace Primitives

end Primitives

/-- The multihash of a BLAKE3 digest: its code and its length, which as varints are a byte each, and
the digest. -/
def multihash [Primitives] (bs : Bytes) : Bytes := [0x1e, 32] ++ (blake3 bs).bytes

@[simp] lemma length_multihash [Primitives] (bs : Bytes) : (multihash bs).length = 34 := by
  simp [multihash]

/-! ### Signature suites -/

inductive SignatureSuite where
  | ed25519
  | mlDsa65
  deriving DecidableEq, Repr

namespace SignatureSuite

/-- The suite of new identities and keys. -/
def default : SignatureSuite := .ed25519

def tag : SignatureSuite → UInt8
  | .ed25519 => 0x01
  | .mlDsa65 => 0x02

def fromTag (tag : UInt8) : Except CryptoError SignatureSuite :=
  if tag = 0x01 then .ok .ed25519
  else if tag = 0x02 then .ok .mlDsa65
  else .error (.unknownSuite tag)

def publicKeyLen : SignatureSuite → ℕ
  | .ed25519 => 32
  | .mlDsa65 => 1952

def signatureLen : SignatureSuite → ℕ
  | .ed25519 => 64
  | .mlDsa65 => 3309

@[simp] lemma fromTag_tag (s : SignatureSuite) : fromTag s.tag = .ok s := by
  cases s <;> rfl

lemma tag_of_fromTag {t : UInt8} {s : SignatureSuite} (h : fromTag t = .ok s) : t = s.tag := by
  unfold fromTag at h
  split_ifs at h with h1 h2
  · cases h
    exact h1
  · cases h
    exact h2

end SignatureSuite

/-- A signature tagged with its suite. Its length is the suite's, since every constructor of the
source checks it or comes from the signing algorithm. -/
structure Signature where
  suite : SignatureSuite
  bytes : Bytes
  length_eq : bytes.length = suite.signatureLen
  deriving DecidableEq

namespace Signature

/-- A signature to evaluate the model with. -/
def filled (b : UInt8) : Signature :=
  ⟨.ed25519, List.replicate 64 b, by simp [SignatureSuite.signatureLen]⟩

def fromSuiteBytes (suite : SignatureSuite) (bytes : Bytes) : Except CryptoError Signature :=
  if h : bytes.length = suite.signatureLen then .ok ⟨suite, bytes, h⟩
  else .error (.badLength suite.signatureLen bytes.length)

@[simp] lemma fromSuiteBytes_bytes (s : Signature) : fromSuiteBytes s.suite s.bytes = .ok s := by
  simp [fromSuiteBytes, s.length_eq]

/-- A signature on the wire: its suite's tag and its bytes. -/
def wireBytes (s : Signature) : Bytes := [s.suite.tag] ++ s.bytes

/-- Read a signature; everything that can go wrong is reported as `e`. -/
def read {ε : Type} (e : ε) : Reader ε Signature := do
  let tag ← word e UInt8
  let suite ← lift ((SignatureSuite.fromTag tag).mapError fun _ => e)
  let bytes ← take e suite.signatureLen
  lift ((fromSuiteBytes suite bytes).mapError fun _ => e)

lemma reads_read {ε : Type} (e : ε) (s : Signature) : Reads (read e) s.wireBytes s := by
  refine (reads_byte e s.suite.tag).bind (Reads.lift_bind (a := s.suite) (by simp) ?_)
  exact (reads_take s.length_eq).bind_lift (by simp)

end Signature

/-- A public key that decoded under its suite. -/
structure VerifyingKey where
  suite : SignatureSuite
  bytes : Bytes
  deriving DecidableEq

namespace VerifyingKey

variable [Primitives]

def fromSuiteBytes (suite : SignatureSuite) (bytes : Bytes) : Except CryptoError VerifyingKey :=
  if bytes.length ≠ suite.publicKeyLen then .error (.badLength suite.publicKeyLen bytes.length)
  else
    let decodes := match suite with
      | .ed25519 => Primitives.ed25519Key bytes
      | .mlDsa65 => Primitives.mlDsa65Key bytes
    if decodes then .ok ⟨suite, bytes⟩ else .error .invalidPublicKey

/-- Verify a signature; a suite mismatch is a bad signature. -/
def verify (key : VerifyingKey) (message : Bytes) (signature : Signature) :
    Except CryptoError Unit :=
  if signature.suite ≠ key.suite then .error .badSignature
  else
    let valid := match key.suite with
      | .ed25519 => Primitives.ed25519Verify key.bytes message signature.bytes
      | .mlDsa65 => Primitives.mlDsa65Verify key.bytes message signature.bytes
    if valid then .ok () else .error .badSignature

/-- A key that decodes has the length of its suite. -/
lemma length_of_fromSuiteBytes {suite : SignatureSuite} {bytes : Bytes} {key : VerifyingKey}
    (h : fromSuiteBytes suite bytes = .ok key) : bytes.length = suite.publicKeyLen := by
  unfold fromSuiteBytes at h
  split_ifs at h with hlen
  exact not_not.mp hlen

end VerifyingKey

end Mininet
