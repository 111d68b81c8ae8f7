import Mininet.Objects.Signing

/-!
# Private objects

What an object tells about itself travels encrypted here, inside an envelope that shows a route and
how long it is meant to be kept. The envelope's decoder limits the ciphertext as a whole and the
decoder of the inside each field, and sealing asks neither.
-/

namespace Mininet.Objects

open Codec Fallible Identity

def maxApplicationMetadataBytes : ℕ := 64 * 1024

/-- The inside of an envelope. -/
structure PrivateObject where
  objectType : ObjectType
  authorHuman : Did
  authorDevice : Did
  timestampMs : UInt64
  sequence : UInt64
  links : List Link
  applicationMetadata : Bytes
  payload : Bytes
  signatures : List IndexedSig

namespace PrivateObject

def encodeFields (x : PrivateObject) : Bytes :=
  x.objectType.encode ++ framed UInt32 (utf8 x.authorHuman.asStr) ++
    framed UInt32 (utf8 x.authorDevice.asStr) ++ toBeBytes x.timestampMs ++ toBeBytes x.sequence ++
    (countBytes UInt32 x.links.length ++ x.links.flatMap Link.encode) ++
    framed UInt32 x.applicationMetadata ++ framed UInt32 x.payload

def toBytes (x : PrivateObject) : Bytes := x.encodeFields ++ encodeSigs x.signatures

variable [KeyPrimitives]

def decodeSignatures : Reader ObjectError (List IndexedSig) := do
  let nsigs ← readCount .truncated .limitExceeded UInt32 maxSignatures
  readMany decodeSignature nsigs

def decode : Reader ObjectError PrivateObject := do
  let objectType ← decodeType
  let authorHuman ← decodeDid
  let authorDevice ← decodeDid
  let timestampMs ← word .truncated UInt64
  let sequence ← word .truncated UInt64
  let links ← decodeLinks
  let applicationMetadata ← bytesLimited maxApplicationMetadataBytes
  let payload ← bytesLimited maxPayloadBytes
  let signatures ← decodeSignatures
  lift (failIf (¬ signaturesAreCanonical signatures) .noncanonicalSignatureOrder)
  return ⟨objectType, authorHuman, authorDevice, timestampMs, sequence, links, applicationMetadata,
    payload, signatures⟩

def fromBytes (bytes : Bytes) : Except ObjectError PrivateObject :=
  whole decode .trailingBytes bytes

/-- The field limits of the decoder. -/
structure Portable (x : PrivateObject) : Prop where
  objectType : x.objectType.Portable
  authorHuman : x.authorHuman.Valid ∧ (utf8 x.authorHuman.asStr).length ≤ maxDidBytes
  authorDevice : x.authorDevice.Valid ∧ (utf8 x.authorDevice.asStr).length ≤ maxDidBytes
  links : x.links.length ≤ maxLinks ∧ ∀ l ∈ x.links, l.Portable
  applicationMetadata : x.applicationMetadata.length ≤ maxApplicationMetadataBytes
  payload : x.payload.length ≤ maxPayloadBytes
  signatures : x.signatures.length ≤ maxSignatures
  canonical : signaturesAreCanonical x.signatures = true

/-- What is within the limits is read back. -/
lemma Portable.fromBytes_toBytes {x : PrivateObject} (h : x.Portable) :
    fromBytes x.toBytes = .ok x := by
  have hsigs : Decodes decodeSignatures encodeSigs _ :=
    (decodes_readCount _ _ _ (by decide : maxSignatures < 2 ^ 32)).counted decodes_signature
  have hbytes : x.toBytes = x.objectType.encode ++
      (framed UInt32 (utf8 x.authorHuman.asStr) ++ (framed UInt32 (utf8 x.authorDevice.asStr) ++
      (toBeBytes x.timestampMs ++ (toBeBytes x.sequence ++
      ((countBytes UInt32 x.links.length ++ x.links.flatMap Link.encode) ++
      (framed UInt32 x.applicationMetadata ++ (framed UInt32 x.payload ++
      (encodeSigs x.signatures ++ [])))))))) := by
    simp [toBytes, encodeFields]
  have hreads : Reads decode x.toBytes x := by
    rw [hbytes]
    refine (decodes_type.reads h.objectType).bind ((decodes_did.reads h.authorHuman).bind ?_)
    refine (decodes_did.reads h.authorDevice).bind (((decodes_word _ _).reads trivial).bind ?_)
    refine ((decodes_word _ _).reads trivial).bind ((decodes_links.reads h.links).bind ?_)
    refine ((decodes_bytesLimited (by decide)).reads h.applicationMetadata).bind ?_
    refine ((decodes_bytesLimited (by decide)).reads h.payload).bind ?_
    refine (hsigs.reads ⟨h.signatures, fun _ _ => trivial⟩).bind (Reads.failIf_bind ?_ ?_)
    · exact not_not.mpr h.canonical
    · exact Reads.pure x
  exact bind_ok.mpr ⟨(x, []), hreads.run, failIf_bind_ok.mpr ⟨not_not.mpr rfl, rfl⟩⟩

end PrivateObject

/-! ### Envelopes -/

namespace ObjectEnvelopeV2

def maxCiphertextBytes : ℕ := maxPayloadBytes + 4096

def retentionFromTag (tag : UInt8) : Except ObjectError RetentionClass :=
  if tag = 0 then .ok .ephemeral
  else if tag = 1 then .ok .standard
  else if tag = 2 then .ok .archival
  else .error .badObject

section

variable [AeadPrimitives]

/-- Encrypt an object under a fresh nonce. -/
def sealObject (inner : PrivateObject) (key : AeadKey) (route : Hash) (retention : RetentionClass)
    (nonce : AeadNonce) : Except ObjectError ObjectEnvelopeV2 := do
  let e : ObjectEnvelopeV2 := ⟨key.suite, route, retention, nonce, []⟩
  let ciphertext ← okOr (key.encrypt nonce inner.toBytes e.headerBytes) (.crypto .aead)
  return { e with ciphertext }

/-- Decrypt an envelope and read the object inside. -/
def openObject [KeyPrimitives] (e : ObjectEnvelopeV2) (key : AeadKey) :
    Except ObjectError PrivateObject := do
  let plaintext ← okOr (key.decrypt e.nonce e.ciphertext e.headerBytes) (.crypto .aead)
  PrivateObject.fromBytes plaintext

end

def nonceFromBytes (bytes : Bytes) : AeadNonce := Vector.ofFn fun i => bytes.getD i 0

def decode : Reader ObjectError ObjectEnvelopeV2 := do
  let version ← word .truncated UInt8
  lift (failIf (version ≠ envelopeVersion) .unsupportedEnvelopeVersion)
  let tag ← word .truncated UInt8
  let suite ← lift ((AeadSuite.fromTag tag).mapError .crypto)
  let route ← Hash.read .truncated
  let tag ← word .truncated UInt8
  let retention ← lift (retentionFromTag tag)
  let nonce ← take .truncated 12
  let ciphertext ← bytesLimited maxCiphertextBytes
  return ⟨suite, route, retention, nonceFromBytes nonce, ciphertext⟩

def fromBytes (bytes : Bytes) : Except ObjectError ObjectEnvelopeV2 :=
  whole decode .trailingBytes bytes

lemma retentionFromTag_ok {tag : UInt8} {retention : RetentionClass} :
    retentionFromTag tag = .ok retention ↔ tag = retention.tag := by
  constructor
  · intro h
    unfold retentionFromTag at h
    split_ifs at h with h0 h1 h2 <;> cases h
    exacts [h0, h1, h2]
  · rintro rfl
    cases retention <;> rfl

lemma suiteFromTag_ok {tag : UInt8} {suite : AeadSuite} :
    AeadSuite.fromTag tag = .ok suite ↔ tag = suite.tag := by
  cases suite
  simp [AeadSuite.fromTag, AeadSuite.tag]

lemma toList_nonceFromBytes {bytes : Bytes} (h : bytes.length = 12) :
    (nonceFromBytes bytes).toList = bytes := by
  apply List.ext_getElem
  · simp [h]
  · intro i hi hi'
    simp [nonceFromBytes, hi']

/-- The decoder accepts the encodings of the envelopes with a ciphertext within the limit, and
nothing else. -/
lemma decodes_envelope :
    Decodes decode toBytes fun e => e.ciphertext.length ≤ maxCiphertextBytes := by
  intro bs e rest
  rw [decode, (decodes_word _ _).bind]
  simp only [lift_bind_ok, failIf_ok, not_not, (decodes_word _ UInt8).bind, mapError_ok,
    suiteFromTag_ok, (Hash.decodes_read _).bind, retentionFromTag_ok, (decodes_take _ _).bind,
    (decodes_bytesLimited (by decide : maxCiphertextBytes < 2 ^ 32)).bind, run_pure_ok]
  constructor
  · rintro ⟨version, -, m1, rfl, ⟨⟩, rfl, tag, -, m2, rfl, suite, rfl, route, -, m3, rfl, tag', -, m4,
      rfl, retention, rfl, nonce, hnonce, m5, rfl, ciphertext, hle, m6, rfl, rfl, rfl⟩
    refine ⟨?_, hle⟩
    simp [toBytes, headerBytes, toBeBytes_byte, toList_nonceFromBytes hnonce]
  · rintro ⟨rfl, hle⟩
    refine ⟨envelopeVersion, trivial, _, ?_, (), rfl, e.suite.tag, trivial, _, rfl, e.suite, rfl,
      e.route, trivial, _, rfl, e.retention.tag, trivial, _, rfl, e.retention, rfl, e.nonce.toList,
      Vector.length_toList, _, rfl, e.ciphertext, hle, rest, rfl, ?_, rfl⟩
    · simp [toBytes, headerBytes, toBeBytes_byte]
    · have hnonce : (nonceFromBytes e.nonce.toList).toList = e.nonce.toList :=
        toList_nonceFromBytes Vector.length_toList
      rw [Vector.toList_inj.mp hnonce]

lemma length_toBytes (e : ObjectEnvelopeV2) : e.toBytes.length = 51 + e.ciphertext.length := by
  simp [toBytes, headerBytes]
  omega

/-- A sealed object can be stored and opened again exactly when its bytes and the tag are within the
limit of a ciphertext. -/
theorem stored_and_opened_iff [KeyPrimitives] [AeadPrimitives] [LawfulAead] {x : PrivateObject}
    (hx : PrivateObject.fromBytes x.toBytes = .ok x) {key : AeadKey} {route : Hash}
    {retention : RetentionClass} {nonce : AeadNonce} {e : ObjectEnvelopeV2}
    (hseal : sealObject x key route retention nonce = .ok e) :
    (fromBytes e.toBytes = .ok e ∧ e.openObject key = .ok x ↔
      x.toBytes.length + 16 ≤ maxCiphertextBytes) ∧
      ∀ bytes e', fromBytes bytes = .ok e' → bytes = e'.toBytes := by
  obtain ⟨ciphertext, hencrypt, he⟩ := bind_ok.mp hseal
  cases he
  have hencrypt := okOr_ok.mp hencrypt
  refine ⟨?_, fun bytes e' h => (decodes_envelope.whole_ok.mp h).1⟩
  rw [← AeadKey.length_of_encrypt hencrypt]
  constructor
  · exact fun h => (decodes_envelope.whole_ok.mp h.1).2
  · intro hle
    refine ⟨decodes_envelope.whole_ok.mpr ⟨rfl, hle⟩, ?_⟩
    exact bind_ok.mpr ⟨_, okOr_ok.mpr (AeadKey.decrypt_of_encrypt hencrypt), hx⟩

/-- A private object without links or signatures. -/
def samplePrivate (applicationMetadata payload : Bytes) : PrivateObject where
  objectType := .wellKnown 1
  authorHuman := Controller.sampleWitness
  authorDevice := Controller.sampleWitness
  timestampMs := 0
  sequence := 0
  links := []
  applicationMetadata
  payload
  signatures := []

lemma samplePrivate_portable (applicationMetadata payload : Bytes)
    (hmetadata : applicationMetadata.length ≤ maxApplicationMetadataBytes)
    (hpayload : payload.length ≤ maxPayloadBytes) :
    @PrivateObject.Portable .sample (samplePrivate applicationMetadata payload) := by
  let := KeyPrimitives.sample
  have := lawfulKeys_sample
  have hdid := ObjectBuilder.portable_did Controller.valid_sampleWitness
  have htype : (1 : UInt16) ≠ ObjectType.customTypeMarker := by decide
  exact ⟨htype, hdid, hdid, ⟨Nat.zero_le _, nofun⟩, hmetadata, hpayload, Nat.zero_le _, rfl⟩

def sampleAeadKey : AeadKey := ⟨.chaCha20Poly1305, Hash.zero⟩

/-- An empty object is stored and opened. -/
theorem sample_stored_and_opened :
    letI := KeyPrimitives.sample
    letI := AeadPrimitives.sample
    ∃ e, sealObject (samplePrivate [] []) sampleAeadKey Hash.zero .standard
        (Vector.replicate 12 0) = .ok e ∧ fromBytes e.toBytes = .ok e ∧
      e.openObject sampleAeadKey = .ok (samplePrivate [] []) := by
  let := KeyPrimitives.sample
  let := AeadPrimitives.sample
  have := lawfulAead_sample
  have hx := (samplePrivate_portable [] [] (Nat.zero_le _) (Nat.zero_le _)).fromBytes_toBytes
  exact ⟨_, rfl, (stored_and_opened_iff hx rfl).1.mpr (by decide +kernel)⟩

/-- With the largest payload and 4096 bytes of metadata the sealed object is not read back. -/
theorem sample_not_stored :
    letI := KeyPrimitives.sample
    letI := AeadPrimitives.sample
    ∃ x e, PrivateObject.fromBytes x.toBytes = .ok x ∧
      sealObject x sampleAeadKey Hash.zero .standard (Vector.replicate 12 0) = .ok e ∧
      ∀ e', fromBytes e.toBytes ≠ .ok e' := by
  let := KeyPrimitives.sample
  let := AeadPrimitives.sample
  have := lawfulAead_sample
  obtain ⟨metadata, hmetadata⟩ : ∃ bytes : Bytes, bytes.length = 4096 :=
    ⟨List.replicate 4096 0, List.length_replicate⟩
  obtain ⟨payload, hpayload⟩ : ∃ bytes : Bytes, bytes.length = maxPayloadBytes :=
    ⟨List.replicate maxPayloadBytes 0, List.length_replicate⟩
  have hx := samplePrivate_portable metadata payload
    (hmetadata.trans_le (by norm_num [maxApplicationMetadataBytes])) hpayload.le
  refine ⟨_, _, hx.fromBytes_toBytes, rfl, fun e' h => ?_⟩
  obtain ⟨hbytes, hle⟩ := decodes_envelope.whole_ok.mp h
  have hlength := congrArg List.length hbytes
  simp only [length_toBytes, PrivateObject.toBytes, PrivateObject.encodeFields, samplePrivate,
    List.length_append, length_framed, hmetadata, hpayload] at hlength
  have hle : e'.ciphertext.length ≤ maxPayloadBytes + 4096 := hle
  omega

end ObjectEnvelopeV2

end Mininet.Objects
