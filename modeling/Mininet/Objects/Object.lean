import Mininet.Aead
import Mininet.Identity.Exchange

/-!
# Objects

The signed, content-addressed envelope that everything in the network is written in: its canonical
bytes, the identifier derived from them, the decoder with its limits, and the builder that signs.
Each part of the decoder accepts exactly the encodings of the values within its limits, so that
`Object.fromBytes_ok` says in one line what is read back and what it is encoded to.
-/

namespace Mininet.Objects

open Codec Fallible Identity

/-- Why an object failed to decode or verify. -/
inductive ObjectError where
  | truncated
  | trailingBytes
  | noncanonicalSignatureOrder
  | badObject
  | limitExceeded
  | idMismatch
  | deviceMismatch
  | missingCapability
  | unsupportedEnvelopeVersion
  | crypto (e : CryptoError)
  | identity (e : IdentityError)
  deriving DecidableEq

/-! ### Limits -/

def maxPayloadBytes : ℕ := 8 * 1024 * 1024

def maxLinks : ℕ := 256

def maxIdBytes : ℕ := 128

def maxDidBytes : ℕ := 256

def maxTypeBytes : ℕ := 64

def maxRelBytes : ℕ := 32

def maxSigBytes : ℕ := maxSignatureBytes

/-! ### Identifiers -/

/-- The identifier of some bytes: the multibase text of their multihash. -/
structure ObjectId where
  asStr : String
  deriving DecidableEq

namespace ObjectId

variable {id : ObjectId}

lemma asStr_injective : Function.Injective asStr := by
  rintro ⟨a⟩ ⟨b⟩ h
  exact congrArg ObjectId.mk h

/-- Identifiers are ordered as their texts. -/
instance : LinearOrder ObjectId := LinearOrder.lift' asStr asStr_injective

variable [KeyPrimitives] {s : String}

/-- Parse an identifier: the base58 text of a multihash. -/
def parse (s : String) : Except ObjectError ObjectId := do
  failIf (s.toList.head? ≠ some 'z') .badObject
  let bytes ← (decodeMultibase s).mapError .crypto
  let _ ← (Multihash.fromBytes bytes).mapError .crypto
  return ⟨s⟩

/-- The identifier derived from bytes. -/
def of (bytes : Bytes) : ObjectId := ⟨"z" ++ base58 (multihash bytes)⟩

/-- An identifier as every constructor of the source makes it. -/
def Valid (id : ObjectId) : Prop := parse id.asStr = .ok id

lemma asStr_of_parse (h : parse s = .ok id) : id.asStr = s := by
  obtain ⟨-, h⟩ := failIf_bind_ok.mp h
  obtain ⟨bytes, -, h⟩ := bind_ok.mp h
  obtain ⟨m, -, h⟩ := bind_ok.mp h
  cases h
  rfl

lemma valid_of_parse (h : parse s = .ok id) : id.Valid := by
  rw [Valid, asStr_of_parse h]
  exact h

variable [LawfulKeys]

lemma valid_of (bytes : Bytes) : (of bytes).Valid := by
  have hbytes : decodeMultibase (of bytes).asStr = .ok (multihash bytes) := by
    rw [of, decodeMultibase_z, LawfulKeys.base58Decode_base58]
    rfl
  refine failIf_bind_ok.mpr ⟨by simp [of], bind_ok.mpr ⟨_, mapError_ok.mpr hbytes, ?_⟩⟩
  exact bind_ok.mpr ⟨_, mapError_ok.mpr (fromBytes_multihash bytes), rfl⟩

/-- Equal identifiers are those of equal digests. -/
lemma blake3_of_of {xs ys : Bytes} (h : of xs = of ys) : blake3 xs = blake3 ys := by
  have hbody : base58 (multihash xs) = base58 (multihash ys) := by
    have hlist := congrArg (fun id : ObjectId => id.asStr.toList) h
    simpa [of, String.toList_inj] using hlist
  have hdecoded := LawfulKeys.base58Decode_base58 (multihash xs)
  rw [hbody, LawfulKeys.base58Decode_base58] at hdecoded
  exact Hash.bytes_injective (List.append_cancel_left (Option.some.inj hdecoded).symm)

/-- The text of an identifier is that of a self-certifying one. -/
lemma scidText_of_valid (h : id.Valid) : ScidText id.asStr := by
  obtain ⟨-, h⟩ := failIf_bind_ok.mp h
  obtain ⟨bytes, hbytes, h⟩ := bind_ok.mp h
  obtain ⟨m, hm, -⟩ := bind_ok.mp h
  refine scidText_of_validateScid ?_
  rw [LawfulKeys.validateScid_eq]
  exact bind_ok.mpr ⟨bytes, mapError_ok.mp hbytes, bind_ok.mpr ⟨m, mapError_ok.mp hm, rfl⟩⟩

end ObjectId

/-! ### Objects -/

/-- What an object is. -/
inductive ObjectType where
  | wellKnown (tag : UInt16)
  | custom (name : String)
  deriving DecidableEq

namespace ObjectType

def commit : ObjectType := .wellKnown 10

def release : ObjectType := .wellKnown 11

def head : ObjectType := .wellKnown 12

/-- The tag that announces the name of a custom type. -/
def customTypeMarker : UInt16 := 0xffff

def encode : ObjectType → Bytes
  | .wellKnown tag => toBeBytes tag ++ framed UInt32 []
  | .custom name   => toBeBytes customTypeMarker ++ framed UInt32 (utf8 name)

end ObjectType

inductive Payload where
  | pub (bytes : Bytes)
  | encrypted (bytes : Bytes)
  deriving DecidableEq

namespace Payload

def bytes : Payload → Bytes
  | .pub bytes       => bytes
  | .encrypted bytes => bytes

def isEncrypted : Payload → Bool
  | .pub _       => false
  | .encrypted _ => true

def encode : Payload → Bytes
  | .pub bytes       => [0] ++ framed UInt32 bytes
  | .encrypted bytes => [1] ++ framed UInt32 bytes

end Payload

/-- A typed reference to another object. -/
structure Link where
  rel : String
  target : ObjectId
  deriving DecidableEq

def Link.encode (l : Link) : Bytes :=
  framed UInt32 (utf8 l.rel) ++ framed UInt32 (utf8 l.target.asStr)

/-- A signed object. The identifier is filled in when it is built; most other fields can be written
to afterwards, so that the two may come apart. -/
structure Object where
  id : ObjectId
  suite : SignatureSuite
  objectType : ObjectType
  authorHuman : Did
  authorDevice : Did
  timestampMs : UInt64
  sequence : UInt64
  links : List Link
  payload : Payload
  signatures : List IndexedSig
  deriving DecidableEq

/-- Whether the key indices of a signature list ascend. -/
def signaturesAreCanonical (sigs : List IndexedSig) : Bool :=
  (sigs.zip sigs.tail).all fun (s, t) => s.index < t.index

namespace Object

/-- The bytes that the device signs. -/
def signingBytes (o : Object) : Bytes :=
  [1] ++ [o.suite.tag] ++ o.objectType.encode ++ framed UInt32 (utf8 o.authorHuman.asStr) ++
    framed UInt32 (utf8 o.authorDevice.asStr) ++ toBeBytes o.timestampMs ++ toBeBytes o.sequence ++
    (countBytes UInt32 o.links.length ++ o.links.flatMap Link.encode) ++ o.payload.encode

/-- The bytes that the identifier is derived from, and that travel. -/
def toBytes (o : Object) : Bytes := o.signingBytes ++ encodeSigs o.signatures

variable [KeyPrimitives]

/-- Fill in the identifier. -/
def identified (o : Object) : Object := { o with id := ObjectId.of o.toBytes }

end Object

/-! ### The decoder -/

section Decoder

variable [KeyPrimitives]

/-- Read a byte string behind its length. -/
def bytesLimited (max : ℕ) : Reader ObjectError Bytes :=
  readFramed .truncated .limitExceeded UInt32 max

omit [KeyPrimitives] in
lemma decodes_bytesLimited {max : ℕ} (hmax : max < 2 ^ 32) :
    Decodes (bytesLimited max) (framed UInt32) fun bs => bs.length ≤ max :=
  decodes_readFramed _ _ _ hmax

/-- The text of some bytes. -/
def fromUtf8 (bytes : Bytes) : Except ObjectError String := okOr (ofUtf8 bytes) .badObject

def parseDid (bytes : Bytes) : Except ObjectError Did := do
  let s ← fromUtf8 bytes
  (Did.parse s).mapError .identity

def decodeDid : Reader ObjectError Did := do
  let bytes ← bytesLimited maxDidBytes
  lift (parseDid bytes)

lemma decodes_did : Decodes decodeDid (fun d => framed UInt32 (utf8 d.asStr))
    fun d => d.Valid ∧ (utf8 d.asStr).length ≤ maxDidBytes := by
  intro bs d rest
  rw [decodeDid, (decodes_bytesLimited (by decide)).bind]
  simp only [run_lift_ok, parseDid, fromUtf8, bind_ok, okOr_ok, mapError_ok]
  constructor
  · rintro ⟨raw, hle, mid, rfl, ⟨s, hs, hd⟩, rfl⟩
    obtain rfl := (Did.parse_ok.mp hd).1
    rw [← utf8_of_ofUtf8 hs] at hle ⊢
    exact ⟨rfl, hd, hle⟩
  · rintro ⟨rfl, hd, hle⟩
    exact ⟨_, hle, rest, rfl, ⟨d.asStr, ofUtf8_utf8 _, hd⟩, rfl⟩

def customType (bytes : Bytes) : Except ObjectError ObjectType := do
  let name ← fromUtf8 bytes
  failIf (name = "") .badObject
  return .custom name

def wellKnownType (tag : UInt16) (name : Bytes) : Except ObjectError ObjectType := do
  failIf (name ≠ []) .badObject
  return .wellKnown tag

def decodeType : Reader ObjectError ObjectType := do
  let tag ← word .truncated UInt16
  let name ← bytesLimited maxTypeBytes
  lift (if tag = ObjectType.customTypeMarker then customType name else wellKnownType tag name)

/-- A type that the decoder accepts. -/
def ObjectType.Portable : ObjectType → Prop
  | .wellKnown tag => tag ≠ customTypeMarker
  | .custom name   => name ≠ "" ∧ (utf8 name).length ≤ maxTypeBytes

omit [KeyPrimitives] in
lemma decodes_type : Decodes decodeType ObjectType.encode ObjectType.Portable := by
  intro bs t rest
  rw [decodeType, (decodes_word _ _).bind]
  simp only [(decodes_bytesLimited (by decide : maxTypeBytes < 2 ^ 32)).bind, run_lift_ok]
  constructor
  · rintro ⟨tag, -, m1, rfl, name, hle, m2, rfl, ht, rfl⟩
    split_ifs at ht with hmarker
    · obtain ⟨s, hs, ht⟩ := bind_ok.mp ht
      obtain ⟨hne, ht⟩ := failIf_bind_ok.mp ht
      cases ht
      rw [← utf8_of_ofUtf8 (okOr_ok.mp hs)] at hle ⊢
      exact ⟨by rw [ObjectType.encode, hmarker, List.append_assoc], hne, hle⟩
    · obtain ⟨hnil, ht⟩ := failIf_bind_ok.mp ht
      cases ht
      rw [not_not.mp hnil]
      exact ⟨by rw [ObjectType.encode, List.append_assoc], hmarker⟩
  · rintro ⟨rfl, ht⟩
    cases t with
    | wellKnown tag =>
      exact ⟨tag, trivial, _, by rw [ObjectType.encode, List.append_assoc], [], by simp, rest, rfl,
        by rw [if_neg ht]; rfl, rfl⟩
    | custom name =>
      refine ⟨ObjectType.customTypeMarker, trivial, _, by rw [ObjectType.encode, List.append_assoc],
        utf8 name, ht.2, rest, rfl, ?_, rfl⟩
      rw [if_pos rfl]
      exact bind_ok.mpr ⟨name, okOr_ok.mpr (ofUtf8_utf8 name), failIf_bind_ok.mpr ⟨ht.1, rfl⟩⟩

def parseRel (bytes : Bytes) : Except ObjectError String := do
  let rel ← fromUtf8 bytes
  failIf (rel = "") .badObject
  return rel

def parseTarget (bytes : Bytes) : Except ObjectError ObjectId := do
  let s ← fromUtf8 bytes
  ObjectId.parse s

def decodeLink : Reader ObjectError Link := do
  let relBytes ← bytesLimited maxRelBytes
  let rel ← lift (parseRel relBytes)
  let idBytes ← bytesLimited maxIdBytes
  let target ← lift (parseTarget idBytes)
  return ⟨rel, target⟩

/-- A link that the decoder accepts. -/
structure Link.Portable (l : Link) : Prop where
  rel_ne : l.rel ≠ ""
  rel_length : (utf8 l.rel).length ≤ maxRelBytes
  target : l.target.Valid
  target_length : (utf8 l.target.asStr).length ≤ maxIdBytes

lemma decodes_link : Decodes decodeLink Link.encode Link.Portable := by
  intro bs l rest
  rw [decodeLink, (decodes_bytesLimited (by decide)).bind]
  simp only [lift_bind_ok, (decodes_bytesLimited (by decide : maxIdBytes < 2 ^ 32)).bind,
    run_pure_ok, parseRel, parseTarget, fromUtf8, bind_ok, okOr_ok, failIf_ok, pure_ok]
  constructor
  · rintro ⟨relBytes, hrel, m1, rfl, rel, ⟨rel', hrel', ⟨⟩, hne, rfl⟩, idBytes, hid, m2, rfl,
      target, ⟨s, hs, htarget⟩, rfl, rfl⟩
    rw [← utf8_of_ofUtf8 hrel'] at hrel ⊢
    rw [← utf8_of_ofUtf8 hs, ← ObjectId.asStr_of_parse htarget] at hid ⊢
    exact ⟨by simp [Link.encode], hne, hrel, ObjectId.valid_of_parse htarget, hid⟩
  · rintro ⟨rfl, h⟩
    exact ⟨_, h.rel_length, _, by rw [Link.encode, List.append_assoc], l.rel,
      ⟨l.rel, ofUtf8_utf8 _, (), h.rel_ne, rfl⟩, _, h.target_length, rest, rfl, l.target,
      ⟨_, ofUtf8_utf8 _, h.target⟩, rfl, rfl⟩

def decodeLinks : Reader ObjectError (List Link) := do
  let nlinks ← readCount .truncated .limitExceeded UInt32 maxLinks
  readMany decodeLink nlinks

lemma decodes_links :
    Decodes decodeLinks (fun links => countBytes UInt32 links.length ++ links.flatMap Link.encode)
      fun links => links.length ≤ maxLinks ∧ ∀ l ∈ links, l.Portable :=
  (decodes_readCount _ _ _ (by decide)).counted decodes_link

def decodePayload : Reader ObjectError Payload := do
  let tag ← word .truncated UInt8
  if tag = 0 then Payload.pub <$> bytesLimited maxPayloadBytes
  else if tag = 1 then Payload.encrypted <$> bytesLimited maxPayloadBytes
  else throw .badObject

section

omit [KeyPrimitives]

lemma decodes_payload :
    Decodes decodePayload Payload.encode fun p => p.bytes.length ≤ maxPayloadBytes := by
  have hbytes := decodes_bytesLimited (by decide : maxPayloadBytes < 2 ^ 32)
  intro bs p rest
  rw [decodePayload, (decodes_word _ _).bind]
  constructor
  · rintro ⟨tag, -, mid, rfl, h⟩
    rw [toBeBytes_byte]
    split_ifs at h with h0 h1
    · rw [hbytes.map] at h
      obtain ⟨bytes, hle, rfl, rfl⟩ := h
      exact ⟨by simp [Payload.encode, h0], hle⟩
    · rw [hbytes.map] at h
      obtain ⟨bytes, hle, rfl, rfl⟩ := h
      exact ⟨by simp [Payload.encode, h1], hle⟩
    · cases h
  · rintro ⟨rfl, hle⟩
    cases p with
    | pub bytes =>
      refine ⟨0, trivial, framed UInt32 bytes ++ rest, by simp [Payload.encode, toBeBytes_byte], ?_⟩
      rw [if_pos rfl, hbytes.map]
      exact ⟨bytes, hle, rfl, rfl⟩
    | encrypted bytes =>
      refine ⟨1, trivial, framed UInt32 bytes ++ rest, by simp [Payload.encode, toBeBytes_byte], ?_⟩
      rw [if_neg (by decide), if_pos rfl, hbytes.map]
      exact ⟨bytes, hle, rfl, rfl⟩

def suiteTag : Reader ObjectError SignatureSuite := do
  let tag ← word .truncated UInt8
  lift ((SignatureSuite.fromTag tag).mapError .crypto)

lemma decodes_suiteTag : Decodes suiteTag (fun suite => [suite.tag]) fun _ => True :=
  decodes_suite _ _

def decodeSignature : Reader ObjectError IndexedSig := do
  let index ← word .truncated UInt32
  let suite ← suiteTag
  let bytes ← bytesLimited maxSigBytes
  let signature ← lift ((Signature.fromSuiteBytes suite bytes).mapError .crypto)
  return ⟨index, signature⟩

lemma decodes_signature : Decodes decodeSignature encodeSig fun _ => True :=
  decodes_indexedSig _ _ decodes_suiteTag (decodes_bytesLimited (by decide))
    fun suite => by cases suite <;> decide

def decodeSignatures : Reader ObjectError (List IndexedSig) := do
  let nsigs ← word .truncated UInt32
  lift (failIf (nsigs = 0 ∨ maxSignatures < nsigs.toNat) .limitExceeded)
  readMany decodeSignature nsigs.toNat

lemma decodes_signatures : Decodes decodeSignatures encodeSigs
    fun sigs => sigs ≠ [] ∧ sigs.length ≤ maxSignatures := by
  intro bs sigs rest
  rw [decodeSignatures, (decodes_word _ _).bind]
  simp only [lift_bind_ok, failIf_ok, decodes_readMany decodes_signature _ _ sigs rest]
  constructor
  · rintro ⟨n, -, mid, rfl, ⟨⟩, hn, rfl, hlength, -⟩
    obtain ⟨hne, hle⟩ := not_or.mp hn
    rw [← hlength, not_lt] at hle
    refine ⟨?_, ?_, hle⟩
    · rw [encodeSigs, countBytes, hlength, List.append_assoc]
      exact congrArg (toBeBytes · ++ _) UInt32.ofNat_toNat.symm
    · rintro rfl
      exact hne (UInt32.toNat_inj.mp hlength.symm)
  · rintro ⟨rfl, hne, hle⟩
    have hlength : (UInt32.ofNat sigs.length).toNat = sigs.length :=
      UInt32.toNat_ofNat_of_lt' (hle.trans_lt (by decide))
    refine ⟨UInt32.ofNat sigs.length, trivial, _, by rw [encodeSigs, List.append_assoc]; rfl, (),
      ?_, rfl, hlength.symm, fun _ _ => trivial⟩
    rw [not_or, hlength, not_lt]
    refine ⟨fun hzero => hne (List.length_eq_zero_iff.mp ?_), hle⟩
    rw [← hlength, hzero]
    rfl

end

namespace Object

/-- Read an object and derive its identifier. -/
def decode : Reader ObjectError Object := do
  let version ← word .truncated UInt8
  lift (failIf (version ≠ 1) .badObject)
  let suite ← suiteTag
  let objectType ← decodeType
  let authorHuman ← decodeDid
  let authorDevice ← decodeDid
  let timestampMs ← word .truncated UInt64
  let sequence ← word .truncated UInt64
  let links ← decodeLinks
  let payload ← decodePayload
  let signatures ← decodeSignatures
  lift (failIf (¬ signaturesAreCanonical signatures) .noncanonicalSignatureOrder)
  return identified ⟨⟨""⟩, suite, objectType, authorHuman, authorDevice, timestampMs, sequence,
    links, payload, signatures⟩

def fromBytes (bytes : Bytes) : Except ObjectError Object := whole decode .trailingBytes bytes

/-- An object that the decoder returns. -/
structure Portable (o : Object) : Prop where
  id_eq : o.id = ObjectId.of o.toBytes
  objectType : o.objectType.Portable
  authorHuman : o.authorHuman.Valid ∧ (utf8 o.authorHuman.asStr).length ≤ maxDidBytes
  authorDevice : o.authorDevice.Valid ∧ (utf8 o.authorDevice.asStr).length ≤ maxDidBytes
  links : o.links.length ≤ maxLinks ∧ ∀ l ∈ o.links, l.Portable
  payload : o.payload.bytes.length ≤ maxPayloadBytes
  signatures : o.signatures ≠ [] ∧ o.signatures.length ≤ maxSignatures
  canonical : signaturesAreCanonical o.signatures = true

lemma decodes_object : Decodes decode toBytes Portable := by
  intro bs o rest
  rw [decode, (decodes_word _ _).bind]
  simp only [lift_bind_ok, failIf_ok, decodes_suiteTag.bind, decodes_type.bind,
    decodes_did.bind, (decodes_word _ UInt64).bind, decodes_links.bind, decodes_payload.bind,
    decodes_signatures.bind, run_pure_ok, not_not]
  constructor
  · rintro ⟨version, -, m1, rfl, ⟨⟩, rfl, suite, -, m2, rfl, objectType, htype, m3, rfl, human,
      hhuman, m4, rfl, device, hdevice, m5, rfl, ts, -, m6, rfl, seq, -, m7, rfl, links, hlinks,
      m8, rfl, payload, hpayload, m9, rfl, sigs, hsigs, m10, rfl, ⟨⟩, hcanonical, rfl, rfl⟩
    refine ⟨?_, rfl, htype, hhuman, hdevice, hlinks, hpayload, hsigs, hcanonical⟩
    simp [toBytes, signingBytes, identified, toBeBytes_byte]
  · rintro ⟨rfl, h⟩
    refine ⟨1, trivial, _, ?_, (), rfl, o.suite, trivial, _, rfl, o.objectType, h.objectType, _, rfl,
      o.authorHuman, h.authorHuman, _, rfl, o.authorDevice, h.authorDevice, _, rfl, o.timestampMs,
      trivial, _, rfl, o.sequence, trivial, _, rfl, o.links, h.links, _, rfl, o.payload, h.payload,
      _, rfl, o.signatures, h.signatures, rest, rfl, (), h.canonical, ?_, rfl⟩
    · simp [toBytes, signingBytes, toBeBytes_byte]
    · obtain ⟨id, suite, objectType, human, device, ts, seq, links, payload, sigs⟩ := o
      exact congrArg (Object.mk · suite objectType human device ts seq links payload sigs)
        h.id_eq.symm

/-- The decoder accepts the encodings of the objects within its limits, and nothing else. -/
lemma fromBytes_ok {bytes : Bytes} {o : Object} :
    fromBytes bytes = .ok o ↔ bytes = o.toBytes ∧ o.Portable :=
  decodes_object.whole_ok

end Object

end Decoder

/-! ### Verification -/

section Verification

variable [KeyPrimitives]

namespace Object

/-- Whether an identifier names an object. -/
def verifyIntegrity (o : Object) (claimed : ObjectId) : Except ObjectError Unit :=
  let actual := ObjectId.of o.toBytes
  failIf (¬ (actual = claimed ∧ actual = o.id)) .idMismatch

/-- Whether the device named in an object signed it. -/
def verifySignature (o : Object) (device : Kel) : Except ObjectError Unit := do
  failIf (device.did.asStr ≠ o.authorDevice.asStr) .deviceMismatch
  (device.verifyMessage o.signingBytes o.signatures).mapError .identity

end Object

/-- The capability that authoring an object of a type takes. -/
def requiredCapability : ObjectType → Capabilities
  | .wellKnown tag =>
    if (1 ≤ tag ∧ tag ≤ 9) ∨ (12 ≤ tag ∧ tag ≤ 14) then .post else .sign
  | .custom _ => .post

/-- Whether an object was made by a device of its author. -/
def verifyProvenance (o : Object) (root device : Kel) : Except ObjectError Capabilities := do
  failIf (root.did.asStr ≠ o.authorHuman.asStr) .deviceMismatch
  o.verifySignature device
  let caps ← (verifyDelegation root device).mapError .identity
  failIf (¬ caps.contains (requiredCapability o.objectType)) .missingCapability
  return caps

end Verification

/-! ### Building objects -/

/-- How signing an object ends without one. -/
inductive SignFault where
  | error (e : ObjectError)
  /-- The device has no key, or one that does not sign. -/
  | panic
  deriving DecidableEq

structure ObjectBuilder where
  objectType : ObjectType
  timestampMs : UInt64 := 0
  sequence : UInt64 := 0
  links : List Link := []
  payload : Payload := .pub []

namespace ObjectBuilder

variable [KeyPrimitives]

/-- What a builder makes before it is signed. -/
def unsigned (b : ObjectBuilder) (human : Did) (device : Controller) (suite : SignatureSuite) :
    Object where
  id := ⟨""⟩
  suite := suite
  objectType := b.objectType
  authorHuman := human
  authorDevice := device.did
  timestampMs := b.timestampMs
  sequence := b.sequence
  links := b.links
  payload := b.payload
  signatures := []

/-- Sign with the authoring device and fill in the identifier. -/
def sign (b : ObjectBuilder) (human : Did) (device : Controller) : Except SignFault Object := do
  failIf (maxLinks < b.links.length) (.error .limitExceeded)
  failIf (b.objectType = .wellKnown ObjectType.customTypeMarker) (.error .badObject)
  failIf (maxPayloadBytes < b.payload.bytes.length) (.error .limitExceeded)
  let key ← okOr device.keyState.keys.head? .panic
  let o := b.unsigned human device key.suite
  let signatures ← okOr (device.signMessage o.signingBytes) .panic
  return Object.identified { o with signatures }

end ObjectBuilder

/-! ### Private envelopes -/

/-- How long a private envelope is meant to be kept. -/
inductive RetentionClass where
  | ephemeral
  | standard
  | archival
  deriving DecidableEq

def RetentionClass.tag : RetentionClass → UInt8
  | .ephemeral => 0
  | .standard  => 1
  | .archival  => 2

/-- The outside of a private object. Every constructor derives its identifier from its bytes. -/
structure ObjectEnvelopeV2 where
  suite : AeadSuite
  route : Hash
  retention : RetentionClass
  nonce : Vector UInt8 12
  ciphertext : Bytes
  deriving DecidableEq

namespace ObjectEnvelopeV2

def envelopeVersion : UInt8 := 2

def headerBytes (e : ObjectEnvelopeV2) : Bytes :=
  [envelopeVersion] ++ [e.suite.tag] ++ e.route.bytes ++ [e.retention.tag] ++ e.nonce.toList

def toBytes (e : ObjectEnvelopeV2) : Bytes := e.headerBytes ++ framed UInt32 e.ciphertext

def id [KeyPrimitives] (e : ObjectEnvelopeV2) : ObjectId := ObjectId.of e.toBytes

/-- The version byte keeps envelopes and objects apart. -/
lemma fromBytes_toBytes [KeyPrimitives] (e : ObjectEnvelopeV2) (o : Object) :
    Object.fromBytes e.toBytes ≠ .ok o := by
  intro h
  have hbytes := (Object.fromBytes_ok.mp h).1
  have hfirst := congrArg List.head? hbytes
  simp [toBytes, headerBytes, envelopeVersion, Object.toBytes, Object.signingBytes] at hfirst

end ObjectEnvelopeV2

end Mininet.Objects
