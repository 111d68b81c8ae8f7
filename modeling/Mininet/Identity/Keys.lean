import Mininet.Identity

/-!
# Signing keys and self-describing hashes

The secret half of `mini-crypto`, and the two encodings an identifier is made of: multihashes and
multibase text. As before, what comes from outside crates is a parameter, and `LawfulKeys` says what
is relied on of it.
-/

namespace Mininet.Identity

open Codec Fallible

/-- The functions of outside crates that key event logs use besides `Primitives`. -/
class KeyPrimitives extends Primitives where
  /-- The base58btc text of a byte string. -/
  base58 : Bytes → String
  /-- The byte string of a base58btc text. -/
  base58Decode : String → Option Bytes
  /-- The Ed25519 public key of a seed. -/
  ed25519Public : Hash → Hash
  /-- The Ed25519 signature of a message under a seed. -/
  ed25519Sign : Hash → Bytes → Vector UInt8 64
  /-- The public half of an ML-DSA-65 key pair. -/
  mlDsa65Public : Bytes → Vector UInt8 1952

export KeyPrimitives (base58 base58Decode ed25519Public ed25519Sign mlDsa65Public)

/-! ### Multihashes -/

inductive HashAlgorithm where
  | blake3
  | sha256
  deriving DecidableEq

namespace HashAlgorithm

def multihashCode : HashAlgorithm → UInt64
  | .blake3 => 0x1e
  | .sha256 => 0x12

def digestLen : HashAlgorithm → ℕ
  | .blake3 => 32
  | .sha256 => 32

def ofCode (code : UInt64) : Except CryptoError HashAlgorithm :=
  if code = 0x1e then .ok .blake3
  else if code = 0x12 then .ok .sha256
  else .error (.unknownOrForbiddenHashCode code)

end HashAlgorithm

/-- The low seven bits of a value, with the continuation bit when more are to come. The value fits
ten such groups. -/
def writeUvarint : ℕ → UInt64 → Bytes
  | 0, _            => []
  | fuel + 1, value =>
    let byte := (value &&& 0x7f).toUInt8
    let rest := value >>> 7
    if rest = 0 then [byte] else (byte ||| 0x80) :: writeUvarint fuel rest

/-- Read an unsigned varint, from the group at `shift` on. -/
def readUvarint (value : UInt64) (shift : ℕ) : Bytes → Except CryptoError (UInt64 × Bytes)
  | []           => .error .badVarint
  | byte :: rest => do
    failIf (64 ≤ shift) .badVarint
    let payload := byte &&& 0x7f
    failIf (shift = 63 ∧ 1 < payload) .badVarint
    let value := value ||| (payload.toUInt64 <<< UInt64.ofNat shift)
    if byte &&& 0x80 = 0 then return (value, rest) else readUvarint value (shift + 7) rest

structure Multihash where
  algorithm : HashAlgorithm
  digest : Bytes
  deriving DecidableEq

namespace Multihash

def toBytes (m : Multihash) : Bytes :=
  writeUvarint 10 m.algorithm.multihashCode ++ writeUvarint 10 (UInt64.ofNat m.digest.length) ++
    m.digest

def fromBytes (bytes : Bytes) : Except CryptoError Multihash := do
  let (code, rest) ← readUvarint 0 0 bytes
  let (len, rest) ← readUvarint 0 0 rest
  failIf (rest.length ≠ len.toNat) (.badLength len.toNat rest.length)
  failIf (code = 0x11) (.unknownOrForbiddenHashCode code)
  let algorithm ← HashAlgorithm.ofCode code
  failIf (rest.length ≠ algorithm.digestLen) (.badLength algorithm.digestLen rest.length)
  let parsed : Multihash := ⟨algorithm, rest⟩
  failIf (parsed.toBytes ≠ bytes) .badEncoding
  return parsed

/-- A multihash is the code of its algorithm, the length of its digest, and the digest. -/
lemma eq_of_fromBytes {bytes : Bytes} {m : Multihash} (h : fromBytes bytes = .ok m) :
    m.digest.length = 32 ∧
      bytes = [if m.algorithm = .blake3 then 0x1e else 0x12, 32] ++ m.digest := by
  obtain ⟨⟨code, rest⟩, -, h⟩ := bind_ok.mp h
  obtain ⟨⟨len, rest'⟩, -, h⟩ := bind_ok.mp h
  simp only [↓failIf_bind_ok, bind_ok] at h
  obtain ⟨-, -, algorithm, -, hlength, hcanonical, h⟩ := h
  cases h
  have hdigest : rest'.length = 32 := by
    cases algorithm <;> exact not_not.mp hlength
  have hcode : writeUvarint 10 algorithm.multihashCode ++ writeUvarint 10 (UInt64.ofNat 32) =
      [if algorithm = .blake3 then 0x1e else 0x12, 32] := by
    cases algorithm <;> decide
  refine ⟨hdigest, ?_⟩
  rw [← not_not.mp hcanonical, toBytes, hdigest, hcode]

/-- Every multihash has the same length. -/
lemma length_of_fromBytes {bytes : Bytes} {m : Multihash} (h : fromBytes bytes = .ok m) :
    bytes.length = 34 := by
  obtain ⟨hdigest, hbytes⟩ := eq_of_fromBytes h
  simp [hbytes, hdigest]

end Multihash

/-- A digest made here is accepted. -/
lemma fromBytes_multihash [Primitives] (bs : Bytes) :
    Multihash.fromBytes (multihash bs) = .ok ⟨.blake3, (blake3 bs).bytes⟩ := by
  have hread : ∀ (b : UInt8) (rest : Bytes), b &&& 0x80 = 0 → b &&& 0x7f = b →
      readUvarint 0 0 (b :: rest) = .ok (b.toUInt64, rest) := by
    intro b rest hlast hpayload
    simp [readUvarint, hlast, hpayload, failIf]
    rfl
  have hlength := (blake3 bs).length_bytes
  have hbytes : multihash bs = 0x1e :: 0x20 :: (blake3 bs).bytes := rfl
  have hcanonical : (⟨.blake3, (blake3 bs).bytes⟩ : Multihash).toBytes = multihash bs := by
    have hcode : writeUvarint 10 HashAlgorithm.blake3.multihashCode ++
        writeUvarint 10 (UInt64.ofNat 32) = [0x1e, 32] := by decide
    rw [Multihash.toBytes, hlength, multihash, hcode]
  rw [Multihash.fromBytes, hbytes, hread _ _ rfl rfl]
  refine bind_ok.mpr ⟨_, rfl, ?_⟩
  dsimp only
  rw [hread _ _ rfl rfl]
  refine bind_ok.mpr ⟨_, rfl, ?_⟩
  dsimp only
  refine failIf_bind_ok.mpr ⟨by rw [hlength]; decide, ?_⟩
  refine failIf_bind_ok.mpr ⟨by decide, bind_ok.mpr ⟨.blake3, rfl, ?_⟩⟩
  refine failIf_bind_ok.mpr ⟨by rw [hlength]; decide, ?_⟩
  exact failIf_bind_ok.mpr ⟨not_not.mpr (hcanonical.trans hbytes), rfl⟩

/-! ### Multibase text -/

def hexVal (c : UInt8) : Except CryptoError UInt8 :=
  if 0x30 ≤ c ∧ c ≤ 0x39 then .ok (c - 0x30)
  else if 0x61 ≤ c ∧ c ≤ 0x66 then .ok (c - 0x61 + 10)
  else if 0x41 ≤ c ∧ c ≤ 0x46 then .ok (c - 0x41 + 10)
  else .error .badEncoding

def hexPairs : Bytes → Except CryptoError Bytes
  | hi :: lo :: rest => do
    let hi ← hexVal hi
    let lo ← hexVal lo
    let rest ← hexPairs rest
    return ((hi <<< 4) ||| lo) :: rest
  | _ => .ok []

def hexDecode (bytes : Bytes) : Except CryptoError Bytes := do
  failIf (bytes.length % 2 ≠ 0) .badEncoding
  hexPairs bytes

/-- The bytes of a multibase text. -/
def decodeMultibase [KeyPrimitives] (s : String) : Except CryptoError Bytes :=
  match s.toList with
  | []          => .error .emptyMultibase
  | 'z' :: body => okOr (base58Decode (String.ofList body)) .badEncoding
  | 'f' :: body => hexDecode (utf8 (String.ofList body))
  | base :: _   => .error (.unsupportedMultibase base)

/-! ### What is relied on -/

/-- What is relied on of the outside crates: base58 is one-to-one between byte strings and its
texts, whose length is bounded both ways; an identifier is valid when it is the multibase text of a
multihash; and Ed25519 verifies what it signed. -/
class LawfulKeys [KeyPrimitives] : Prop where
  base58Decode_base58 (bs : Bytes) : base58Decode (base58 bs) = some bs
  base58_of_decode {s : String} {bs : Bytes} (h : base58Decode s = some bs) : base58 bs = s
  length_le_base58 (bs : Bytes) : bs.length ≤ (utf8 (base58 bs)).length
  base58_length_le (bs : Bytes) : (utf8 (base58 bs)).length ≤ 2 * bs.length
  zero_notMem_base58 (bs : Bytes) : 0 ∉ utf8 (base58 bs)
  validateScid_eq (scid : String) : Primitives.validateScid scid =
    (do let bytes ← decodeMultibase scid
        let _ ← Multihash.fromBytes bytes
        return ())
  ed25519Key_public (seed : Hash) : Primitives.ed25519Key (ed25519Public seed).bytes = true
  ed25519Verify_sign (seed : Hash) (message : Bytes) :
    Primitives.ed25519Verify (ed25519Public seed).bytes message (ed25519Sign seed message).toList =
      true

/-! ### Signing keys -/

/-- A secret signing key. -/
inductive SigningKey where
  | ed25519 (seed : Hash)
  | mlDsa65 (pair : Bytes)

namespace SigningKey

def suite : SigningKey → SignatureSuite
  | .ed25519 _ => .ed25519
  | .mlDsa65 _ => .mlDsa65

variable [KeyPrimitives] {signature : Signature} {key : SigningKey} {message : Bytes}

def verifyingKey : SigningKey → VerifyingKey
  | .ed25519 seed => ⟨.ed25519, (ed25519Public seed).bytes⟩
  | .mlDsa65 pair => ⟨.mlDsa65, (mlDsa65Public pair).toList⟩

/-- Sign with an Ed25519 key. On a key of the other suite the source panics, and there is no
signature. -/
def sign (key : SigningKey) (message : Bytes) : Option Signature :=
  match key with
  | .ed25519 seed =>
    some ⟨.ed25519, (ed25519Sign seed message).toList, by simp [SignatureSuite.signatureLen]⟩
  | .mlDsa65 _ => none

/-- What a key signs verifies under its public half. -/
lemma verify_sign [LawfulKeys] (h : key.sign message = some signature) :
    key.verifyingKey.verify message signature = .ok () := by
  cases key with
  | ed25519 seed =>
    cases h
    simp [verifyingKey, VerifyingKey.verify, LawfulKeys.ed25519Verify_sign]
  | mlDsa65 pair => cases h

/-- A key that signs has a public half that decodes. -/
lemma fromSuiteBytes_verifyingKey [LawfulKeys] (h : key.sign message = some signature) :
    VerifyingKey.fromSuiteBytes key.verifyingKey.suite key.verifyingKey.bytes =
      .ok key.verifyingKey := by
  cases key with
  | ed25519 seed =>
    simp [verifyingKey, VerifyingKey.fromSuiteBytes, SignatureSuite.publicKeyLen,
      LawfulKeys.ed25519Key_public]
  | mlDsa65 pair => cases h

end SigningKey

/-- How a call that signs ends without a value. -/
inductive Fault where
  | error (e : IdentityError)
  /-- It was made with a key that does not sign. -/
  | panic
  deriving DecidableEq

/-! ### Identifiers -/

section Identifiers

lemma hexVal_ne_zero {c v : UInt8} (h : hexVal c = .ok v) : c ≠ 0 := by
  rintro rfl
  revert h
  simp [hexVal]

/-- Two digits for each byte, and no digit is zero. -/
lemma hexPairs_ok {bytes out : Bytes} (heven : bytes.length % 2 = 0)
    (h : hexPairs bytes = .ok out) : bytes.length = 2 * out.length ∧ 0 ∉ bytes := by
  induction bytes using hexPairs.induct generalizing out with
  | case1 hi lo rest ih =>
    simp only [hexPairs, bind_ok] at h
    obtain ⟨vhi, hhi, vlo, hlo, vrest, hrest, h⟩ := h
    cases h
    simp only [List.length_cons] at heven
    obtain ⟨hlength, hzero⟩ := ih (by omega) hrest
    refine ⟨by simp only [List.length_cons]; omega, fun hmem => ?_⟩
    rcases List.mem_cons.mp hmem with rfl | hmem
    · exact hexVal_ne_zero hhi rfl
    rcases List.mem_cons.mp hmem with rfl | hmem
    · exact hexVal_ne_zero hlo rfl
    exact hzero hmem
  | case2 bytes hshort =>
    match bytes, hshort with
    | [], _ =>
      cases h
      simp
    | [b], _ => simp at heven
    | hi :: lo :: rest, hshort => exact absurd rfl (hshort hi lo rest)

/-- How long the text of a multihash is, and that it has no zero byte. -/
structure ScidText (scid : String) : Prop where
  length_ge : 35 ≤ (utf8 scid).length
  length_le : (utf8 scid).length ≤ 69
  zero_notMem : 0 ∉ utf8 scid

/-- The character that names a base is one byte. -/
lemma ScidText.cons {scid : String} {base : Char} {b : UInt8} {body : List Char}
    (hscid : scid.toList = base :: body) (hb : String.utf8EncodeChar base = [b]) (hne : b ≠ 0)
    (hge : 34 ≤ (utf8 (String.ofList body)).length) (hle : (utf8 (String.ofList body)).length ≤ 68)
    (hzero : 0 ∉ utf8 (String.ofList body)) : ScidText scid := by
  have htext : utf8 scid = b :: utf8 (String.ofList body) := by
    rw [← String.ofList_toList (s := scid), hscid]
    simp [utf8, List.utf8Encode, hb]
  refine ⟨?_, ?_, ?_⟩
  · simp only [htext, List.length_cons]
    omega
  · simp only [htext, List.length_cons]
    omega
  · rw [htext, List.mem_cons, not_or]
    exact ⟨hne.symm, hzero⟩

variable [KeyPrimitives]

lemma decodeMultibase_z (body : String) :
    decodeMultibase ("z" ++ body) = okOr (base58Decode body) .badEncoding := by
  have htext : ("z" ++ body).toList = 'z' :: body.toList := by simp
  simp only [decodeMultibase, htext, String.ofList_toList]

variable [LawfulKeys]

lemma scidText_of_validateScid {scid : String} (h : Primitives.validateScid scid = .ok ()) :
    ScidText scid := by
  rw [LawfulKeys.validateScid_eq] at h
  obtain ⟨bytes, hbytes, h⟩ := bind_ok.mp h
  obtain ⟨m, hm, -⟩ := bind_ok.mp h
  have hlength := Multihash.length_of_fromBytes hm
  rw [decodeMultibase] at hbytes
  split at hbytes
  next => cases hbytes
  next body hscid =>
    have hge := LawfulKeys.length_le_base58 bytes
    have hle := LawfulKeys.base58_length_le bytes
    have hzero := LawfulKeys.zero_notMem_base58 bytes
    rw [LawfulKeys.base58_of_decode (okOr_ok.mp hbytes)] at hge hle hzero
    exact .cons hscid (b := 0x7a) (by decide) (by decide) (by omega) (by omega) hzero
  next body hscid =>
    obtain ⟨heven, hpairs⟩ := failIf_bind_ok.mp hbytes
    obtain ⟨hdigits, hzero⟩ := hexPairs_ok (not_not.mp heven) hpairs
    exact .cons hscid (b := 0x66) (by decide) (by decide) (by omega) (by omega) hzero
  next => cases hbytes

/-- The identifier of a digest made here is valid. -/
lemma validateScid_base58 (bs : Bytes) :
    Primitives.validateScid ("z" ++ base58 (multihash bs)) = .ok () := by
  rw [LawfulKeys.validateScid_eq, decodeMultibase_z, LawfulKeys.base58Decode_base58]
  exact bind_ok.mpr ⟨_, rfl, bind_ok.mpr ⟨_, fromBytes_multihash bs, rfl⟩⟩

omit [KeyPrimitives] [LawfulKeys] in
/-- Every identifier's string begins with the method. -/
lemma utf8_asStr (d : Did) :
    utf8 d.asStr = [0x64, 0x69, 0x64, 0x3a, 0x6d, 0x69, 0x6e, 0x69, 0x3a] ++ utf8 d.scid := by
  have hmethod : utf8 Did.method = [0x64, 0x69, 0x64, 0x3a, 0x6d, 0x69, 0x6e, 0x69, 0x3a] := by
    decide
  rw [← hmethod]
  simp [Did.asStr, utf8]

/-- How long an identifier's string is. -/
structure DidText (d : Did) : Prop where
  length_ge : 44 ≤ (utf8 d.asStr).length
  length_le : (utf8 d.asStr).length ≤ 78
  zero_notMem : 0 ∉ utf8 d.asStr

lemma didText_of_valid {d : Did} (h : d.Valid) : DidText d := by
  have hscid := scidText_of_validateScid h.validateScid
  have hge := hscid.length_ge
  have hle := hscid.length_le
  refine ⟨?_, ?_, ?_⟩
  · simp [utf8_asStr]; omega
  · simp [utf8_asStr]; omega
  · simpa [utf8_asStr] using hscid.zero_notMem

end Identifiers

/-! ### Sample keys -/

section Sample

/-- One character for each byte, none of them the zero character. -/
def latin (bs : Bytes) : String := String.ofList (bs.map fun b => Char.ofNat (b.toNat + 1))

def unlatin (s : String) : Option Bytes :=
  s.toList.mapM fun c =>
    if 1 ≤ c.toNat ∧ c.toNat ≤ 256 then some (UInt8.ofNat (c.toNat - 1)) else none

lemma toNat_latin (b : UInt8) : (Char.ofNat (b.toNat + 1)).toNat = b.toNat + 1 := by
  have hlt := b.toNat_lt
  rw [Char.toNat_ofNat, if_pos (.inl (by omega))]

lemma unlatin_latin (bs : Bytes) : unlatin (latin bs) = some bs := by
  rw [unlatin, latin, String.toList_ofList]
  induction bs with
  | nil => rfl
  | cons b bs ih =>
    have hlt := b.toNat_lt
    rw [List.map_cons, List.mapM_cons, ih, toNat_latin, if_pos (by omega)]
    simp

lemma latin_of_unlatin {s : String} {bs : Bytes} (h : unlatin s = some bs) : latin bs = s := by
  rw [unlatin] at h
  rw [latin, ← String.ofList_toList (s := s)]
  congr 1
  generalize s.toList = cs at h
  induction cs generalizing bs with
  | nil =>
    cases h
    rfl
  | cons c cs ih =>
    rw [List.mapM_cons] at h
    obtain ⟨b, hb, h⟩ := Option.bind_eq_some_iff.mp h
    obtain ⟨bs', hbs, h⟩ := Option.bind_eq_some_iff.mp h
    cases h
    split_ifs at hb with hc
    cases hb
    have hnat : (UInt8.ofNat (c.toNat - 1)).toNat = c.toNat - 1 := by
      rw [UInt8.toNat_ofNat']
      omega
    rw [List.map_cons, ih hbs, hnat, Nat.sub_add_cancel hc.1, Char.ofNat_toNat]

/-- A character of a latin text takes one byte or two, none of them zero. -/
lemma utf8EncodeChar_latin (b : UInt8) :
    1 ≤ (String.utf8EncodeChar (Char.ofNat (b.toNat + 1))).length ∧
      (String.utf8EncodeChar (Char.ofNat (b.toNat + 1))).length ≤ 2 ∧
      0 ∉ String.utf8EncodeChar (Char.ofNat (b.toNat + 1)) := by
  have hlt := b.toNat_lt
  have hval : (Char.ofNat (b.toNat + 1)).val.toNat = b.toNat + 1 := toNat_latin b
  have hne : ∀ n, 0 < n → n < 256 → 0 ≠ UInt8.ofNat n := by
    intro n hpos hlt hzero
    have hnat : 0 = (UInt8.ofNat n).toNat := congrArg UInt8.toNat hzero
    rw [UInt8.toNat_ofNat'] at hnat
    omega
  unfold String.utf8EncodeChar
  simp only [hval]
  split_ifs
  · refine ⟨by simp, by simp, ?_⟩
    rw [List.mem_singleton]
    exact hne _ (by omega) (by omega)
  · refine ⟨by simp, by simp, ?_⟩
    rw [List.mem_cons, List.mem_singleton, not_or]
    exact ⟨hne _ (by omega) (by omega), hne _ (by omega) (by omega)⟩
  · omega
  · omega

lemma utf8_latin (bs : Bytes) :
    bs.length ≤ (utf8 (latin bs)).length ∧ (utf8 (latin bs)).length ≤ 2 * bs.length ∧
      0 ∉ utf8 (latin bs) := by
  have htext : utf8 (latin bs) =
      bs.flatMap fun b => String.utf8EncodeChar (Char.ofNat (b.toNat + 1)) := by
    simp [utf8, latin, List.utf8Encode, List.flatMap_map]
  rw [htext]
  induction bs with
  | nil => simp
  | cons b bs ih =>
    obtain ⟨hge, hle, hzero⟩ := utf8EncodeChar_latin b
    obtain ⟨ihge, ihle, ihzero⟩ := ih (by simp [utf8, latin, List.utf8Encode, List.flatMap_map])
    rw [List.flatMap_cons, List.length_append, List.length_cons, List.mem_append, not_or]
    exact ⟨by omega, by omega, hzero, ihzero⟩

/-- Keys to evaluate the model with: a key signs with itself and the message's digest. -/
@[reducible] def KeyPrimitives.unchecked : KeyPrimitives where
  toPrimitives := {
    Primitives.sample with
    ed25519Verify := fun key message signature =>
      decide (signature = key ++ (Primitives.sample.blake3 message).bytes)
    mlDsa65Verify := fun _ _ _ => false }
  base58 := latin
  base58Decode := unlatin
  ed25519Public seed := seed
  ed25519Sign seed message := seed ++ Primitives.sample.blake3 message
  mlDsa65Public _ := Vector.replicate 1952 0

@[reducible] def KeyPrimitives.sample : KeyPrimitives :=
  { KeyPrimitives.unchecked with
    validateScid := fun scid => do
      let bytes ← @decodeMultibase .unchecked scid
      let _ ← Multihash.fromBytes bytes
      return () }

lemma lawfulKeys_sample : @LawfulKeys .sample := by
  let := KeyPrimitives.sample
  refine ⟨unlatin_latin, latin_of_unlatin, fun bs => (utf8_latin bs).1,
    fun bs => (utf8_latin bs).2.1, fun bs => (utf8_latin bs).2.2, fun _ => rfl, fun _ => rfl,
    fun seed message => ?_⟩
  exact decide_eq_true (Vector.toList_append)

def sampleSeed (i : ℕ) : Hash :=
  ⟨(toBeBytes (UInt32.ofNat i) ++ List.replicate 28 0).toArray, by simp⟩

/-- As many different keys as are wanted. -/
def sampleKey (i : ℕ) : SigningKey := .ed25519 (sampleSeed i)

lemma sampleSeed_inj {i j : ℕ} (hi : i < 2 ^ 32) (hj : j < 2 ^ 32)
    (h : sampleSeed i = sampleSeed j) : i = j := by
  have hword := toBeBytes_injective (List.append_cancel_right (congrArg Vector.toList h))
  have hnat := congrArg UInt32.toNat hword
  rwa [UInt32.toNat_ofNat_of_lt' hi, UInt32.toNat_ofNat_of_lt' hj] at hnat

end Sample

end Mininet.Identity
