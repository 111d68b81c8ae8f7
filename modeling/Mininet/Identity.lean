import Mininet.Crypto

/-!
# Identities as consensus sees them

Consensus and settlement only ever ask four things of a `did:mini` identity: its name, the name of
a key event log, whether a log currently authorises a device, and whether detached signatures
verify against a log's current keys. `KelOps` is that interface; results that use it hold for every
key event log behind it.
-/

namespace Mininet

open Codec Fallible List

/-- Errors of identity verification. -/
inductive IdentityError where
  | crypto (e : CryptoError)
  | truncated
  | trailingBytes
  | unknownEventTag (tag : UInt8)
  | emptyKel
  | notInception
  | wrongSequence (expected got : UInt64)
  | scidMismatch
  | brokenChain (sn : UInt64)
  | preRotationMismatch (sn : UInt64)
  | thresholdNotMet (sn : UInt64) (needed got : UInt32)
  | badEvent
  | fieldTooLarge (field : String) (max got : ℕ)
  | tooManyItems (field : String) (max got : ℕ)
  | emptyKeySet
  | invalidThreshold (threshold : UInt32) (keyCount : ℕ)
  | duplicateKey
  | invalidNextThreshold (threshold : UInt32) (commitmentCount : ℕ)
  | didFormat
  | notDelegated
  | signatureThresholdNotMet (needed got : UInt32)
  | rootIsDelegated
  | recoveryKeysMismatch
  | restoreKeysMismatch
  | emptyWitnessSet
  | invalidWitnessThreshold (threshold : UInt16) (witnessCount : ℕ)
  | duplicateWitness
  | noWitnessPolicyDeclared
  | witnessNotInPolicy
  | unknownSequence (sn head : UInt64)
  | witnessReceiptMismatch
  | witnessPolicyGenerationMismatch (expected got : UInt64)
  | unresolvedWitnessKey
  | witnessThresholdNotMet (needed got : UInt16)
  | recoveryWaitingPeriodNotMet (neededEpochs gotEpochs : UInt64)
  | insufficientUnavailabilityEvidence (needed got : ℕ)
  | witnessConflictingDescendant (sequence : UInt64)
  | controllerDuplicityMismatch
  | witnessEquivocationMismatch
  | noRetainedWitnessState
  | notAWitnessPolicyChange
  | conflictingPolicyTransitionCertification
  | unknownWitnessReceiptVersion (version : UInt8)
  | unknownKeyEventKindTag (tag : UInt8)
  | staleKel (pinned got : UInt64)
  deriving DecidableEq, Repr

/-- A `did:mini` identifier, given by its self-certifying part. The source keeps the whole string;
every constructor prepends the same method name, so the two carry the same information. -/
structure Did where
  scid : String
  deriving DecidableEq, Repr

namespace Did

def method : String := "did:mini:"

/-- The full `did:mini:<scid>` string. -/
def asStr (d : Did) : String := method ++ d.scid

variable {d : Did} {s : String}

lemma scid_injective : Function.Injective scid := by
  rintro ⟨a⟩ ⟨b⟩ h
  exact congrArg Did.mk h

lemma asStr_injective : Function.Injective asStr := by
  intro a b h
  have hl := congrArg String.toList h
  exact scid_injective (by simpa [asStr, String.toList_inj] using hl)

/-- Parse a `did:mini:<scid>` string. -/
def parse [Primitives] (s : String) : Except IdentityError Did := do
  failIf (¬ method.toList.isPrefixOf s.toList) .didFormat
  let scid := String.ofList (s.toList.drop method.length)
  failIf (scid = "") .didFormat
  (Primitives.validateScid scid).mapError .crypto
  return ⟨scid⟩

/-- What parses is the string of an identifier whose self-certifying part is valid. -/
lemma parse_ok [Primitives] :
    parse s = .ok d ↔ s = d.asStr ∧ d.scid ≠ "" ∧ Primitives.validateScid d.scid = .ok () := by
  have hdrop : ∀ scid : String, String.ofList ((method ++ scid).toList.drop method.length) = scid :=
    fun scid => by
      rw [String.toList_append, ← String.length_toList, drop_left, String.ofList_toList]
  constructor
  · intro h
    obtain ⟨hmethod, h⟩ := failIf_bind_ok.mp h
    obtain ⟨tail, htail⟩ := isPrefixOf_iff_prefix.mp (not_not.mp hmethod)
    obtain rfl : s = method ++ String.ofList tail := by
      apply String.toList_injective
      rw [String.toList_append, String.toList_ofList, htail]
    rw [hdrop] at h
    obtain ⟨hne, h⟩ := failIf_bind_ok.mp h
    obtain ⟨_, hvalid, h⟩ := bind_ok.mp h
    cases h
    exact ⟨rfl, hne, mapError_ok.mp hvalid⟩
  · rintro ⟨rfl, hne, hvalid⟩
    have hmethod : method.toList.isPrefixOf d.asStr.toList :=
      isPrefixOf_iff_prefix.mpr ⟨d.scid.toList, by rw [asStr, String.toList_append]⟩
    refine failIf_bind_ok.mpr ⟨not_not.mpr hmethod, ?_⟩
    rw [asStr, hdrop]
    exact failIf_bind_ok.mpr ⟨hne, bind_ok.mpr ⟨(), mapError_ok.mpr hvalid, rfl⟩⟩

/-- An identifier as every constructor of the source makes it. -/
def Valid [Primitives] (d : Did) : Prop := parse d.asStr = .ok d

lemma Valid.validateScid [Primitives] (h : d.Valid) : Primitives.validateScid d.scid = .ok () :=
  (parse_ok.mp h).2.2

lemma valid_of_parse [Primitives] (h : parse s = .ok d) : d.Valid := by
  obtain ⟨rfl, -⟩ := parse_ok.mp h
  exact h

/-- Hard cap on an identifier string from the wire. -/
def maxDidBytes : ℕ := 512

/-- An identifier on the wire: its string behind its length. -/
def wireBytes (d : Did) : Bytes := framed UInt32 (utf8 d.asStr)

/-- Read an identifier, failing with `big` on an oversized one and with `bad` on anything else. -/
def read [Primitives] {ε : Type} (bad big : ε) : Reader ε Did := do
  let raw ← readFramed bad big UInt32 maxDidBytes
  let s ← lift (okOr (ofUtf8 raw) bad)
  lift ((parse s).mapError fun _ => bad)

/-- Parsing inverts printing, and the string is within the wire's cap. -/
structure Portable [Primitives] (d : Did) : Prop where
  parse_asStr : parse d.asStr = .ok d
  length_le : (utf8 d.asStr).length ≤ maxDidBytes

lemma reads_read [Primitives] {ε : Type} (bad big : ε) (h : d.Portable) :
    Reads (read bad big) d.wireBytes d := by
  have hframe : Reads (readFramed bad big UInt32 maxDidBytes) d.wireBytes (utf8 d.asStr) :=
    reads_framed bad big h.length_le (h.length_le.trans_lt (by decide))
  rw [← append_nil d.wireBytes]
  refine hframe.bind (Reads.lift_bind (okOr_ok.mpr (ofUtf8_utf8 d.asStr)) ?_)
  exact reads_lift (mapError_ok.mpr h.parse_asStr)

end Did

/-- A bitset of device capabilities. -/
structure Capabilities where
  bits : UInt32
  deriving DecidableEq, Repr

namespace Capabilities

/-- The capability to sign on behalf of the root. -/
def sign : Capabilities := ⟨1⟩

/-- The capability to publish content. -/
def post : Capabilities := ⟨(1 : UInt32) <<< 2⟩

/-- The capability to cast the root's single vote. -/
def vote : Capabilities := ⟨(1 : UInt32) <<< 4⟩

/-- Every capability there is. -/
def all : Capabilities := ⟨0xff⟩

/-- The capabilities that bits stand for, when every bit has a meaning. -/
def fromBits (bits : UInt32) : Except IdentityError Capabilities := do
  failIf (bits &&& ~~~all.bits ≠ 0) .badEvent
  return ⟨bits⟩

def contains (self other : Capabilities) : Bool := self.bits &&& other.bits == other.bits

end Capabilities

/-- A signature with the index of the key that made it. -/
structure IndexedSig where
  index : UInt32
  signature : Signature
  deriving DecidableEq

/-- Hard cap on the signatures of one identity. -/
def maxSignatures : ℕ := 64

namespace IndexedSig

def wireBytes (s : IndexedSig) : Bytes := toBeBytes s.index ++ s.signature.wireBytes

def read {ε : Type} (e : ε) : Reader ε IndexedSig := do
  let index ← word e UInt32
  let signature ← Signature.read e
  return ⟨index, signature⟩

lemma reads_read {ε : Type} (e : ε) (s : IndexedSig) : Reads (read e) s.wireBytes s :=
  (reads_word e s.index).bind (Signature.reads_read e s.signature).bind_pure

/-- A list of signatures on the wire, behind its count. -/
def listBytes (sigs : List IndexedSig) : Bytes :=
  countBytes UInt32 sigs.length ++ sigs.flatMap wireBytes

lemma length_listBytes_le (sigs : List IndexedSig) :
    (listBytes sigs).length ≤ 4 + 3314 * sigs.length := by
  have hone : ∀ s ∈ sigs, (wireBytes s).length ≤ 3314 := fun s _ => by
    have hlen := s.signature.length_eq
    cases hs : s.signature.suite <;>
      simp [wireBytes, Signature.wireBytes, hlen, hs, SignatureSuite.signatureLen]
  have hsum := sum_le_card_nsmul (sigs.map fun s => (wireBytes s).length) 3314 (by simpa)
  simp only [length_map, smul_eq_mul] at hsum
  simp only [listBytes, length_append, length_countBytes, length_flatMap]
  omega

def readList {ε : Type} (bad big : ε) : Reader ε (List IndexedSig) := do
  let count ← readCount bad big UInt32 maxSignatures
  readMany (read bad) count

lemma reads_readList {ε : Type} (bad big : ε) {sigs : List IndexedSig}
    (h : sigs.length ≤ maxSignatures) : Reads (readList bad big) (listBytes sigs) sigs :=
  (reads_readCount bad big h (h.trans_lt (by decide))).bind
    (reads_readMany fun s _ => reads_read bad s)

end IndexedSig

/-- What the layers above ask of a key event log. -/
class KelOps (Kel : Type) where
  did : Kel → Did
  verifyDelegation : Kel → Kel → Except IdentityError Capabilities
  verifyMessage : Kel → Bytes → List IndexedSig → Except IdentityError Unit

/-- The verified logs a node can look up. -/
abbrev ValidatorOracle (Kel : Type) := Did → Option Kel

/-- Logs to evaluate the model with: every device is delegated to vote and every signature list
counts. -/
structure SampleKel where
  did : Did

instance : KelOps SampleKel where
  did := SampleKel.did
  verifyDelegation _ _ := .ok Capabilities.vote
  verifyMessage _ _ _ := .ok ()

/-- The oracle that vouches for every identity with a sample log. -/
def sampleOracle : ValidatorOracle SampleKel := fun d => some ⟨d⟩

end Mininet
