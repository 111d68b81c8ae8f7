import Mininet.Identity

/-!
# The ceremony manifest

`mini-custody` runs a distributed key generation for a roster of eleven members. Everything a
ceremony is about stands in one manifest, and every message of the ceremony is signed over the
digest of its canonical bytes.
-/

namespace Mininet.Custody

open Codec Fallible

inductive CustodyError where
  | invalidManifest (reason : String)
  | badSignature
  | frost (message : String)
  | round1ViewMismatch
  deriving DecidableEq, Repr

/-- The size of the production roster. -/
def signerCount : UInt16 := 11

/-- The production signing threshold. -/
def threshold : UInt16 := 7

def frostSuiteId : String := "FROST_RISTRETTO255_SHA512_V1"

/-- The digest of a domain tag and of parts, none of them behind its length. -/
def domainHash [Primitives] (domain : String) (parts : List Bytes) : Hash :=
  blake3 (utf8 domain ++ parts.flatten)

/-- A member of the roster: one key signs the messages of the ceremony, the other identifies the
member's channel. -/
structure CustodyParticipantV1 where
  custodyDid : Did
  deviceVerifyingKey : VerifyingKey
  transportIdentityKey : VerifyingKey

def CustodyParticipantV1.encode (p : CustodyParticipantV1) : Bytes :=
  framed UInt16 (utf8 p.custodyDid.asStr) ++ framed UInt16 p.deviceVerifyingKey.bytes ++
    framed UInt16 p.transportIdentityKey.bytes

structure DkgSessionManifestV1 where
  networkId : Hash
  custodyDomain : UInt16
  custodyEpoch : UInt64
  attempt : UInt32
  roster : List CustodyParticipantV1
  authorizationObjectId : Hash
  previousEpoch : UInt64
  previousGroupKey : Hash
  softwareReleaseId : Hash
  expiryHeight : UInt64

namespace DkgSessionManifestV1

def encode (m : DkgSessionManifestV1) : Bytes :=
  utf8 "mininet-custody-dkg" ++ [1] ++ m.networkId.bytes ++ toBeBytes m.custodyDomain ++
    toBeBytes m.custodyEpoch ++ toBeBytes m.attempt ++ toBeBytes signerCount ++
    toBeBytes threshold ++ framed UInt16 (utf8 frostSuiteId) ++
    countBytes UInt16 m.roster.length ++ m.roster.flatMap CustodyParticipantV1.encode ++
    m.authorizationObjectId.bytes ++ toBeBytes m.previousEpoch ++ m.previousGroupKey.bytes ++
    m.softwareReleaseId.bytes ++ toBeBytes m.expiryHeight

/-- A member's identifier in the key generation: its place in the roster, counted from one. -/
def frostIdentifierOf (m : DkgSessionManifestV1) (did : Did) : Option UInt16 :=
  (m.roster.findIdx? fun p => p.custodyDid = did).map fun i => UInt16.ofNat (i + 1)

/-- What every signed message of the ceremony is bound to. -/
def sessionId [Primitives] (m : DkgSessionManifestV1) : Hash :=
  domainHash "mininet/custody/dkg-session/v1" [m.encode]

def dids (m : DkgSessionManifestV1) : List Did := m.roster.map (·.custodyDid)

lemma mem_dids_of_frostIdentifierOf {m : DkgSessionManifestV1} {did : Did} {identifier : UInt16}
    (h : m.frostIdentifierOf did = some identifier) : did ∈ m.dids := by
  obtain ⟨i, hi, -⟩ := Option.map_eq_some_iff.mp h
  have hany : (m.roster.any fun p => p.custodyDid = did) = true := by
    rw [← List.findIdx?_isSome, hi, Option.isSome_some]
  obtain ⟨p, hp, heq⟩ := List.any_eq_true.mp hany
  exact List.mem_map.mpr ⟨p, hp, of_decide_eq_true heq⟩

end DkgSessionManifestV1

end Mininet.Custody
