import Mininet.Identity.Wire

/-!
# Witness receipts

What a witness signs about a key event, the certificates receipts are collected in, and the encoding
of both. A statement carries the version of its encoding; there is only the first one, so it is no
field here.
-/

namespace Mininet.Identity

open Codec Fallible List

open Kel (readAll)

/-! ### Statements -/

/-- Which shape of key event a receipt is about. -/
inductive KeyEventKind where
  | inception
  | delegatedInception
  | rotation
  | interaction
  | seal
  deriving DecidableEq

namespace KeyEventKind

def tag : KeyEventKind → UInt8
  | .inception          => 1
  | .delegatedInception => 2
  | .rotation           => 3
  | .interaction        => 4
  | .seal               => 5

end KeyEventKind

def EventKind.keyEventKind : EventKind → KeyEventKind
  | .inception _            => .inception
  | .delegatedInception _ _ => .delegatedInception
  | .rotation _             => .rotation
  | .interaction _          => .interaction
  | .seal _                 => .seal

structure WitnessReceiptStatement where
  identity : Did
  sequence : UInt64
  eventDigest : Bytes
  priorEventDigest : Option Bytes
  eventKind : KeyEventKind
  witnessPolicyGeneration : UInt64
  witnessId : WitnessId
  observedEpoch : UInt64
  deriving DecidableEq

def encodeDid (did : Did) : Bytes := framed UInt32 (utf8 did.asStr)

def encodePrior : Option Bytes → Bytes
  | none   => [0]
  | some d => [1] ++ framed UInt32 d

namespace WitnessReceiptStatement

def encode (s : WitnessReceiptStatement) : Bytes :=
  [1] ++ encodeDid s.identity ++ toBeBytes s.sequence ++ framed UInt32 s.eventDigest ++
    encodePrior s.priorEventDigest ++ [s.eventKind.tag] ++ toBeBytes s.witnessPolicyGeneration ++
    encodeDid s.witnessId ++ toBeBytes s.observedEpoch

end WitnessReceiptStatement

/-! ### Receipts -/

structure WitnessReceipt where
  statement : WitnessReceiptStatement
  signature : Signature
  deriving DecidableEq

/-- Sign a statement. With a key that does not sign the source panics. -/
def signWitnessReceipt [KeyPrimitives] (statement : WitnessReceiptStatement)
    (witnessKey : SigningKey) : Except Fault WitnessReceipt := do
  let signature ← okOr (witnessKey.sign statement.encode) .panic
  return ⟨statement, signature⟩

namespace WitnessReceipt

section

variable [Primitives]

def verify (r : WitnessReceipt) (witnessKey : VerifyingKey) : Except IdentityError Unit :=
  (witnessKey.verify r.statement.encode r.signature).mapError .crypto

end

end WitnessReceipt

variable {witnessKey : SigningKey}

lemma signWitnessReceipt_ok [KeyPrimitives] {statement : WitnessReceiptStatement}
    {receipt : WitnessReceipt} :
    signWitnessReceipt statement witnessKey = .ok receipt ↔
      witnessKey.sign statement.encode = some receipt.signature ∧
        receipt.statement = statement := by
  rw [signWitnessReceipt, bind_ok]
  simp only [okOr_ok]
  constructor
  · rintro ⟨signature, hsign, h⟩
    cases h
    exact ⟨hsign, rfl⟩
  · rintro ⟨hsign, rfl⟩
    exact ⟨receipt.signature, hsign, rfl⟩

lemma exists_signWitnessReceipt [KeyPrimitives]
    (h : witnessKey.suite = .ed25519) (statement : WitnessReceiptStatement) :
    ∃ receipt, signWitnessReceipt statement witnessKey = .ok receipt := by
  cases witnessKey with
  | ed25519 seed => exact ⟨_, rfl⟩
  | mlDsa65 pair => cases h

/-! ### Certificates -/

/-- What an establishment declares, once it is a policy. -/
lemma exists_of_policy [Primitives] {est : Establishment} {sn : UInt64} {policy : WitnessPolicy}
    (h : est.policy sn = some policy) :
    policy.generation = sn ∧ policy.threshold.toNat = est.witnessThreshold.toNat ∧
      policy.witnesses.length < 2 ^ 16 := by
  simp only [Establishment.policy, Option.bind_eq_bind, Option.bind_eq_some_iff,
    Option.guard_eq_some'] at h
  obtain ⟨-, -, witnesses, -, -, hthreshold, h⟩ := h
  obtain ⟨⟨-, -, hlength, -⟩, rfl⟩ := WitnessPolicy.new_ok.mp (toOption_some.mp h)
  refine ⟨rfl, ?_, hlength.trans_lt (by decide)⟩
  rw [UInt32.toNat_toUInt16, Nat.mod_eq_of_lt hthreshold]

structure WitnessedEventCertificate where
  identity : Did
  sequence : UInt64
  eventDigest : Bytes
  witnessPolicyGeneration : UInt64
  receipts : List WitnessReceipt
  deriving DecidableEq

def checkReceiptMatches (r : WitnessReceipt) (identity : Did) (sequence : UInt64)
    (eventDigest : Bytes) (witnessPolicyGeneration : UInt64) : Except IdentityError Unit :=
  failIf (r.statement.identity ≠ identity ∨ r.statement.sequence ≠ sequence ∨
    r.statement.eventDigest ≠ eventDigest ∨
    r.statement.witnessPolicyGeneration ≠ witnessPolicyGeneration) .witnessReceiptMismatch

namespace WitnessedEventCertificate

variable [Primitives]

/-- Count one receipt among the witnesses counted so far. -/
def countReceipt (cert : WitnessedEventCertificate) (policy : WitnessPolicy)
    (resolveWitnessKey : WitnessId → Option VerifyingKey) (counted : List WitnessId)
    (r : WitnessReceipt) : Except IdentityError (List WitnessId) := do
  checkReceiptMatches r cert.identity cert.sequence cert.eventDigest cert.witnessPolicyGeneration
  failIf (¬ policy.contains r.statement.witnessId) .witnessNotInPolicy
  -- a repeated receipt is not fatal, but counts once
  if r.statement.witnessId ∈ counted then return counted
  let key ← okOr (resolveWitnessKey r.statement.witnessId) .unresolvedWitnessKey
  r.verify key
  return counted ++ [r.statement.witnessId]

def verify (cert : WitnessedEventCertificate) (policy : WitnessPolicy)
    (resolveWitnessKey : WitnessId → Option VerifyingKey) : Except IdentityError Unit := do
  failIf (policy.generation ≠ cert.witnessPolicyGeneration)
    (.witnessPolicyGenerationMismatch policy.generation cert.witnessPolicyGeneration)
  let counted ← cert.receipts.foldlM (cert.countReceipt policy resolveWitnessKey) []
  failIf (UInt16.ofNat counted.length < policy.threshold)
    (.witnessThresholdNotMet policy.threshold (UInt16.ofNat counted.length))

/-- A certificate holds a witness's receipt for its event. -/
def Confirms (cert : WitnessedEventCertificate)
    (resolveWitnessKey : WitnessId → Option VerifyingKey) (w : WitnessId) : Prop :=
  ∃ r ∈ cert.receipts, r.statement.witnessId = w ∧
    checkReceiptMatches r cert.identity cert.sequence cert.eventDigest
      cert.witnessPolicyGeneration = .ok () ∧
    ∃ key, resolveWitnessKey w = some key ∧ r.verify key = .ok ()

/-- The witnesses counted so far are distinct members of the policy that confirmed the event. -/
structure Counted (cert : WitnessedEventCertificate) (policy : WitnessPolicy)
    (resolveWitnessKey : WitnessId → Option VerifyingKey) (counted : List WitnessId) : Prop where
  nodup : counted.Nodup
  members : counted ⊆ policy.witnesses
  confirmed : ∀ w ∈ counted, cert.Confirms resolveWitnessKey w

variable {cert : WitnessedEventCertificate} {resolve : WitnessId → Option VerifyingKey}
  {policy : WitnessPolicy}

lemma Counted.countReceipt {counted counted' : List WitnessId}
    {r : WitnessReceipt} (hr : r ∈ cert.receipts) (h : Counted cert policy resolve counted)
    (hcount : cert.countReceipt policy resolve counted r = .ok counted') :
    Counted cert policy resolve counted' := by
  rw [WitnessedEventCertificate.countReceipt] at hcount
  obtain ⟨⟨⟩, hmatch, hcount⟩ := bind_ok.mp hcount
  obtain ⟨hmem, hcount⟩ := failIf_bind_ok.mp hcount
  split_ifs at hcount with hseen
  · cases hcount
    exact h
  · obtain ⟨key, hkey, hcount⟩ := bind_ok.mp hcount
    obtain ⟨⟨⟩, hverify, hcount⟩ := bind_ok.mp hcount
    cases hcount
    refine ⟨nodup_append_comm.mp (nodup_cons.mpr ⟨hseen, h.nodup⟩), ?_, ?_⟩
    · intro w hw
      rcases mem_append.mp hw with hw | hw
      · exact h.members hw
      · rw [mem_singleton.mp hw]
        simpa [WitnessPolicy.contains] using hmem
    · intro w hw
      rcases mem_append.mp hw with hw | hw
      · exact h.confirmed w hw
      · rw [mem_singleton.mp hw]
        exact ⟨r, hr, rfl, hmatch, key, okOr_ok.mp hkey, hverify⟩

/-- A certificate that verifies holds receipts of enough distinct members of the policy, as long as
its members can be counted. -/
lemma exists_of_verify (h : cert.verify policy resolve = .ok ())
    (hfew : policy.witnesses.length < 2 ^ 16) : policy.generation = cert.witnessPolicyGeneration ∧
      ∃ ws : List WitnessId, ws.Nodup ∧ policy.threshold.toNat ≤ ws.length ∧
        ∀ w ∈ ws, w ∈ policy.witnesses ∧ cert.Confirms resolve w := by
  obtain ⟨hgeneration, h⟩ := failIf_bind_ok.mp h
  obtain ⟨counted, hfold, h⟩ := bind_ok.mp h
  have hcounted : Counted cert policy resolve counted :=
    foldlM_invariant (fun _ r hr _ hs hstep => hs.countReceipt hr hstep)
      ⟨nodup_nil, by simp, by simp⟩ hfold
  have hlength : counted.length ≤ policy.witnesses.length :=
    (subperm_of_subset hcounted.nodup hcounted.members).length_le
  have hthreshold := failIf_ok.mp h
  rw [UInt16.not_lt, UInt16.le_iff_toNat_le, UInt16.toNat_ofNat_of_lt' (hlength.trans_lt hfew)]
    at hthreshold
  exact ⟨not_not.mp hgeneration, counted, hcounted.nodup, hthreshold, fun w hw =>
    ⟨hcounted.members hw, hcounted.confirmed w hw⟩⟩

end WitnessedEventCertificate

end Mininet.Identity
