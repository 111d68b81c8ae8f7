import Mininet.Economy.Issuance

/-!
# Epoch plans on the wire

The canonical bytes of a plan carry every field. They are self-delimiting, and decoding checks that
it re-encodes to the bytes it was given.
-/

namespace Mininet

open Codec Fallible List

/-- Hard cap on the optional grants of one epoch. -/
def maxScalableEpochGrants : ℕ := 1024

/-- Hard cap on a beneficiary's name. -/
def maxEpochBeneficiaryBytes : ℕ := 1024

/-- Hard cap on an encoded plan. -/
def maxScalableEpochPlanBytes : ℕ := 2 * 1024 * 1024

def epochPlanDomain : Bytes := utf8 "mini-economy/scalable-epoch-plan-wire/v1"

def Channel.fromTag (tag : UInt8) : Except EconomyError Channel :=
  if tag = 0 then .ok .humanShare
  else if tag = 1 then .ok .service
  else if tag = 2 then .ok .treasuryContribution
  else .error .malformedEncoding

@[simp] lemma Channel.fromTag_tag (c : Channel) : Channel.fromTag c.tag = .ok c := by
  cases c <;> rfl

/-! ### Encoding -/

def VestingGrant.canonicalBytes (g : VestingGrant) : Bytes :=
  framed UInt64 (utf8 g.beneficiary) ++ ([g.channel.tag] ++ (toBeBytes g.amount ++
    toBeBytes g.vestingMs))

namespace ScalableEpochPlan

/-- The fields of fixed width, in order. -/
def headBytes (p : ScalableEpochPlan) : Bytes :=
  epochPlanDomain ++ (toBeBytes p.epoch ++ (toBeBytes p.durationMs ++
    (toBeBytes p.openingCirculating ++ (toBeBytes p.human.epoch ++ (p.human.snapshot.root.bytes ++
    (toBeBytes p.human.snapshot.eligibleCount ++ (toBeBytes p.human.cap ++
    (toBeBytes p.human.perHuman ++ (toBeBytes p.human.issued ++
    (toBeBytes p.human.unissuedRemainder ++ (toBeBytes p.human.vestingMs ++
    (toBeBytes p.serviceCap ++ (toBeBytes p.treasuryCap ++ (toBeBytes p.totalCap ++
    (toBeBytes p.serviceIssued ++ (toBeBytes p.treasuryIssued ++
    toBeBytes p.totalIssued))))))))))))))))

def canonicalBytes (p : ScalableEpochPlan) : Bytes :=
  p.headBytes ++ (countBytes UInt64 p.optionalGrants.length ++
    p.optionalGrants.flatMap VestingGrant.canonicalBytes)

def toWireBytes (p : ScalableEpochPlan) : Except EconomyError Bytes := do
  failIf (maxScalableEpochGrants < p.optionalGrants.length ∨ ∃ g ∈ p.optionalGrants,
    g.beneficiary = "" ∨ maxEpochBeneficiaryBytes < (utf8 g.beneficiary).length) .limitExceeded
  failIf (maxScalableEpochPlanBytes < p.canonicalBytes.length) .limitExceeded
  return p.canonicalBytes

/-! ### Decoding -/

def readHead : Reader EconomyError ScalableEpochPlan := do
  expect .malformedEncoding .malformedEncoding epochPlanDomain
  let epoch ← word .malformedEncoding UInt64
  let durationMs ← word .malformedEncoding UInt64
  let openingCirculating ← word .malformedEncoding Amount
  let humanEpoch ← word .malformedEncoding UInt64
  let root ← Hash.read .malformedEncoding
  let eligibleCount ← word .malformedEncoding UInt64
  let cap ← word .malformedEncoding Amount
  let perHuman ← word .malformedEncoding Amount
  let issued ← word .malformedEncoding Amount
  let unissuedRemainder ← word .malformedEncoding Amount
  let vestingMs ← word .malformedEncoding UInt64
  let serviceCap ← word .malformedEncoding Amount
  let treasuryCap ← word .malformedEncoding Amount
  let totalCap ← word .malformedEncoding Amount
  let serviceIssued ← word .malformedEncoding Amount
  let treasuryIssued ← word .malformedEncoding Amount
  let totalIssued ← word .malformedEncoding Amount
  return {
    epoch, durationMs, openingCirculating,
    human := {
      epoch := humanEpoch, snapshot := ⟨root, eligibleCount⟩, cap, perHuman, issued,
      unissuedRemainder, vestingMs },
    serviceCap, treasuryCap, totalCap, serviceIssued, treasuryIssued, totalIssued,
    optionalGrants := [] }

def readGrant : Reader EconomyError VestingGrant := do
  let len ← readCount .malformedEncoding .limitExceeded UInt64 maxEpochBeneficiaryBytes
  lift (failIf (len = 0) .limitExceeded)
  let name ← take .malformedEncoding len
  let beneficiary ← lift (okOr (ofUtf8 name) .malformedEncoding)
  let tag ← word .malformedEncoding UInt8
  let channel ← lift (Channel.fromTag tag)
  let amount ← word .malformedEncoding Amount
  let vestingMs ← word .malformedEncoding UInt64
  return { beneficiary, channel, amount, vestingMs }

def readPlan : Reader EconomyError ScalableEpochPlan := do
  let head ← readHead
  let count ← readCount .malformedEncoding .limitExceeded UInt64 maxScalableEpochGrants
  let optionalGrants ← readMany readGrant count
  return { head with optionalGrants }

def fromWireBytes (bytes : Bytes) : Except EconomyError ScalableEpochPlan := do
  failIf (maxScalableEpochPlanBytes < bytes.length) .limitExceeded
  let (plan, rest) ← readPlan.run bytes
  failIf (rest ≠ []) .malformedEncoding
  let again ← plan.toWireBytes
  failIf (again ≠ bytes) .malformedEncoding
  return plan

/-! ### Round trip -/

variable {p : ScalableEpochPlan} {bs : Bytes}

lemma reads_readHead (p : ScalableEpochPlan) :
    Reads readHead p.headBytes { p with optionalGrants := [] } := by
  refine (reads_expect _ _ _).bind ?_
  refine (reads_word _ p.epoch).bind ?_
  refine (reads_word _ p.durationMs).bind ?_
  refine (reads_word _ p.openingCirculating).bind ?_
  refine (reads_word _ p.human.epoch).bind ?_
  refine (Hash.reads_read _ p.human.snapshot.root).bind ?_
  refine (reads_word _ p.human.snapshot.eligibleCount).bind ?_
  refine (reads_word _ p.human.cap).bind ?_
  refine (reads_word _ p.human.perHuman).bind ?_
  refine (reads_word _ p.human.issued).bind ?_
  refine (reads_word _ p.human.unissuedRemainder).bind ?_
  refine (reads_word _ p.human.vestingMs).bind ?_
  refine (reads_word _ p.serviceCap).bind ?_
  refine (reads_word _ p.treasuryCap).bind ?_
  refine (reads_word _ p.totalCap).bind ?_
  refine (reads_word _ p.serviceIssued).bind ?_
  refine (reads_word _ p.treasuryIssued).bind ?_
  exact (reads_word _ p.totalIssued).bind_pure

lemma reads_readGrant (g : VestingGrant) (hne : g.beneficiary ≠ "")
    (hlen : (utf8 g.beneficiary).length ≤ maxEpochBeneficiaryBytes) :
    Reads readGrant g.canonicalBytes g := by
  have hpos : (utf8 g.beneficiary).length ≠ 0 := fun hzero =>
    hne (utf8_injective (length_eq_zero_iff.mp hzero))
  simp only [VestingGrant.canonicalBytes, framed, append_assoc]
  refine (reads_readCount _ _ hlen (hlen.trans_lt (by decide))).bind ?_
  refine Reads.failIf_bind hpos ?_
  refine (reads_take rfl).bind ?_
  refine Reads.lift_bind (okOr_ok.mpr (ofUtf8_utf8 _)) ?_
  refine (reads_byte _ g.channel.tag).bind ?_
  refine Reads.lift_bind (Channel.fromTag_tag _) ?_
  refine (reads_word _ g.amount).bind ?_
  exact (reads_word _ g.vestingMs).bind_pure

lemma toWireBytes_ok :
    p.toWireBytes = .ok bs ↔ p.optionalGrants.length ≤ maxScalableEpochGrants ∧
      (∀ g ∈ p.optionalGrants, g.beneficiary ≠ "" ∧
        (utf8 g.beneficiary).length ≤ maxEpochBeneficiaryBytes) ∧
      p.canonicalBytes.length ≤ maxScalableEpochPlanBytes ∧ p.canonicalBytes = bs := by
  simp only [toWireBytes, failIf_bind_ok, pure_ok, not_or, not_lt, not_exists, not_and, and_assoc]

/-- A plan within the caps reads back from its canonical bytes. -/
lemma reads_readPlan (p : ScalableEpochPlan)
    (hcount : p.optionalGrants.length ≤ maxScalableEpochGrants)
    (hgrants : ∀ g ∈ p.optionalGrants, g.beneficiary ≠ "" ∧
      (utf8 g.beneficiary).length ≤ maxEpochBeneficiaryBytes) :
    Reads readPlan p.canonicalBytes p := by
  refine (reads_readHead p).bind ?_
  refine (reads_readCount _ _ hcount (hcount.trans_lt (by decide))).bind ?_
  exact (reads_readMany fun g hg => reads_readGrant g (hgrants g hg).1 (hgrants g hg).2).bind_pure

/-- Decoding inverts encoding. -/
theorem fromWireBytes_toWireBytes (h : p.toWireBytes = .ok bs) : fromWireBytes bs = .ok p := by
  obtain ⟨hcount, hgrants, hsize, rfl⟩ := toWireBytes_ok.mp h
  have hrun := (reads_readPlan p hcount hgrants).run
  simp only [fromWireBytes, failIf_bind_ok, not_lt]
  refine ⟨hsize, bind_ok.mpr ⟨(p, []), hrun, ?_⟩⟩
  refine failIf_bind_ok.mpr ⟨by simp, bind_ok.mpr ⟨_, h, ?_⟩⟩
  exact failIf_bind_ok.mpr ⟨by simp, rfl⟩

/-! ### What the canonical bytes determine -/

/-- Every length and count fits its prefix, also the length of the whole. -/
structure Fits (p : ScalableEpochPlan) : Prop where
  grants : p.optionalGrants.length < 2 ^ 64
  beneficiary : ∀ g ∈ p.optionalGrants, (utf8 g.beneficiary).length < 2 ^ 64
  length_canonicalBytes : p.canonicalBytes.length < 2 ^ 64

lemma grant_append_inj {g k : VestingGrant} {r s : Bytes}
    (hg : (utf8 g.beneficiary).length < 2 ^ 64) (hk : (utf8 k.beneficiary).length < 2 ^ 64)
    (h : g.canonicalBytes ++ r = k.canonicalBytes ++ s) : g = k ∧ r = s := by
  simp only [VestingGrant.canonicalBytes, append_assoc] at h
  obtain ⟨hname, h⟩ := framed_append_inj hg hk h
  obtain ⟨htag, h⟩ := append_inj h (by simp)
  obtain ⟨hamount, h⟩ := append_inj h (by simp)
  obtain ⟨hvesting, hrest⟩ := append_inj h (by simp)
  have hchannel : g.channel = k.channel := by
    have hok : (Except.ok g.channel : Except EconomyError Channel) = .ok k.channel := by
      rw [← Channel.fromTag_tag, ← Channel.fromTag_tag k.channel, singleton_inj.mp htag]
    simpa using hok
  cases g
  cases k
  cases utf8_injective hname
  cases hchannel
  cases toBeBytes_injective hamount
  cases toBeBytes_injective hvesting
  exact ⟨rfl, hrest⟩

lemma canonicalBytes_inj {q : ScalableEpochPlan} (hp : p.Fits) (hq : q.Fits)
    (h : p.canonicalBytes = q.canonicalBytes) : p = q := by
  obtain ⟨hhead, h⟩ := (reads_readHead p).inj (reads_readHead q) h
  obtain ⟨hcount, h⟩ := countBytes_append_inj hp.grants hq.grants h
  obtain ⟨hgrants, -⟩ := flatMap_append_inj id (r := []) (s := [])
    (fun g hg k hk _ _ => grant_append_inj (hp.beneficiary g hg) (hq.beneficiary k hk)) hcount
    (by simpa using h)
  cases p
  cases q
  simp only [map_id] at hgrants
  simp only [ScalableEpochPlan.mk.injEq, and_true] at hhead ⊢
  simp [hhead, hgrants]

end ScalableEpochPlan

end Mininet
