import Mininet.Execution.Body
import Mininet.Lib.TreeMap

/-!
# The shielded ledger

Membership and accounting of shielded outputs, over opaque byte pairs. What a claim does is decided
by a `ClaimVerifier` outside the ledger; the ledger checks that the inputs exist, that the outputs
are new, and that the fee is covered, and keeps the order in which claims were applied.
-/

namespace Mininet

open Codec Fallible TreeMaps List
open Std (ExtTreeMap LawfulEqCmp)

/-- Hard cap on the rows of each map of a snapshot. -/
def maxLedgerSnapshotEntries : ℕ := 65536

def maxOutputs : ℕ := maxLedgerSnapshotEntries

def maxRingMembers : ℕ := 16 * 128

/-- A one-time public key and its amount commitment. -/
structure ShieldedOutput where
  publicKey : Bytes
  amountCommitment : Bytes
  deriving DecidableEq

namespace ShieldedOutput

def wellFormed (o : ShieldedOutput) : Bool :=
  o.publicKey.length = 32 ∧ o.amountCommitment.length = 32

/-- The order of the fields, first to last. -/
def cmp : ShieldedOutput → ShieldedOutput → Ordering :=
  compareLex (compareOn publicKey) (compareOn amountCommitment)

end ShieldedOutput

structure ShieldedGenesisAllocation where
  output : ShieldedOutput
  amountMicro : UInt64
  deriving DecidableEq

/-- What a verified claim does. -/
structure ShieldedClaimEffects where
  ringMembers : List ShieldedOutput
  outputs : List ShieldedOutput
  feeMicro : UInt64

/-- The judge of shielded claims. -/
structure ClaimVerifier where
  /-- The effects of the claim with a digest, if the records are the ones it spends. -/
  verifyClaim : Hash → Hash → List NullifierRecord → Option ShieldedClaimEffects
  verifyGenesisAllocation : Hash → ShieldedGenesisAllocation → Bool

/-- Records by the claim they belong to, each claim's in the order they came. -/
def recordGroups (records : List NullifierRecord) : ExtTreeMap Hash (List NullifierRecord) compare :=
  records.foldl (fun groups r =>
    groups.insert r.claimDigest (groups.getD r.claimDigest [] ++ [r])) ∅

structure ShieldedLedger where
  genesis : List ShieldedGenesisAllocation
  outputs : ExtTreeMap Bytes Bytes compare
  applied : List Hash
  poolMicro : U128
  deriving DecidableEq

namespace ShieldedLedger

/-- The ledger of a network without shielded funds. -/
def empty : ShieldedLedger where
  genesis := []
  outputs := ∅
  applied := []
  poolMicro := 0

/-- Fund one output at genesis. -/
def fund (verifier : ClaimVerifier) (network : Hash) (l : ShieldedLedger)
    (allocation : ShieldedGenesisAllocation) : Except ExecutionError ShieldedLedger := do
  failIf (¬ allocation.output.wellFormed ∨ ¬ verifier.verifyGenesisAllocation network allocation ∨
    allocation.output.publicKey ∈ l.outputs) .invalidShieldedClaim
  let pool ← okOr (checkedAdd l.poolMicro (Fin.ofNat _ allocation.amountMicro.toNat)) .amountOverflow
  return { l with
    outputs := l.outputs.insert allocation.output.publicKey allocation.output.amountCommitment
    poolMicro := pool }

def sortAllocations (allocations : List ShieldedGenesisAllocation) :
    List ShieldedGenesisAllocation :=
  allocations.insertionSort fun a b => (a.output.cmp b.output).isLE

/-- The ledger at genesis, its allocations in the order of their outputs. -/
def fromGenesis (network : Hash) (allocations : List ShieldedGenesisAllocation)
    (verifier : ClaimVerifier) : Except ExecutionError ShieldedLedger := do
  failIf (maxOutputs < allocations.length) .snapshotTooLarge
  let ledger ← (sortAllocations allocations).foldlM (fund verifier network) empty
  return { ledger with genesis := sortAllocations allocations }

def allocationBytes (a : ShieldedGenesisAllocation) : Bytes :=
  a.output.publicKey ++ (a.output.amountCommitment ++ toBeBytes a.amountMicro)

def genesisCommitment [Primitives] (l : ShieldedLedger) : Hash :=
  blake3 (utf8 "mini-execution/shielded-genesis/v1" ++ l.genesis.flatMap allocationBytes)

/-- Apply a verified claim, once; the fee it pays out of the pool is returned. -/
def apply (l : ShieldedLedger) (digest : Hash) (effects : ShieldedClaimEffects) :
    Except ExecutionError (ShieldedLedger × UInt64) :=
  if digest ∈ l.applied then .ok (l, 0)
  else do
    failIf (effects.ringMembers = [] ∨ maxRingMembers < effects.ringMembers.length ∨
      effects.outputs = [] ∨ 16 < effects.outputs.length ∨
      maxOutputs < l.outputs.size + effects.outputs.length ∨
      maxOutputs ≤ l.applied.length) .invalidShieldedClaim
    failIf (∃ member ∈ effects.ringMembers, ¬ member.wellFormed ∨
      l.outputs[member.publicKey]? ≠ some member.amountCommitment) .unknownShieldedInput
    failIf ((∃ output ∈ effects.outputs, ¬ output.wellFormed ∨ output.publicKey ∈ l.outputs) ∨
      ¬ (effects.outputs.map ShieldedOutput.publicKey).Nodup) .duplicateShieldedOutput
    let pool ← (Amount.checkedSub l.poolMicro (Fin.ofNat _ effects.feeMicro.toNat)).mapError
      fun _ => .supplyConservationViolation
    return ({ l with
      outputs := insertAll l.outputs (effects.outputs.map fun o => (o.publicKey, o.amountCommitment))
      applied := l.applied ++ [digest]
      poolMicro := pool }, effects.feeMicro)

/-- Apply the claim with the next digest again, from the records left. -/
def replayClaim (verifier : ClaimVerifier) (network : Hash)
    (s : ExtTreeMap Hash (List NullifierRecord) compare × ShieldedLedger) (digest : Hash) :
    Except ExecutionError (ExtTreeMap Hash (List NullifierRecord) compare × ShieldedLedger) := do
  let group ← okOr s.1[digest]? .invalidShieldedClaim
  let effects ← okOr (verifier.verifyClaim network digest group) .invalidShieldedClaim
  let (replay, _) ← s.2.apply digest effects
  return (s.1.erase digest, replay)

/-- The records a map of spent key images stands for. -/
def spentRecords (nullifiers : ExtTreeMap Bytes Hash compare) : List NullifierRecord :=
  nullifiers.toList.map fun e => ⟨e.1, e.2⟩

/-- Reconstruct the ledger from its genesis and the order of its claims, and compare. -/
def verifyReplay (l : ShieldedLedger) (network : Hash) (nullifiers : ExtTreeMap Bytes Hash compare)
    (verifier : Option ClaimVerifier) : Except ExecutionError Unit :=
  if l = empty ∧ nullifiers = ∅ then .ok ()
  else do
    let verifier ← okOr verifier .missingClaimVerifier
    let replay ← fromGenesis network l.genesis verifier
    let (groups, replay) ← l.applied.foldlM (replayClaim verifier network)
      (recordGroups (spentRecords nullifiers), replay)
    failIf (groups ≠ ∅ ∨ replay ≠ l) .invalidShieldedClaim

/-! ### Bytes -/

def domain : Bytes := utf8 "mini-execution/shielded-ledger/v1"

def toBytes (l : ShieldedLedger) : Bytes :=
  domain ++ (countBytes UInt32 l.genesis.length ++ (l.genesis.flatMap allocationBytes ++
    (countBytes UInt32 l.outputs.size ++ (l.outputs.toList.flatMap (fun e => e.1 ++ e.2) ++
    (countBytes UInt32 l.applied.length ++ (l.applied.flatMap Hash.bytes ++
    toBeBytes l.poolMicro))))))

def readAllocation : Reader ExecutionError ShieldedGenesisAllocation := do
  let publicKey ← take .snapshotMalformed 32
  let amountCommitment ← take .snapshotMalformed 32
  let amountMicro ← word .snapshotMalformed UInt64
  return { output := { publicKey, amountCommitment }, amountMicro }

def readOutput : Reader ExecutionError (Bytes × Bytes) := do
  let key ← take .snapshotMalformed 32
  let commitment ← take .snapshotMalformed 32
  return (key, commitment)

/-- Read a ledger. Within the three lists every failure is the same, so a repeated key is reported
after the list and not in the middle of it. -/
def read : Reader ExecutionError ShieldedLedger := do
  expect .snapshotMalformed .snapshotMalformed domain
  let genesisCount ← readCount .snapshotMalformed .snapshotTooLarge UInt32 maxOutputs
  let genesis ← readMany readAllocation genesisCount
  lift (failIf (¬ (genesis.map fun a => a.output.publicKey).Nodup) .snapshotMalformed)
  let outputCount ← readCount .snapshotMalformed .snapshotTooLarge UInt32 maxOutputs
  let outputs ← readMany readOutput outputCount
  lift (failIf (¬ (outputs.map Prod.fst).Nodup) .snapshotMalformed)
  let appliedCount ← readCount .snapshotMalformed .snapshotTooLarge UInt32 maxOutputs
  let applied ← readMany (Hash.read .snapshotMalformed) appliedCount
  lift (failIf (¬ applied.Nodup) .snapshotMalformed)
  let poolMicro ← word .snapshotMalformed U128
  return { genesis, outputs := insertAll ∅ outputs, applied, poolMicro }

def fromBytes (bytes : Bytes) : Except ExecutionError ShieldedLedger := do
  let (ledger, rest) ← read.run bytes
  failIf (rest ≠ []) .snapshotMalformed
  return ledger

/-! ### What the operations do -/

variable {verifier : ClaimVerifier} {network digest : Hash} {l l' : ShieldedLedger}
  {a : ShieldedGenesisAllocation} {effects : ShieldedClaimEffects} {fee : UInt64}

/-- Funding an output adds a new key and its amount. -/
lemma fund_ok : fund verifier network l a = .ok l' ↔
      (a.output.wellFormed ∧ verifier.verifyGenesisAllocation network a ∧
        a.output.publicKey ∉ l.outputs) ∧
      ∃ pool, l.poolMicro.val + a.amountMicro.toNat = pool.val ∧
        { l with
          outputs := l.outputs.insert a.output.publicKey a.output.amountCommitment
          poolMicro := pool } = l' := by
  have hamount : (Fin.ofNat (2 ^ 128) a.amountMicro.toNat).val = a.amountMicro.toNat :=
    Nat.mod_eq_of_lt (a.amountMicro.toNat_lt.trans (by decide))
  rw [fund, failIf_bind_ok]
  simp only [bind_ok, okOr_ok, checkedAdd_some, pure_ok, hamount, not_or, not_not]

/-- The ways in which a claim can be applied: it was before, or it is new and within every bound. -/
lemma apply_ok (h : l.apply digest effects = .ok (l', fee)) :
    (digest ∈ l.applied ∧ l' = l ∧ fee = 0) ∨
      (digest ∉ l.applied ∧ l.applied.length < maxOutputs ∧
        l.outputs.size + effects.outputs.length ≤ maxOutputs ∧
        (∃ member ∈ effects.ringMembers, member.publicKey ∈ l.outputs) ∧
        (∀ o ∈ effects.outputs, o.wellFormed) ∧ fee = effects.feeMicro ∧
        ∃ pool, l.poolMicro.val = fee.toNat + pool.val ∧ l' = { l with
          outputs := insertAll l.outputs
            (effects.outputs.map fun o => (o.publicKey, o.amountCommitment))
          applied := l.applied ++ [digest]
          poolMicro := pool }) := by
  unfold apply at h
  split at h
  next hmem =>
    cases h
    exact .inl ⟨hmem, rfl, rfl⟩
  next hmem =>
    simp only [↓failIf_bind_ok, bind_ok] at h
    obtain ⟨hbounds, hring, hnew, pool, hpool, hresult⟩ := h
    rw [mapError_ok, Amount.checkedSub_ok, Fin.val_ofNat,
      Nat.mod_eq_of_lt (effects.feeMicro.toNat_lt.trans (by decide))] at hpool
    cases hresult
    simp only [not_or, not_lt, not_le] at hbounds
    obtain ⟨hne, -, -, -, hsize, hlen⟩ := hbounds
    refine .inr ⟨hmem, hlen, hsize, ?_, fun o ho => ?_, rfl, pool, hpool, rfl⟩
    · obtain ⟨member, hmember⟩ := exists_mem_of_ne_nil _ hne
      have hknown := not_not.mp (not_or.mp fun hbad => hring ⟨member, hmember, hbad⟩).2
      refine ⟨member, hmember, ?_⟩
      rw [ExtTreeMap.mem_iff_isSome_getElem?, hknown]
      rfl
    · exact not_not.mp fun hbad => hnew (.inl ⟨o, ho, .inl hbad⟩)

/-- The outputs of a new claim are under keys of their own. -/
lemma fresh_of_apply (h : l.apply digest effects = .ok (l', fee)) (hnew : digest ∉ l.applied) :
    (∀ o ∈ effects.outputs, o.publicKey ∉ l.outputs) ∧
      (effects.outputs.map ShieldedOutput.publicKey).Nodup := by
  unfold apply at h
  rw [if_neg hnew] at h
  simp only [↓failIf_bind_ok] at h
  obtain ⟨-, -, hfresh, -⟩ := h
  obtain ⟨hkeys, hnodup⟩ := not_or.mp hfresh
  exact ⟨fun o ho hmem => hkeys ⟨o, ho, .inr hmem⟩, not_not.mp hnodup⟩

/-- The fee is what leaves the pool. -/
lemma pool_apply (h : l.apply digest effects = .ok (l', fee)) :
    l.poolMicro.val = fee.toNat + l'.poolMicro.val := by
  obtain ⟨-, rfl, rfl⟩ | ⟨-, -, -, -, -, -, pool, hpool, rfl⟩ := apply_ok h
  · simp
  · exact hpool

/-! ### Invariant -/

/-- What every ledger reached from a genesis satisfies, and what its bytes rely on. -/
structure WellFormed (l : ShieldedLedger) : Prop where
  genesis_length : l.genesis.length ≤ maxOutputs
  genesis_wellFormed : ∀ a ∈ l.genesis, a.output.wellFormed
  genesis_nodup : (l.genesis.map fun a => a.output.publicKey).Nodup
  outputs_size : l.outputs.size ≤ maxOutputs
  outputs_length : ∀ k c : Bytes, l.outputs[k]? = some c → k.length = 32 ∧ c.length = 32
  applied_length : l.applied.length ≤ maxOutputs
  applied_nodup : l.applied.Nodup

lemma wellFormed_empty : empty.WellFormed where
  genesis_length := Nat.zero_le _
  genesis_wellFormed _ ha := by simp [empty] at ha
  genesis_nodup := .nil
  outputs_size := by simp [empty]
  outputs_length _ _ h := by simp [empty] at h
  applied_length := Nat.zero_le _
  applied_nodup := .nil

/-- After funding some allocations, exactly their keys are outputs. -/
lemma foldlM_fund_ok {as : List ShieldedGenesisAllocation}
    (h : as.foldlM (fund verifier network) l = .ok l') :
    (∀ a ∈ as, a.output.wellFormed ∧ a.output.publicKey ∉ l.outputs) ∧
      (as.map fun a => a.output.publicKey).Nodup ∧
      l'.outputs.size = l.outputs.size + as.length ∧
      (∀ k c : Bytes, l'.outputs[k]? = some c → l.outputs[k]? = some c ∨ k.length = 32 ∧ c.length = 32) ∧
      l'.applied = l.applied := by
  induction as generalizing l with
  | nil =>
    cases h
    exact ⟨by simp, by simp, by simp, fun _ _ hk => .inl hk, rfl⟩
  | cons a as ih =>
    rw [foldlM_cons] at h
    obtain ⟨mid, hfund, hrest⟩ := bind_ok.mp h
    obtain ⟨⟨hwf, -, hnew⟩, pool, -, rfl⟩ := fund_ok.mp hfund
    obtain ⟨hall, hnodup, hsize, houtputs, happlied⟩ := ih hrest
    simp only [ExtTreeMap.mem_insert, not_or] at hall
    refine ⟨?_, ?_, ?_, ?_, happlied⟩
    · rintro b hb
      rcases mem_cons.mp hb with rfl | hb
      · exact ⟨hwf, hnew⟩
      · exact ⟨(hall b hb).1, (hall b hb).2.2⟩
    · refine nodup_cons.mpr ⟨fun hmem => ?_, hnodup⟩
      obtain ⟨b, hb, hkey⟩ := mem_map.mp hmem
      exact (hall b hb).2.1 (by simp [hkey])
    · rw [hsize, ExtTreeMap.size_insert, if_neg (by simpa using hnew), length_cons]
      omega
    · intro k c hk
      rcases houtputs k c hk with hk | hk
      · rw [ExtTreeMap.getElem?_insert] at hk
        split_ifs at hk with heq
        · have hwf : a.output.publicKey.length = 32 ∧ a.output.amountCommitment.length = 32 := by
            simpa [ShieldedOutput.wellFormed] using hwf
          rw [← LawfulEqCmp.eq_of_compare heq, ← Option.some.inj hk]
          exact .inr hwf
        · exact .inl hk
      · exact .inr hk

lemma wellFormed_fromGenesis {allocations : List ShieldedGenesisAllocation}
    (h : fromGenesis network allocations verifier = .ok l) : l.WellFormed := by
  obtain ⟨hlen, h⟩ := failIf_bind_ok.mp h
  obtain ⟨ledger, hfund, hresult⟩ := bind_ok.mp h
  obtain ⟨hall, hnodup, hsize, houtputs, happlied⟩ := foldlM_fund_ok hfund
  have hlength : (sortAllocations allocations).length ≤ maxOutputs := by
    rw [sortAllocations, length_insertionSort]
    exact not_lt.mp hlen
  cases hresult
  constructor
  case genesis_length => exact hlength
  case genesis_wellFormed => exact fun a ha => (hall a ha).1
  case genesis_nodup => exact hnodup
  case outputs_size => simpa [empty] using hsize.trans_le (by simpa [empty] using hlength)
  case outputs_length => exact fun k c hk => (houtputs k c hk).resolve_left (by simp [empty])
  case applied_length => simp [happlied, empty]
  case applied_nodup => simp [happlied, empty]

lemma WellFormed.apply (hl : l.WellFormed) (h : l.apply digest effects = .ok (l', fee)) :
    l'.WellFormed := by
  obtain ⟨-, rfl, -⟩ | ⟨hnew, hlen, hsize, -, hwf, -, pool, -, rfl⟩ := apply_ok h
  · exact hl
  · constructor
    case genesis_length => exact hl.genesis_length
    case genesis_wellFormed => exact hl.genesis_wellFormed
    case genesis_nodup => exact hl.genesis_nodup
    case outputs_size =>
      exact (size_insertAll_le _ _).trans (by simpa using hsize)
    case outputs_length =>
      intro k c hk
      rcases mem_of_getElem?_insertAll hk with hk | hk
      · exact hl.outputs_length k c hk
      · obtain ⟨o, ho, heq⟩ := mem_map.mp hk
        cases heq
        simpa [ShieldedOutput.wellFormed] using hwf o ho
    case applied_length => simpa using hlen
    case applied_nodup =>
      exact hl.applied_nodup.append (nodup_singleton _) (by simpa using hnew)

/-! ### Round trip -/

lemma reads_readAllocation (h : a.output.wellFormed) :
    Reads readAllocation (allocationBytes a) a := by
  have h : a.output.publicKey.length = 32 ∧ a.output.amountCommitment.length = 32 := by
    simpa [ShieldedOutput.wellFormed] using h
  refine (reads_take h.1).bind ?_
  refine (reads_take h.2).bind ?_
  exact (reads_word _ a.amountMicro).bind_pure

lemma reads_readOutput {e : Bytes × Bytes} (h : e.1.length = 32 ∧ e.2.length = 32) :
    Reads readOutput (e.1 ++ e.2) e :=
  (reads_take h.1).bind (reads_take h.2).bind_pure

lemma reads_read (h : l.WellFormed) : Reads read l.toBytes l := by
  have hfit : maxOutputs < 256 ^ 4 := by decide
  unfold toBytes
  refine (reads_expect _ _ _).bind ?_
  refine (reads_readCount _ _ h.genesis_length (h.genesis_length.trans_lt hfit)).bind ?_
  refine (reads_readMany fun a ha => reads_readAllocation (h.genesis_wellFormed a ha)).bind ?_
  refine Reads.failIf_bind (not_not.mpr h.genesis_nodup) ?_
  refine (reads_readCount _ _ h.outputs_size (h.outputs_size.trans_lt hfit)).bind ?_
  rw [← ExtTreeMap.length_toList]
  refine (reads_readMany fun e he => reads_readOutput
    (h.outputs_length e.1 e.2 (mem_toList.mp he))).bind ?_
  refine Reads.failIf_bind (not_not.mpr (nodup_keys_toList _)) ?_
  refine (reads_readCount _ _ h.applied_length (h.applied_length.trans_lt hfit)).bind ?_
  refine (reads_readMany fun d _ => Hash.reads_read _ d).bind ?_
  refine Reads.failIf_bind (not_not.mpr h.applied_nodup) ?_
  rw [insertAll_toList]
  exact (reads_word _ l.poolMicro).bind_pure

lemma fromBytes_toBytes (h : l.WellFormed) : fromBytes l.toBytes = .ok l :=
  bind_ok.mpr ⟨(l, []), (reads_read h).run, failIf_bind_ok.mpr ⟨by simp, rfl⟩⟩

end ShieldedLedger

end Mininet
