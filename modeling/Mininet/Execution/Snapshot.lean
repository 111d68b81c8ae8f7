import Mininet.Execution.Conservation

/-!
# Snapshots of the ledger state

A snapshot is the whole state in one canonical byte string. The decoder checks more than the
executor ever does: the order of keys, the accounts, the vesting positions and the supply. That
executed states pass those checks is therefore an invariant of execution, with one exception: the
decoder insists that the supply ever created fits an amount, and the executor does not.
-/

namespace Mininet

open Codec Fallible TreeMaps List
open Std (ExtTreeMap LawfulEqCmp)

def maxLedgerSnapshotBytes : ℕ := 8 * 1024 * 1024

def snapshotDomain : Bytes := utf8 "mini-execution/ledger-snapshot/v3"

/-! ### Encoding -/

def CanonicalRejection.fromTag (tag : UInt8) : Except ExecutionError CanonicalRejection :=
  if tag = 0 then .ok .wrongNetwork
  else if tag = 1 then .ok .unsupportedPayee
  else if tag = 2 then .ok .staleSequence
  else if tag = 3 then .ok .insufficientFunds
  else if tag = 4 then .ok .unrecognizedAnchor
  else .error .snapshotMalformed

@[simp] lemma CanonicalRejection.fromTag_tag (r : CanonicalRejection) : fromTag r.tag = .ok r := by
  cases r <;> rfl

def VestingSubject.encode : VestingSubject → Bytes
  | .humanSnapshot snapshot =>
    [0] ++ (snapshot.root.bytes ++ toBeBytes snapshot.eligibleCount)
  | .beneficiary name => [1] ++ framed UInt32 (utf8 name)

def VestingPosition.encode (p : VestingPosition) : Bytes :=
  toBeBytes p.epoch ++ (p.subject.encode ++ ([p.channel.tag] ++ (toBeBytes p.amount ++
    (toBeBytes p.startsAtPolicyMs ++ toBeBytes p.durationMs))))

def MonetaryLedger.encode (l : MonetaryLedger) : Bytes :=
  toBeBytes l.genesisCirculating ++ (toBeBytes l.totalIssued ++ (toBeBytes l.policyTimeMs ++
    (lastEpochBytes l.lastEpoch ++ (countBytes UInt32 l.positions.length ++
    l.positions.flatMap VestingPosition.encode))))

/-- Add to a running length, within the cap. -/
def addSnapshotLen (length additional : ℕ) : Except ExecutionError ℕ := do
  failIf (maxLedgerSnapshotBytes < length + additional) .snapshotTooLarge
  return length + additional

def addSubjectLen (length : ℕ) : VestingSubject → Except ExecutionError ℕ
  | .humanSnapshot _ => addSnapshotLen length (32 + 8)
  | .beneficiary name => do
    failIf (name = "") .snapshotMalformed
    failIf (maxSnapshotBeneficiaryBytes < (utf8 name).length) .snapshotTooLarge
    addSnapshotLen length (4 + (utf8 name).length)

def addPositionLen (length : ℕ) (p : VestingPosition) : Except ExecutionError ℕ := do
  let length ← addSnapshotLen length (8 + 1)
  let length ← addSubjectLen length p.subject
  addSnapshotLen length (1 + 16 + 16 + 8)

namespace LedgerState

/-- The exact length of the encoding, computed before encoding and within the cap at every step. -/
def snapshotEncodedLen (s : LedgerState) : Except ExecutionError ℕ := do
  let length ← addSnapshotLen 0 (snapshotDomain.length + 32)
  let length ← addSnapshotLen length 4
  let length ← s.finalized.toList.foldlM (fun length e =>
    addSnapshotLen length (4 + e.1.length + 8 + 32)) length
  let length ← addSnapshotLen length 4
  let length ← addSnapshotLen length (s.rejected.size * 33)
  let length ← addSnapshotLen length 4
  let length ← s.nullifiers.toList.foldlM (fun length e =>
    addSnapshotLen length (4 + e.1.length + 32)) length
  let length ← addSnapshotLen length (4 + s.shielded.toBytes.length)
  let length ← addSnapshotLen length (16 + 16 + 16 + 1)
  let length ← addSnapshotLen length (if s.monetary.lastEpoch.isSome then 8 else 0)
  let length ← addSnapshotLen length 4
  let length ← s.monetary.positions.foldlM addPositionLen length
  let length ← addSnapshotLen length 4
  let length ← s.balances.toList.foldlM (fun length e =>
    addSnapshotLen length (4 + e.1.length + 16)) length
  addSnapshotLen length (16 + 16)

def snapshotBytes (s : LedgerState) : Bytes :=
  snapshotDomain ++ (s.networkId.bytes ++
    (countBytes UInt32 s.finalized.size ++
    (s.finalized.toList.flatMap (fun e => framed UInt32 e.1 ++ (toBeBytes e.2.1 ++ e.2.2.bytes)) ++
    (countBytes UInt32 s.rejected.size ++
    (s.rejected.toList.flatMap (fun e => e.1.bytes ++ [e.2.tag]) ++
    (countBytes UInt32 s.nullifiers.size ++
    (s.nullifiers.toList.flatMap (fun e => framed UInt32 e.1 ++ e.2.bytes) ++
    (framed UInt32 s.shielded.toBytes ++ (s.monetary.encode ++
    (countBytes UInt32 s.balances.size ++
    (s.balances.toList.flatMap (fun e => framed UInt32 e.1 ++ toBeBytes e.2) ++
    (toBeBytes s.allocatedCirculating ++ toBeBytes s.unallocatedCirculating))))))))))))

/-- Encode the whole state. Once the exact length is known to be within the cap, no count or length
overflows its prefix, so encoding itself cannot fail. -/
def toSnapshotBytes (s : LedgerState) : Except ExecutionError Bytes := do
  failIf (∃ count ∈ [s.finalized.size, s.rejected.size, s.nullifiers.size, s.balances.size],
    maxLedgerSnapshotEntries < count) .snapshotTooLarge
  let monetary := s.monetary.exportSnapshot
  failIf (maxVestingPositions < monetary.positions.length) .snapshotTooLarge
  let exactLen ← s.snapshotEncodedLen
  failIf (s.snapshotBytes.length ≠ exactLen) .snapshotMalformed
  return s.snapshotBytes

end LedgerState

/-! ### Decoding -/

def readLastEpoch : Reader ExecutionError (Option UInt64) := do
  let tag ← word .snapshotMalformed UInt8
  if tag = 0 then return none
  else if tag = 1 then some <$> word .snapshotMalformed UInt64
  else throw .snapshotMalformed

def readSubject : Reader ExecutionError VestingSubject := do
  let tag ← word .snapshotMalformed UInt8
  if tag = 0 then do
    let root ← Hash.read .snapshotMalformed
    let eligibleCount ← word .snapshotMalformed UInt64
    return .humanSnapshot { root, eligibleCount }
  else if tag = 1 then do
    let bytes ← readFramed .snapshotMalformed .snapshotTooLarge UInt32 maxSnapshotBeneficiaryBytes
    let name ← lift (okOr (ofUtf8 bytes) .snapshotMalformed)
    return .beneficiary name
  else throw .snapshotMalformed

def readPosition : Reader ExecutionError VestingPosition := do
  let epoch ← word .snapshotMalformed UInt64
  let subject ← readSubject
  let tag ← word .snapshotMalformed UInt8
  let channel ← lift ((Channel.fromTag tag).mapError fun _ => .snapshotMalformed)
  let amount ← word .snapshotMalformed Amount
  let startsAtPolicyMs ← word .snapshotMalformed U128
  let durationMs ← word .snapshotMalformed UInt64
  return { epoch, subject, channel, amount, startsAtPolicyMs, durationMs }

def decodeMonetary : Reader ExecutionError MonetaryLedger.Snapshot := do
  let genesisCirculating ← word .snapshotMalformed Amount
  let totalIssued ← word .snapshotMalformed Amount
  let policyTimeMs ← word .snapshotMalformed U128
  let lastEpoch ← readLastEpoch
  let count ← readCount .snapshotMalformed .snapshotTooLarge UInt32 maxVestingPositions
  let positions ← readMany readPosition count
  return { genesisCirculating, totalIssued, policyTimeMs, lastEpoch, positions }

namespace LedgerState

def readKeyImage : Reader ExecutionError Bytes := do
  let keyImage ← readFramed .snapshotMalformed .snapshotTooLarge UInt32 maxKeyImageBytes
  lift (failIf (keyImage = []) .snapshotMalformed)
  return keyImage

def readBalance : Reader ExecutionError Amount := do
  let amount ← word .snapshotMalformed Amount
  lift (failIf (amount = Amount.zero) .snapshotMalformed)
  return amount

def readSlot : Reader ExecutionError (UInt64 × Hash) := do
  let sequence ← word .snapshotMalformed UInt64
  let digest ← Hash.read .snapshotMalformed
  return (sequence, digest)

def readRejection : Reader ExecutionError CanonicalRejection := do
  let tag ← word .snapshotMalformed UInt8
  lift (CanonicalRejection.fromTag tag)

/-- Read a map behind the count of its entries. -/
def readMap {κ ν : Type} [Ord κ] [Std.TransOrd κ] (key : Reader ExecutionError κ)
    (value : Reader ExecutionError ν) : Reader ExecutionError (ExtTreeMap κ ν compare) := do
  let count ← readCount .snapshotMalformed .snapshotTooLarge UInt32 maxLedgerSnapshotEntries
  readEntries .snapshotMalformed key value count none ∅

variable [Primitives]

def readAccount : Reader ExecutionError Bytes := do
  let account ← readFramed .snapshotMalformed .snapshotTooLarge UInt32 maxAccountBytes
  lift (failIf (¬ isSupportedAccount account) .snapshotMalformed)
  return account

def readSnapshot : Reader ExecutionError LedgerState := do
  expect .snapshotMalformed .snapshotMalformed snapshotDomain
  let networkId ← Hash.read .snapshotMalformed
  let finalized ← readMap readAccount readSlot
  let rejected ← readMap (Hash.read .snapshotMalformed) readRejection
  let nullifiers ← readMap readKeyImage (Hash.read .snapshotMalformed)
  let shieldedBytes ← readFramed .snapshotMalformed .snapshotTooLarge UInt32 maxLedgerSnapshotBytes
  let shielded ← lift (ShieldedLedger.fromBytes shieldedBytes)
  let monetarySnapshot ← decodeMonetary
  let monetary ← lift
    ((MonetaryLedger.importSnapshot monetarySnapshot).mapError .invalidMonetaryEpoch)
  let balances ← readMap readAccount readBalance
  let allocatedCirculating ← word .snapshotMalformed Amount
  let unallocatedCirculating ← word .snapshotMalformed Amount
  return {
    networkId := networkId, finalized, rejected, nullifiers, monetary, shielded, balances,
    allocatedCirculating, unallocatedCirculating }

/-- Decode a state, check it, and check that it re-encodes to the same bytes. -/
def fromSnapshotBytes (bytes : Bytes) : Except ExecutionError LedgerState := do
  failIf (maxLedgerSnapshotBytes < bytes.length) .snapshotTooLarge
  let (state, rest) ← readSnapshot.run bytes
  failIf (rest ≠ []) .snapshotMalformed
  state.verifySupplyConservation
  state.verifyBalanceMapTotal
  let again ← state.toSnapshotBytes
  failIf (again ≠ bytes) .snapshotMalformed
  return state

/-! ### What execution keeps -/

/-- What the decoder demands of a state beyond conservation. -/
structure Restorable (s : LedgerState) : Prop where
  payer : ∀ (k : Bytes) (e : UInt64 × Hash), s.finalized[k]? = some e → isSupportedAccount k
  keyImage : ∀ (k : Bytes) (d : Hash), s.nullifiers[k]? = some d →
    k ≠ [] ∧ k.length ≤ maxKeyImageBytes
  account : ∀ (k : Bytes) (a : Amount), s.balances[k]? = some a → isSupportedAccount k
  monetary : s.monetary.WellFormed
  shielded : s.shielded.WellFormed

variable {c : PaymentClaim} {s s' : LedgerState}

lemma isSupportedAccount_of_verifies (h : c.verifyClaimSignature = .ok ()) :
    isSupportedAccount c.payer := by
  obtain ⟨-, key, hkey⟩ := PaymentClaim.of_verifyClaimSignature h
  have hlen : c.payer.length = 32 := VerifyingKey.length_of_fromSuiteBytes hkey
  have hne : c.payer ≠ [] := fun hnil => by simp [hnil] at hlen
  simp [isSupportedAccount, hkey, hlen, hne, maxAccountBytes, Except.isOk, Except.toBool]

lemma length_le_of_isSupportedAccount {k : Bytes} (h : isSupportedAccount k) :
    k.length ≤ maxAccountBytes := by
  simp only [isSupportedAccount, Bool.and_eq_true, decide_eq_true_eq] at h
  exact h.1.2

lemma Genesis.restorable (h : s.Genesis) : s.Restorable := by
  cases h with
  | supply networkId genesis =>
    exact ⟨by simp [withNetworkAndGenesisSupply], by simp [withNetworkAndGenesisSupply],
      by simp [withNetworkAndGenesisSupply], MonetaryLedger.wellFormed_new _,
      ShieldedLedger.wellFormed_empty⟩
  | balances h =>
    obtain ⟨⟨balances, allocated⟩, hfold, h⟩ := bind_ok.mp h
    obtain ⟨-, hresult⟩ := failIf_bind_ok.mp h
    cases hresult
    exact ⟨by simp [withNetworkAndGenesisSupply], by simp [withNetworkAndGenesisSupply],
      fun k a hk => ((foldlM_allocate_invariant hfold).2 k a hk).2,
      MonetaryLedger.wellFormed_new _, ShieldedLedger.wellFormed_empty⟩
  | shielded h =>
    obtain ⟨shielded, hshielded, h⟩ := bind_ok.mp h
    obtain ⟨⟨⟩, -, hresult⟩ := bind_ok.mp h
    cases hresult
    exact ⟨by simp [withNetworkAndGenesisSupply], by simp [withNetworkAndGenesisSupply],
      by simp [withNetworkAndGenesisSupply], MonetaryLedger.wellFormed_new _,
      ShieldedLedger.wellFormed_fromGenesis hshielded⟩

lemma Restorable.transfer (hs : s.Restorable) (hok : c.verifyClaimSignature = .ok ())
    (hpayee : isSupportedAccount c.payee) (h : s.transfer c = .ok s') : s'.Restorable := by
  obtain ⟨-, rfl⟩ | ⟨-, debited, credited, -, -, rfl⟩ := transfer_ok h
  · exact hs
  refine ⟨hs.payer, hs.keyImage, fun k a hk => ?_, hs.monetary, hs.shielded⟩
  simp only [ExtTreeMap.getElem?_insert, Std.compare_eq_iff_eq] at hk
  split_ifs at hk with heq hzero
  · exact heq ▸ hpayee
  · rw [ExtTreeMap.getElem?_erase] at hk
    split_ifs at hk
    exact hs.account k a hk
  · rw [ExtTreeMap.getElem?_insert] at hk
    split_ifs at hk with hpayer
    · exact LawfulEqCmp.eq_of_compare hpayer ▸ isSupportedAccount_of_verifies hok
    · exact hs.account k a hk

lemma Restorable.claimStep (hs : s.Restorable) (h : ClaimStep s c s') : s'.Restorable := by
  cases h with
  | dropped => exact hs
  | rejected => exact ⟨hs.payer, hs.keyImage, hs.account, hs.monetary, hs.shielded⟩
  | executed hok hexec hpaid =>
    have hpaid := hs.transfer hok hexec.payee hpaid
    refine ⟨fun k e hk => ?_, hpaid.keyImage, hpaid.account, hpaid.monetary, hpaid.shielded⟩
    simp only [finalize, ExtTreeMap.getElem?_insert] at hk
    split_ifs at hk with heq
    · exact LawfulEqCmp.eq_of_compare heq ▸ isSupportedAccount_of_verifies hok
    · exact hpaid.payer k e hk

lemma Restorable.groupStep {verifier : ClaimVerifier} {digest : Hash} (hs : s.Restorable)
    (h : GroupStep verifier s digest s') : s'.Restorable := by
  cases h with
  | skipped => exact hs
  | taken _ hgroup _ _ happly _ =>
    refine ⟨hs.payer, fun k d hk => ?_, hs.account, hs.monetary, hs.shielded.apply happly⟩
    rcases mem_of_getElem?_insertAll hk with hk | hk
    · exact hs.keyImage k d hk
    · obtain ⟨r, hr, heq⟩ := mem_map.mp hk
      cases heq
      simpa [NullifierRecord.isWellFormed] using (hgroup r hr).1

lemma Restorable.applyMonetaryEpoch {epoch : Option ScalableEpochPlan} (hs : s.Restorable)
    (h : s.applyMonetaryEpoch epoch = .ok s') : s'.Restorable := by
  obtain rfl | ⟨plan, bytes, monetary, _, hbytes, happly, _, _, rfl⟩ := applyMonetaryEpoch_ok h
  · exact hs
  · obtain ⟨-, hnames, -⟩ := ScalableEpochPlan.toWireBytes_ok.mp hbytes
    refine ⟨hs.payer, hs.keyImage, hs.account, hs.monetary.applyEpoch (fun g hg => ?_) happly,
      hs.shielded⟩
    exact (hnames g hg).2.trans (by decide)

lemma Restorable.applyBlock {body : SettlementBlockBody} {verifier : Option ClaimVerifier}
    (hs : s.Restorable) (h : s.applyBlockWithVerifier body verifier = .ok s') : s'.Restorable :=
  applyBlock_invariant (fun _ _ _ hs h => hs.claimStep h) (fun _ _ _ _ _ hs h => hs.groupStep h)
    (fun _ _ _ hs h => hs.applyMonetaryEpoch h) hs h

lemma Reachable.restorable (h : s.Reachable) : s.Restorable := by
  obtain ⟨g, blocks, hgenesis, hruns⟩ := h
  exact hruns.invariant (fun _ _ _ _ hs h => hs.applyBlock h) hgenesis.restorable

end LedgerState

/-! ### Round trip -/

lemma reads_readLastEpoch (epoch : Option UInt64) :
    Reads readLastEpoch (MonetaryLedger.lastEpochBytes epoch) epoch := by
  cases epoch with
  | none =>
    change Reads readLastEpoch ([0] ++ []) none
    exact (reads_byte _ 0).bind (Reads.pure none)
  | some n => exact (reads_byte _ 1).bind (Reads.map some (reads_word _ n))

lemma reads_readSubject {p : VestingPosition} {t : U128} (h : validatePosition p t = .ok ()) :
    Reads readSubject p.subject.encode p.subject := by
  obtain ⟨-, h⟩ := failIf_bind_ok.mp h
  cases hsubject : p.subject with
  | humanSnapshot snapshot =>
    refine (reads_byte _ 0).bind ?_
    refine (Hash.reads_read _ snapshot.root).bind ?_
    exact (reads_word _ snapshot.eligibleCount).bind_pure
  | beneficiary name =>
    simp only [hsubject, failIf_ok, not_or, not_lt] at h
    refine (reads_byte _ 1).bind ?_
    refine (reads_framed _ _ h.2 (h.2.trans_lt (by decide))).bind_lift_pure ?_
    exact okOr_ok.mpr (ofUtf8_utf8 name)

lemma reads_readPosition {p : VestingPosition} {t : U128} (h : validatePosition p t = .ok ()) :
    Reads readPosition p.encode p := by
  refine (reads_word _ p.epoch).bind ?_
  refine (reads_readSubject h).bind ?_
  refine (reads_byte _ p.channel.tag).bind ?_
  refine Reads.lift_bind (mapError_ok.mpr (Channel.fromTag_tag _)) ?_
  refine (reads_word _ p.amount).bind ?_
  refine (reads_word _ p.startsAtPolicyMs).bind ?_
  exact (reads_word _ p.durationMs).bind_pure

lemma reads_decodeMonetary {l : MonetaryLedger} (h : l.WellFormed)
    (hlen : l.positions.length ≤ maxVestingPositions) : Reads decodeMonetary l.encode l := by
  refine (reads_word _ l.genesisCirculating).bind ?_
  refine (reads_word _ l.totalIssued).bind ?_
  refine (reads_word _ l.policyTimeMs).bind ?_
  refine (reads_readLastEpoch l.lastEpoch).bind ?_
  refine (reads_readCount _ _ hlen (hlen.trans_lt (by decide))).bind ?_
  exact (reads_readMany fun p hp => reads_readPosition (h.valid p hp)).bind_pure

namespace LedgerState

section

variable {s : LedgerState} {bs : Bytes} {k : Bytes}

/-- A map reads back from the count and the list of its entries. -/
lemma reads_readMap {κ ν : Type} [Ord κ] [Std.TransOrd κ] [Std.LawfulEqOrd κ]
    {key : Reader ExecutionError κ} {value : Reader ExecutionError ν} {keyBytes : κ → Bytes}
    {valueBytes : ν → Bytes} {m : ExtTreeMap κ ν compare}
    (hsize : m.size ≤ maxLedgerSnapshotEntries)
    (hentry : ∀ k v, m[k]? = some v →
      Reads key (keyBytes k) k ∧ Reads value (valueBytes v) v) :
    Reads (readMap key value) (countBytes UInt32 m.size ++
      m.toList.flatMap fun e => keyBytes e.1 ++ valueBytes e.2) m := by
  refine (reads_readCount _ _ hsize (hsize.trans_lt (by decide))).bind ?_
  rw [← ExtTreeMap.length_toList]
  have hread := reads_readEntries ExecutionError.snapshotMalformed none ∅
    ExtTreeMap.ordered_keys_toList (by simp)
    fun e he => hentry e.1 e.2 (mem_toList.mp he)
  rwa [insertAll_toList] at hread

lemma reads_readBalance {a : Amount} (h : a ≠ Amount.zero) : Reads readBalance (toBeBytes a) a := by
  have hread := (reads_word ExecutionError.snapshotMalformed a).bind
    (f := fun amount => lift (failIf (amount = Amount.zero) .snapshotMalformed) >>=
      fun _ => Pure.pure amount) (Reads.failIf_bind h (Reads.pure a))
  rwa [append_nil] at hread

lemma reads_readKeyImage (h : k ≠ [] ∧ k.length ≤ maxKeyImageBytes) :
    Reads readKeyImage (framed UInt32 k) k := by
  have hread := (reads_framed (α := UInt32) ExecutionError.snapshotMalformed .snapshotTooLarge h.2
    (h.2.trans_lt (by decide))).bind
    (f := fun keyImage => lift (failIf (keyImage = []) .snapshotMalformed) >>=
      fun _ => Pure.pure keyImage) (Reads.failIf_bind h.1 (Reads.pure k))
  rwa [append_nil] at hread

lemma reads_readSlot (e : UInt64 × Hash) : Reads readSlot (toBeBytes e.1 ++ e.2.bytes) e :=
  (reads_word _ e.1).bind (Hash.reads_read _ e.2).bind_pure

lemma reads_readRejection (r : CanonicalRejection) : Reads readRejection [r.tag] r :=
  (reads_byte _ r.tag).bind_lift (CanonicalRejection.fromTag_tag r)

variable [Primitives]

lemma reads_readAccount (h : isSupportedAccount k) : Reads readAccount (framed UInt32 k) k := by
  have hlen := length_le_of_isSupportedAccount h
  have hread := (reads_framed (α := UInt32) ExecutionError.snapshotMalformed .snapshotTooLarge hlen
    (hlen.trans_lt (by decide))).bind
    (f := fun account => lift (failIf (¬ isSupportedAccount account) .snapshotMalformed) >>=
      fun _ => Pure.pure account) (Reads.failIf_bind (not_not.mpr h) (Reads.pure k))
  rwa [append_nil] at hread

omit [Primitives] in
/-- What a state that was encoded satisfies. -/
lemma toSnapshotBytes_ok (h : s.toSnapshotBytes = .ok bs) :
    s.snapshotBytes = bs ∧ bs.length ≤ maxLedgerSnapshotBytes ∧
      s.monetary.positions.length ≤ maxVestingPositions ∧
      s.finalized.size ≤ maxLedgerSnapshotEntries ∧ s.rejected.size ≤ maxLedgerSnapshotEntries ∧
      s.nullifiers.size ≤ maxLedgerSnapshotEntries ∧ s.balances.size ≤ maxLedgerSnapshotEntries := by
  obtain ⟨hcounts, h⟩ := failIf_bind_ok.mp h
  obtain ⟨hpositions, h⟩ := failIf_bind_ok.mp h
  obtain ⟨exactLen, hexact, h⟩ := bind_ok.mp h
  obtain ⟨hlen, hresult⟩ := failIf_bind_ok.mp h
  cases hresult
  have hcap : exactLen ≤ maxLedgerSnapshotBytes := by
    unfold snapshotEncodedLen at hexact
    simp only [bind_ok] at hexact
    obtain ⟨_, -, _, -, _, -, _, -, _, -, _, -, _, -, _, -, _, -, _, -, _, -, _, -, _, -, _, -,
      hlast⟩ := hexact
    obtain ⟨hfits, hlast⟩ := failIf_bind_ok.mp hlast
    cases hlast
    exact not_lt.mp hfits
  have hle : ∀ count ∈ [s.finalized.size, s.rejected.size, s.nullifiers.size, s.balances.size],
      count ≤ maxLedgerSnapshotEntries := fun count hcount =>
    not_lt.mp fun hlt => hcounts ⟨count, hcount, hlt⟩
  exact ⟨rfl, by rw [not_not.mp hlen]; exact hcap, not_lt.mp hpositions, hle _ (by simp),
    hle _ (by simp), hle _ (by simp), hle _ (by simp)⟩

/-- A restorable state that was encoded is read up to the import of its monetary ledger, which
decides whether it reads back. -/
lemma readsTo_readSnapshot (hs : s.Restorable)
    (hnonzero : ∀ (k : Bytes) (a : Amount), s.balances[k]? = some a → a ≠ Amount.zero)
    (h : s.toSnapshotBytes = .ok bs) : ReadsTo readSnapshot s.snapshotBytes (do
      let monetary ←
        (MonetaryLedger.importSnapshot s.monetary).mapError ExecutionError.invalidMonetaryEpoch
      return { s with monetary := monetary }) := by
  obtain ⟨rfl, hlen, hpositions, hfinalized, hrejected, hnullifiers, hbalances⟩ :=
    toSnapshotBytes_ok h
  have hshielded : s.shielded.toBytes.length ≤ maxLedgerSnapshotBytes := by
    simp only [snapshotBytes, length_append, length_framed] at hlen
    omega
  unfold snapshotBytes
  refine (reads_expect _ _ _).bindTo ?_
  refine (Hash.reads_read _ s.networkId).bindTo ?_
  rw [← append_assoc (countBytes UInt32 s.finalized.size)]
  refine (reads_readMap hfinalized fun k e hk =>
    ⟨reads_readAccount (hs.payer k e hk), reads_readSlot e⟩).bindTo ?_
  rw [← append_assoc (countBytes UInt32 s.rejected.size)]
  refine (reads_readMap hrejected fun k e _ =>
    ⟨Hash.reads_read _ k, reads_readRejection e⟩).bindTo ?_
  rw [← append_assoc (countBytes UInt32 s.nullifiers.size)]
  refine (reads_readMap hnullifiers fun k e hk =>
    ⟨reads_readKeyImage (hs.keyImage k e hk), Hash.reads_read _ e⟩).bindTo ?_
  refine (reads_framed _ _ hshielded (hshielded.trans_lt (by decide))).bindTo ?_
  refine ReadsTo.lift_bind_of_eq (ShieldedLedger.fromBytes_toBytes hs.shielded) ?_
  refine (reads_decodeMonetary hs.monetary hpositions).bindTo ?_
  refine ReadsTo.lift_bind fun monetary _ => ?_
  rw [← append_assoc (countBytes UInt32 s.balances.size)]
  refine (reads_readMap hbalances fun k a hk =>
    ⟨reads_readAccount (hs.account k a hk), reads_readBalance (hnonzero k a hk)⟩).bindTo ?_
  refine (reads_word _ s.allocatedCirculating).bindTo ?_
  exact (reads_word _ s.unallocatedCirculating).bind_pure.readsTo

/-- It reads back if the supply ever created fits. -/
lemma reads_readSnapshot (hs : s.Restorable)
    (hnonzero : ∀ (k : Bytes) (a : Amount), s.balances[k]? = some a → a ≠ Amount.zero)
    (hfits : s.monetary.genesisCirculating.val + s.monetary.totalIssued.val < 2 ^ 128)
    (h : s.toSnapshotBytes = .ok bs) : Reads readSnapshot s.snapshotBytes s := by
  have himport : MonetaryLedger.importSnapshot s.monetary = .ok s.monetary :=
    MonetaryLedger.importSnapshot_ok.mpr
      ⟨rfl, hs.monetary, (toSnapshotBytes_ok h).2.2.1, hfits⟩
  have hread := readsTo_readSnapshot hs hnonzero h
  rw [himport] at hread
  exact hread

/-- Whatever was decoded re-encodes to the same bytes. -/
lemma toSnapshotBytes_of_fromSnapshotBytes (h : fromSnapshotBytes bs = .ok s) :
    s.toSnapshotBytes = .ok bs ∧ readSnapshot.run bs = .ok (s, []) := by
  obtain ⟨-, h⟩ := failIf_bind_ok.mp h
  obtain ⟨⟨state, rest⟩, hrun, h⟩ := bind_ok.mp h
  simp only [↓failIf_bind_ok, bind_ok] at h
  obtain ⟨hrest, ⟨⟩, -, ⟨⟩, -, again, hagain, hsame, hresult⟩ := h
  cases hresult
  rw [not_not] at hsame hrest
  exact ⟨hsame ▸ hagain, hrest ▸ hrun⟩

/-- What the snapshot of a state decodes to is that state, and the supply it ever created fits. -/
lemma eq_of_fromSnapshotBytes {decoded : LedgerState} (hs : s.Restorable)
    (hnonzero : ∀ (k : Bytes) (a : Amount), s.balances[k]? = some a → a ≠ Amount.zero)
    (hbs : s.toSnapshotBytes = .ok bs) (h : fromSnapshotBytes bs = .ok decoded) :
    decoded = s ∧ s.monetary.genesisCirculating.val + s.monetary.totalIssued.val < 2 ^ 128 := by
  have hrun := (toSnapshotBytes_of_fromSnapshotBytes h).2
  have hread := readsTo_readSnapshot hs hnonzero hbs []
  rw [append_nil, (toSnapshotBytes_ok hbs).1, hrun] at hread
  obtain ⟨state, hstate, heq⟩ := map_ok.mp hread.symm
  obtain ⟨monetary, himport, hresult⟩ := bind_ok.mp hstate
  obtain ⟨rfl, -, -, hfits⟩ := MonetaryLedger.importSnapshot_ok.mp (mapError_ok.mp himport)
  cases hresult
  cases heq
  exact ⟨rfl, hfits⟩

/-- **Snapshot round trip.** A reachable state that can be encoded is decoded from its snapshot
exactly when its genesis supply and everything issued since fit an amount together; and whatever is
decoded encodes to the bytes it came from. -/
theorem snapshot_restores_iff :
    (∀ (s : LedgerState) (bs : Bytes), s.Reachable → s.toSnapshotBytes = .ok bs →
      (fromSnapshotBytes bs = .ok s ↔
        s.monetary.genesisCirculating.val + s.monetary.totalIssued.val < 2 ^ 128)) ∧
    ∀ (bs : Bytes) (s : LedgerState), fromSnapshotBytes bs = .ok s → s.toSnapshotBytes = .ok bs := by
  refine ⟨fun s bs hreach hbs => ⟨fun h => ?_, fun hfits => ?_⟩,
    fun bs s h => (toSnapshotBytes_of_fromSnapshotBytes h).1⟩
  · exact (eq_of_fromSnapshotBytes hreach.restorable hreach.conserved.nonzero hbs h).2
  · have hconserved := hreach.conserved
    have hread := (reads_readSnapshot hreach.restorable hconserved.nonzero hfits hbs).run
    obtain ⟨rfl, hlen, -⟩ := toSnapshotBytes_ok hbs
    refine failIf_bind_ok.mpr ⟨not_lt.mpr hlen, bind_ok.mpr ⟨(s, []), hread, ?_⟩⟩
    refine failIf_bind_ok.mpr ⟨by simp, ?_⟩
    refine bind_ok.mpr ⟨(), verifySupplyConservation_ok.mpr
      ⟨hconserved.supply, hconserved.fits⟩, ?_⟩
    refine bind_ok.mpr ⟨(), verifyBalanceMapTotal_ok.mpr hconserved.allocated, ?_⟩
    refine bind_ok.mpr ⟨_, hbs, failIf_bind_ok.mpr ⟨by simp, rfl⟩⟩

end

theorem snapshot_restores_samplePaid :
    letI := Primitives.sample
    ∃ bs, samplePaid.Reachable ∧ samplePaid.toSnapshotBytes = .ok bs ∧
      fromSnapshotBytes bs = .ok samplePaid := by
  let := Primitives.sample
  obtain ⟨bs, hbs, -⟩ := exists_of_any (x := samplePaid.toSnapshotBytes) (fun _ => true)
    (by decide +kernel)
  have hrestores := snapshot_restores_iff.1 samplePaid bs reachable_samplePaid hbs
  exact ⟨bs, reachable_samplePaid, hbs, hrestores.mpr (by decide +kernel)⟩

/-- The largest supply that the yearly shares divide without remainder. -/
def largeSupply : Amount :=
  Fin.ofNat _ (2 ^ 128 / (million * yearMs.toNat) * (million * yearMs.toNat))

/-- A year's epoch at that supply, for one human. -/
def largeEpoch : Except EconomyError ScalableEpochPlan :=
  planScalableEpoch {
    epoch := 0
    durationMs := yearMs
    openingCirculating := largeSupply
    humanSnapshot := ⟨Vector.replicate 32 1, 1⟩
    service := []
    treasury := [] } .d0074

theorem snapshot_of_large_supply_rejected :
    letI := Primitives.sample
    ∃ plan s bs, largeEpoch = .ok plan ∧
      Runs (withGenesisSupply largeSupply) [({ monetaryEpochs := [plan] }, none)] s ∧
      s.toSnapshotBytes = .ok bs ∧
      fromSnapshotBytes bs = .error (.invalidMonetaryEpoch .overflow) := by
  let := Primitives.sample
  obtain ⟨plan, hplan, h⟩ := exists_of_any (x := largeEpoch) (fun plan =>
    (@applyBlockWithVerifier .sample (withGenesisSupply largeSupply)
      { monetaryEpochs := [plan] } none).toOption.any fun s =>
    s.toSnapshotBytes.toOption.any fun bs =>
    decide (@fromSnapshotBytes .sample bs = .error (.invalidMonetaryEpoch .overflow)))
    (by decide +kernel)
  obtain ⟨s, hs, h⟩ := exists_of_any _ h
  obtain ⟨bs, hbs, h⟩ := exists_of_any _ h
  exact ⟨plan, s, bs, hplan, .cons hs (.nil s), hbs, of_decide_eq_true h⟩

end LedgerState

end Mininet
