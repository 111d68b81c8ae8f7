import Mininet.Identity.Keys

/-!
# Key events

The entries of a key event log, their one canonical byte layout in the three modes it is used in,
and the checks that concern a single event: a well-formed establishment, and a threshold of valid
signatures by distinct keys.
-/

namespace Mininet.Identity

open Codec Fallible List

/-! ### Limits

Hard caps on the fields of an event and on the events of a log. -/

def maxScidBytes : ℕ := 128

def maxDidBytes : ℕ := 256

def maxPriorBytes : ℕ := 128

def maxMultihashBytes : ℕ := 128

def maxKeyBytes : ℕ := 256

def maxSignatureBytes : ℕ := 4096

def maxKeys : ℕ := 32

def maxNext : ℕ := 32

def maxWitnesses : ℕ := 64

def maxAnchors : ℕ := 128

def maxSeals : ℕ := 128

def maxKelEvents : ℕ := 1024

def maxEventBytes : ℕ := 64 * 1024

/-! ### Events -/

/-- The keys an inception or rotation puts in control, and those it commits to. -/
structure Establishment where
  keys : List VerifyingKey
  threshold : UInt32
  /-- The commitments to the next keys. -/
  next : List Bytes
  nextThreshold : UInt32
  witnesses : List Bytes
  witnessThreshold : UInt32
  deriving DecidableEq

/-- What a root says about a device in a seal event. -/
inductive Seal where
  | delegate (device : String) (capabilities : Capabilities)
  | revoke (device : String)
  deriving DecidableEq

def Seal.device : Seal → String
  | .delegate device _ => device
  | .revoke device     => device

/-- Every bit of the capabilities in a seal has a meaning. -/
def Seal.Known : Seal → Prop
  | .delegate _ capabilities => capabilities.bits &&& ~~~Capabilities.all.bits = 0
  | .revoke _                => True

inductive EventKind where
  | inception (establishment : Establishment)
  | delegatedInception (establishment : Establishment) (delegator : String)
  | rotation (establishment : Establishment)
  | interaction (anchors : List Hash)
  | seal (seals : List Seal)
  deriving DecidableEq

structure Event where
  suite : SignatureSuite
  scid : String
  sn : UInt64
  /-- The digest of the event before; empty for an inception. -/
  prior : Bytes
  kind : EventKind
  signatures : List IndexedSig
  deriving DecidableEq

/-! ### The byte layout -/

/-- Which fields to serialise. -/
inductive Mode where
  /-- What the identifier is derived from: the identifier blank, no signatures. -/
  | scidInput
  /-- What is signed: no signatures. -/
  | signing
  | full
  deriving DecidableEq

def encodeKey (key : VerifyingKey) : Bytes := [key.suite.tag] ++ framed UInt32 key.bytes

def Establishment.encode (est : Establishment) : Bytes :=
  countBytes UInt32 est.keys.length ++ est.keys.flatMap encodeKey ++
    toBeBytes est.threshold ++
    countBytes UInt32 est.next.length ++ est.next.flatMap (framed UInt32) ++
    toBeBytes est.nextThreshold ++
    countBytes UInt32 est.witnesses.length ++ est.witnesses.flatMap (framed UInt32) ++
    -- written only when there are witnesses, so that older identifiers stay what they were
    if est.witnesses.isEmpty then [] else toBeBytes est.witnessThreshold

def Seal.encode : Seal → Bytes
  | .delegate device capabilities =>
    [0x01] ++ framed UInt32 (utf8 device) ++ toBeBytes capabilities.bits
  | .revoke device => [0x02] ++ framed UInt32 (utf8 device)

namespace EventKind

def tag : EventKind → UInt8
  | .inception _            => 0x01
  | .delegatedInception _ _ => 0x05
  | .rotation _             => 0x02
  | .interaction _          => 0x03
  | .seal _                 => 0x04

def encode : EventKind → Bytes
  | .inception est                    => est.encode
  | .delegatedInception est delegator => est.encode ++ framed UInt32 (utf8 delegator)
  | .rotation est                     => est.encode
  | .interaction anchors              =>
    countBytes UInt32 anchors.length ++ anchors.flatMap fun a => framed UInt32 a.bytes
  | .seal seals => countBytes UInt32 seals.length ++ seals.flatMap Seal.encode

/-- The keys a kind of event puts in control. -/
def establishment? : EventKind → Option Establishment
  | .inception est            => some est
  | .delegatedInception est _ => some est
  | .rotation est             => some est
  | _                         => none

end EventKind

def encodeSig (s : IndexedSig) : Bytes :=
  toBeBytes s.index ++ [s.signature.suite.tag] ++ framed UInt32 s.signature.bytes

def encodeSigs (sigs : List IndexedSig) : Bytes :=
  countBytes UInt32 sigs.length ++ sigs.flatMap encodeSig

namespace Event

def encode (e : Event) (mode : Mode) : Bytes :=
  [e.kind.tag] ++ [e.suite.tag] ++
    framed UInt32 (if mode = .scidInput then [] else utf8 e.scid) ++
    toBeBytes e.sn ++ framed UInt32 e.prior ++ e.kind.encode ++
    if mode = .full then encodeSigs e.signatures else []

/-- The bytes that signatures are made over. -/
def signingBytes (e : Event) : Bytes := e.encode .signing

/-- The bytes that are stored and exchanged. -/
def fullBytes (e : Event) : Bytes := e.encode .full

/-- The signatures come last. -/
lemma fullBytes_eq (e : Event) : e.fullBytes = e.signingBytes ++ encodeSigs e.signatures := by
  simp [fullBytes, signingBytes, encode]

/-- The digest that the next event refers to, over everything, signatures included. -/
def digest [Primitives] (e : Event) : Bytes := multihash e.fullBytes

end Event

/-! ### Establishments -/

section

variable [Primitives]

def keyFingerprint (key : VerifyingKey) : Bytes := key.suite.tag :: key.bytes

variable {msg : Bytes} {keys : List VerifyingKey} {sigs : List IndexedSig}

section

omit [Primitives]

/-- A fingerprint determines its key. -/
lemma keyFingerprint_injective : Function.Injective keyFingerprint := by
  rintro ⟨s, bs⟩ ⟨t, cs⟩ h
  obtain ⟨htag, hbytes⟩ := List.cons.inj h
  obtain rfl : s = t := by
    have hok := SignatureSuite.fromTag_tag s
    rw [htag, SignatureSuite.fromTag_tag] at hok
    exact (Except.ok.inj hok).symm
  exact congrArg _ hbytes

/-- The commitment to a key that is not revealed yet. -/
def keyCommitment (key : VerifyingKey) : Bytes := multihash (keyFingerprint key)

/-- A witness set and its threshold are one declaration. -/
def Establishment.validateWitnesses (est : Establishment) : Except IdentityError Unit :=
  let threshold := (min est.witnessThreshold 0xffff).toUInt16
  if est.witnesses.isEmpty then
    failIf (est.witnessThreshold ≠ 0) (.invalidWitnessThreshold threshold 0)
  else do
    failIf (est.witnessThreshold = 0 ∨ est.witnesses.length < est.witnessThreshold.toNat)
      (.invalidWitnessThreshold threshold est.witnesses.length)
    checkDistinct (fun _ => .ok ()) .duplicateWitness [] est.witnesses

def validateEstablishment (est : Establishment) : Except IdentityError Unit := do
  failIf (est.keys = []) .emptyKeySet
  est.validateWitnesses
  failIf (est.threshold = 0 ∨ est.keys.length < est.threshold.toNat)
    (.invalidThreshold est.threshold est.keys.length)
  checkDistinct (fun _ => .ok ()) .duplicateKey [] (est.keys.map keyFingerprint)
  failIf (est.next = [] ∨ est.nextThreshold = 0 ∨ est.next.length < est.nextThreshold.toNat)
    (.invalidNextThreshold est.nextThreshold est.next.length)
  checkDistinct (fun commitment => ((Multihash.fromBytes commitment).map fun _ => ()).mapError
    .crypto) .badEvent [] est.next

/-- What a well-formed establishment satisfies. -/
structure Establishment.Valid (est : Establishment) : Prop where
  threshold_pos : 0 < est.threshold.toNat
  threshold_le : est.threshold.toNat ≤ est.keys.length
  keys_nodup : (est.keys.map keyFingerprint).Nodup
  nextThreshold_pos : 0 < est.nextThreshold.toNat
  nextThreshold_le : est.nextThreshold.toNat ≤ est.next.length
  next_nodup : est.next.Nodup
  multihash : ∀ commitment ∈ est.next, ∃ m, Multihash.fromBytes commitment = .ok m
  witnesses : est.witnesses = [] ∧ est.witnessThreshold = 0 ∨
    0 < est.witnessThreshold.toNat ∧ est.witnessThreshold.toNat ≤ est.witnesses.length ∧
      est.witnesses.Nodup

/-- A number of items that a threshold can be reached with. -/
lemma reachable_iff {threshold : UInt32} {n : ℕ} :
    ¬ (threshold = 0 ∨ n < threshold.toNat) ↔ 0 < threshold.toNat ∧ threshold.toNat ≤ n := by
  have hzero : threshold = 0 ↔ threshold.toNat = 0 := UInt32.toNat_inj.symm
  rw [hzero]
  omega

lemma validateWitnesses_ok {est : Establishment} :
    est.validateWitnesses = .ok () ↔ est.witnesses = [] ∧ est.witnessThreshold = 0 ∨
      0 < est.witnessThreshold.toNat ∧ est.witnessThreshold.toNat ≤ est.witnesses.length ∧
        est.witnesses.Nodup := by
  unfold Establishment.validateWitnesses
  dsimp only
  split_ifs with hempty
  · have hnil := isEmpty_iff.mp hempty
    rw [failIf_ok, not_not, hnil, length_nil]
    constructor
    · exact fun h => .inl ⟨rfl, h⟩
    · rintro (⟨-, h⟩ | ⟨hpos, hle, -⟩)
      · exact h
      · omega
  · have hne : est.witnesses ≠ [] := mt isEmpty_iff.mpr hempty
    rw [failIf_bind_ok, reachable_iff, checkDistinct_ok]
    constructor
    · rintro ⟨⟨hpos, hle⟩, -, hnodup⟩
      exact .inr ⟨hpos, hle, hnodup⟩
    · rintro (⟨h, -⟩ | ⟨hpos, hle, hnodup⟩)
      · exact absurd h hne
      · exact ⟨⟨hpos, hle⟩, fun _ _ => rfl, hnodup⟩

lemma validateEstablishment_ok {est : Establishment} :
    validateEstablishment est = .ok () ↔ est.Valid := by
  have hne : ∀ {α : Type} {xs : List α} {t : UInt32}, 0 < t.toNat → t.toNat ≤ xs.length → xs ≠ [] :=
    fun hpos hle => ne_nil_of_length_pos (hpos.trans_le hle)
  rw [validateEstablishment]
  simp only [↓failIf_bind_ok, bind_ok, checkDistinct_ok, ↓reachable_iff, not_or,
    mapError_ok, map_ok, and_true]
  constructor
  · rintro ⟨-, ⟨⟩, hwitnesses, ⟨hpos, hle⟩, ⟨⟩, hkeys, ⟨-, hnpos, hnle⟩, hparsed, hnodup⟩
    exact ⟨hpos, hle, (checkDistinct_ok.mp hkeys).2, hnpos, hnle, hnodup, hparsed,
      validateWitnesses_ok.mp hwitnesses⟩
  · intro h
    exact ⟨hne h.threshold_pos h.threshold_le, (), validateWitnesses_ok.mpr h.witnesses,
      ⟨h.threshold_pos, h.threshold_le⟩, (), checkDistinct_ok.mpr ⟨fun _ _ => rfl, h.keys_nodup⟩,
      ⟨hne h.nextThreshold_pos h.nextThreshold_le, h.nextThreshold_pos, h.nextThreshold_le⟩,
      h.multihash, h.next_nodup⟩

end

/-! ### Thresholds of signatures -/

/-- The signers counted so far. -/
structure Signers where
  seenIndices : List UInt32 := []
  seenKeys : List Bytes := []
  count : UInt32 := 0

/-- Count a signature, if it is a valid one by a key not counted yet. The count wraps. -/
def countSigner (msg : Bytes) (keys : List VerifyingKey) (t : Signers) (s : IndexedSig) :
    Signers :=
  match keys[s.index.toNat]? with
  | none     => t
  | some key =>
    if s.index ∈ t.seenIndices ∨ keyFingerprint key ∈ t.seenKeys then t
    else if (key.verify msg s.signature).isOk then
      { seenIndices := t.seenIndices ++ [s.index]
        seenKeys := t.seenKeys ++ [keyFingerprint key]
        count := t.count + 1 }
    else t

/-- How many distinct keys made a valid signature over a message. -/
def countValidSigners (msg : Bytes) (keys : List VerifyingKey) (sigs : List IndexedSig) : UInt32 :=
  (sigs.foldl (countSigner msg keys) {}).count

def verifyThreshold (event : Event) (keys : List VerifyingKey) (threshold : UInt32) :
    Except IdentityError Unit := do
  failIf (threshold = 0) (.thresholdNotMet event.sn threshold 0)
  let count := countValidSigners event.signingBytes keys event.signatures
  failIf (count < threshold) (.thresholdNotMet event.sn threshold count)

lemma verifyThreshold_ok {event : Event} {threshold : UInt32} :
    verifyThreshold event keys threshold = .ok () ↔
      threshold ≠ 0 ∧
        threshold ≤ countValidSigners event.signingBytes keys event.signatures := by
  rw [verifyThreshold, failIf_bind_ok, failIf_ok, UInt32.not_lt]

/-- Whoever is counted is one of the keys and made a valid signature. -/
structure Signers.Sound (msg : Bytes) (keys : List VerifyingKey) (sigs : List IndexedSig)
    (t : Signers) (signers : List VerifyingKey) : Prop where
  seenKeys : t.seenKeys = signers.map keyFingerprint
  nodup : signers.Nodup
  count : t.count = UInt32.ofNat signers.length
  signed : ∀ key ∈ signers, key ∈ keys ∧ ∃ s ∈ sigs, key.verify msg s.signature = .ok ()

lemma exists_sound (msg : Bytes) (keys : List VerifyingKey) (sigs : List IndexedSig) :
    ∃ signers, (sigs.foldl (countSigner msg keys) {}).Sound msg keys sigs signers := by
  induction sigs using List.reverseRecOn with
  | nil => exact ⟨[], rfl, .nil, rfl, by simp⟩
  | append_singleton sigs s ih =>
    obtain ⟨signers, hkeys, hnodup, hcount, hsigned⟩ := ih
    have hlater : ∀ key ∈ signers, key ∈ keys ∧
        ∃ s' ∈ sigs ++ [s], key.verify msg s'.signature = .ok () := by
      intro key hkey
      obtain ⟨hmem, s', hs', hverify⟩ := hsigned key hkey
      exact ⟨hmem, s', mem_append_left _ hs', hverify⟩
    rw [foldl_append, foldl_cons, foldl_nil, countSigner]
    split
    next => exact ⟨signers, hkeys, hnodup, hcount, hlater⟩
    next key hkey =>
      split_ifs with hseen hvalid
      · exact ⟨signers, hkeys, hnodup, hcount, hlater⟩
      · refine ⟨signers ++ [key], ?_, ?_, ?_, ?_⟩
        · rw [hkeys, map_append, map_singleton]
        · refine nodup_append.mpr ⟨hnodup, nodup_singleton _, ?_⟩
          rintro a ha b hb rfl
          obtain rfl := mem_singleton.mp hb
          exact (not_or.mp hseen).2 (hkeys ▸ mem_map_of_mem ha)
        · rw [hcount, length_append, length_singleton, UInt32.ofNat_add]
          rfl
        · intro k hk
          rcases mem_append.mp hk with hk | hk
          · exact hlater k hk
          · obtain rfl := mem_singleton.mp hk
            exact ⟨mem_of_getElem? hkey, s, by simp, isOk_iff.mp hvalid⟩
      · exact ⟨signers, hkeys, hnodup, hcount, hlater⟩

/-- A count is one of distinct keys that signed; it may be less than there are of them. -/
lemma exists_signers (msg : Bytes) (keys : List VerifyingKey) (sigs : List IndexedSig) :
    ∃ signers : List VerifyingKey, signers.Nodup ∧
      (countValidSigners msg keys sigs).toNat ≤ signers.length ∧
      ∀ key ∈ signers, key ∈ keys ∧ ∃ s ∈ sigs, key.verify msg s.signature = .ok () := by
  obtain ⟨signers, hsound⟩ := exists_sound msg keys sigs
  refine ⟨signers, hsound.nodup, ?_, hsound.signed⟩
  rw [countValidSigners, hsound.count, UInt32.toNat_ofNat']
  exact Nat.mod_le _ _

/-- Every key signed, in the order of the keys, with its index as far as it fits. -/
structure AllSigned (msg : Bytes) (keys : List VerifyingKey) (sigs : List IndexedSig) : Prop where
  length_eq : sigs.length = keys.length
  signed : ∀ i s key, sigs[i]? = some s → keys[i]? = some key →
    s.index = UInt32.ofNat i ∧ key.verify msg s.signature = .ok ()

/-- While indices fit, every signature is counted. -/
lemma AllSigned.foldl_take (h : AllSigned msg keys sigs) (hnodup : (keys.map keyFingerprint).Nodup)
    {k : ℕ} (hk : k ≤ keys.length) (hfit : k ≤ 2 ^ 32) :
    (sigs.take k).foldl (countSigner msg keys) {} =
      ⟨(List.range k).map UInt32.ofNat, (keys.take k).map keyFingerprint, UInt32.ofNat k⟩ := by
  induction k with
  | zero => rfl
  | succ k ih =>
    have hkeys : k < keys.length := by omega
    have hsigs : k < sigs.length := by rw [h.length_eq]; omega
    have hsize : UInt32.size = 2 ^ 32 := rfl
    have hindex : (UInt32.ofNat k).toNat = k := UInt32.toNat_ofNat_of_lt' (by omega)
    obtain ⟨hs, hverify⟩ := h.signed k sigs[k] keys[k] (List.getElem?_eq_getElem hsigs)
      (List.getElem?_eq_getElem hkeys)
    have hnew : UInt32.ofNat k ∉ (List.range k).map UInt32.ofNat := by
      intro hmem
      obtain ⟨j, hj, heq⟩ := mem_map.mp hmem
      have hlt := mem_range.mp hj
      have hnat := congrArg UInt32.toNat heq
      rw [hindex, UInt32.toNat_ofNat_of_lt' (by omega)] at hnat
      omega
    have hfresh : keyFingerprint keys[k] ∉ (keys.take k).map keyFingerprint := by
      rw [map_take]
      intro hmem
      obtain ⟨j, hj, heq⟩ := mem_take_iff_getElem.mp hmem
      rw [length_map] at hj
      have hj' : j < (keys.map keyFingerprint).length := by simp; omega
      have hk' : k < (keys.map keyFingerprint).length := by simpa using hkeys
      have hsame : j = k := (@List.Nodup.getElem_inj_iff _ _ hnodup j hj' k hk').mp
        (by simpa using heq)
      omega
    rw [take_add_one, foldl_append, ih (by omega) (by omega),
      List.getElem?_eq_getElem hsigs, Option.toList_some, foldl_cons, foldl_nil,
      countSigner, hs, hindex, List.getElem?_eq_getElem hkeys]
    dsimp only
    rw [if_neg (not_or.mpr ⟨hnew, hfresh⟩), if_pos (isOk_iff.mpr hverify), range_succ, map_append,
      take_add_one, List.getElem?_eq_getElem hkeys, map_append, UInt32.ofNat_add]
    rfl

/-- A set of keys that all signed is counted in full, unless it has too many keys for the count;
then it counts for nothing. -/
lemma AllSigned.countValidSigners_eq (h : AllSigned msg keys sigs)
    (hnodup : (keys.map keyFingerprint).Nodup) :
    (countValidSigners msg keys sigs).toNat = if keys.length < 2 ^ 32 then keys.length else 0 := by
  split_ifs with hlt
  · have hall := h.foldl_take hnodup le_rfl hlt.le
    rw [← h.length_eq, take_length] at hall
    rw [countValidSigners, hall, UInt32.toNat_ofNat_of_lt' (by rw [h.length_eq]; exact hlt),
      h.length_eq]
  · -- the count wraps to zero, and every later index was seen
    obtain ⟨n, hn⟩ : ∃ n, n = 2 ^ 32 := ⟨_, rfl⟩
    have hfirst := h.foldl_take hnodup (k := n) (by omega) hn.le
    have hrest : ∀ rest : List IndexedSig,
        rest.foldl (countSigner msg keys) ⟨(List.range n).map UInt32.ofNat,
          (keys.take n).map keyFingerprint, UInt32.ofNat n⟩ =
        ⟨(List.range n).map UInt32.ofNat, (keys.take n).map keyFingerprint, UInt32.ofNat n⟩ := by
      intro rest
      induction rest with
      | nil => rfl
      | cons s rest ih =>
        have hseen : s.index ∈ (List.range n).map UInt32.ofNat :=
          mem_map.mpr ⟨s.index.toNat, mem_range.mpr (hn ▸ s.index.toNat_lt), UInt32.ofNat_toNat⟩
        rw [foldl_cons, countSigner]
        split
        next => exact ih
        next key hkey =>
          rw [if_pos (.inl hseen)]
          exact ih
    rw [countValidSigners, ← take_append_drop n sigs, foldl_append, hfirst, hrest, hn]
    rfl

end

/-- The self-certifying identifier of an inception. -/
def deriveScid [KeyPrimitives] (icp : Event) : String :=
  "z" ++ base58 (multihash (icp.encode .scidInput))

end Mininet.Identity
