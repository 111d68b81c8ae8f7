import Mininet.Identity.Kel

/-!
# Key event logs on the wire

The decoder of key event logs, with its caps on counts and sizes. Each part of it accepts exactly the
encodings of the values within its caps, so that what is accepted is encoded again to the same bytes,
and a log can be exchanged exactly when it is within the caps.
-/

namespace Mininet.Identity

open Codec Fallible

/-! ### Fields -/

/-- Read a byte string behind its length. -/
def bytesLimited (field : String) (max : ℕ) : Reader IdentityError Bytes := do
  let len ← word .truncated UInt32
  lift (failIf (max < len.toNat) (.fieldTooLarge field max len.toNat))
  take .truncated len.toNat

variable {max : ℕ} {ε : Type}

lemma decodes_bytesLimited (field : String) (hmax : max < 2 ^ 32) :
    Decodes (bytesLimited field max) (framed UInt32) fun bs => bs.length ≤ max := by
  intro bs a rest
  rw [bytesLimited, (decodes_word _ _).bind]
  simp only [lift_bind_ok, failIf_ok, not_lt, decodes_take _ _ _ _ rest]
  constructor
  · rintro ⟨len, -, mid, rfl, ⟨⟩, hlen, rfl, hlength⟩
    refine ⟨?_, hlength ▸ hlen⟩
    rw [framed, countBytes, hlength, List.append_assoc]
    exact congrArg (toBeBytes · ++ _) UInt32.ofNat_toNat.symm
  · rintro ⟨rfl, hle⟩
    have hlength : (UInt32.ofNat a.length).toNat = a.length :=
      UInt32.toNat_ofNat_of_lt' (hle.trans_lt hmax)
    refine ⟨UInt32.ofNat a.length, trivial, a ++ rest, ?_, (), ?_, rfl, hlength.symm⟩
    · rw [framed, List.append_assoc]
      rfl
    · rw [hlength]
      exact hle

/-- Read a count. -/
def checkedCount (field : String) (max : ℕ) : Reader IdentityError ℕ := do
  let n ← word .truncated UInt32
  lift (failIf (max < n.toNat) (.tooManyItems field max n.toNat))
  return n.toNat

lemma decodes_checkedCount (field : String) (hmax : max < 2 ^ 32) :
    Decodes (checkedCount field max) (countBytes UInt32) fun n => n ≤ max := by
  intro bs n rest
  rw [checkedCount, (decodes_word _ _).bind]
  simp only [lift_bind_ok, failIf_ok, not_lt, run_pure_ok]
  constructor
  · rintro ⟨n, -, mid, rfl, ⟨⟩, hle, rfl, rfl⟩
    refine ⟨?_, hle⟩
    rw [countBytes]
    exact congrArg (toBeBytes · ++ _) UInt32.ofNat_toNat.symm
  · rintro ⟨rfl, hle⟩
    have hn : (UInt32.ofNat n).toNat = n := UInt32.toNat_ofNat_of_lt' (hle.trans_lt hmax)
    exact ⟨UInt32.ofNat n, trivial, rest, rfl, (), hn.symm ▸ hle, hn, rfl⟩

/-- Read a list behind its count. -/
def counted {α : Type} (field : String) (max : ℕ) (p : Reader IdentityError α) :
    Reader IdentityError (List α) := do
  let n ← checkedCount field max
  readMany p n

lemma decodes_counted {α : Type} (field : String) (hmax : max < 2 ^ 32) {p : Reader IdentityError α}
    {enc : α → Bytes} {P : α → Prop} (h : Decodes p enc P) :
    Decodes (counted field max p) (fun xs => countBytes UInt32 xs.length ++ xs.flatMap enc)
      fun xs => xs.length ≤ max ∧ ∀ x ∈ xs, P x :=
  (decodes_checkedCount field hmax).counted h

/-- Read a text. -/
def text (field : String) (max : ℕ) : Reader IdentityError String := do
  let raw ← bytesLimited field max
  lift (okOr (ofUtf8 raw) .badEvent)

lemma decodes_text (field : String) (hmax : max < 2 ^ 32) :
    Decodes (text field max) (fun s => framed UInt32 (utf8 s)) fun s => (utf8 s).length ≤ max := by
  intro bs s rest
  rw [text, (decodes_bytesLimited field hmax).bind]
  simp only [run_lift_ok, okOr_ok]
  constructor
  · rintro ⟨raw, hle, mid, rfl, hraw, rfl⟩
    rw [utf8_of_ofUtf8 hraw]
    exact ⟨rfl, hle⟩
  · rintro ⟨rfl, hle⟩
    exact ⟨utf8 s, hle, rest, rfl, ofUtf8_utf8 s, rfl⟩

/-- Read a signature suite. -/
def suiteTag : Reader IdentityError SignatureSuite := do
  let tag ← word .truncated UInt8
  lift ((SignatureSuite.fromTag tag).mapError .crypto)

/-- The tag of a suite, whatever the errors. -/
lemma decodes_suite (e : ε) (crypto : CryptoError → ε) :
    Decodes (do lift ((SignatureSuite.fromTag (← word e UInt8)).mapError crypto))
      (fun suite => [suite.tag]) fun _ => True := by
  intro bs suite rest
  rw [(decodes_word _ _).bind]
  simp only [run_lift_ok, mapError_ok, toBeBytes_byte]
  constructor
  · rintro ⟨tag, -, mid, rfl, htag, rfl⟩
    rw [SignatureSuite.tag_of_fromTag htag]
    exact ⟨rfl, trivial⟩
  · rintro ⟨rfl, -⟩
    exact ⟨suite.tag, trivial, rest, rfl, SignatureSuite.fromTag_tag suite, rfl⟩

lemma decodes_suiteTag : Decodes suiteTag (fun suite => [suite.tag]) fun _ => True :=
  decodes_suite _ _

/-! ### Parts of an event -/

/-- Read a commitment to a key. -/
def decodeCommitment : Reader IdentityError Bytes := do
  let commitment ← bytesLimited "next commitment" maxMultihashBytes
  let _ ← lift ((Multihash.fromBytes commitment).mapError .crypto)
  return commitment

lemma decodes_commitment : Decodes decodeCommitment (framed UInt32) fun commitment =>
    commitment.length ≤ maxMultihashBytes ∧ ∃ m, Multihash.fromBytes commitment = .ok m := by
  intro bs commitment rest
  rw [decodeCommitment, (decodes_bytesLimited _ (by decide)).bind]
  simp only [lift_bind_ok, mapError_ok, run_pure_ok]
  constructor
  · rintro ⟨raw, hle, mid, rfl, m, hm, rfl, rfl⟩
    exact ⟨rfl, hle, m, hm⟩
  · rintro ⟨rfl, hle, m, hm⟩
    exact ⟨commitment, hle, rest, rfl, m, hm, rfl, rfl⟩

def decodeSig : Reader IdentityError IndexedSig := do
  let index ← word .truncated UInt32
  let suite ← suiteTag
  let bytes ← bytesLimited "signature" maxSignatureBytes
  let signature ← lift ((Signature.fromSuiteBytes suite bytes).mapError .crypto)
  return ⟨index, signature⟩

/-- A signature with its index, whatever the errors and however long the bytes may be. -/
lemma decodes_indexedSig (e : ε) (crypto : CryptoError → ε) {max : ℕ}
    {suiteTag : Reader ε SignatureSuite} {bytes : Reader ε Bytes}
    (hsuite : Decodes suiteTag (fun suite => [suite.tag]) fun _ => True)
    (hbytes : Decodes bytes (framed UInt32) fun bs => bs.length ≤ max)
    (hmax : ∀ suite : SignatureSuite, suite.signatureLen ≤ max) :
    Decodes (do
      let index ← word e UInt32
      let suite ← suiteTag
      let bytes ← bytes
      let signature ← lift ((Signature.fromSuiteBytes suite bytes).mapError crypto)
      return (⟨index, signature⟩ : IndexedSig)) encodeSig fun _ => True := by
  intro bs s rest
  rw [(decodes_word _ _).bind]
  simp only [hsuite.bind, hbytes.bind, lift_bind_ok, mapError_ok, run_pure_ok]
  constructor
  · rintro ⟨index, -, m1, rfl, suite, -, m2, rfl, raw, hle, m3, rfl, signature, hsig, rfl, rfl⟩
    unfold Signature.fromSuiteBytes at hsig
    split_ifs at hsig with hlength
    cases hsig
    exact ⟨by simp [encodeSig], trivial⟩
  · rintro ⟨rfl, -⟩
    exact ⟨s.index, trivial, _, by simp [encodeSig], s.signature.suite, trivial, _, rfl,
      s.signature.bytes, s.signature.length_eq.trans_le (hmax _), rest, rfl, s.signature,
      Signature.fromSuiteBytes_bytes _, rfl, rfl⟩

lemma decodes_sig : Decodes decodeSig encodeSig fun _ => True :=
  decodes_indexedSig _ _ decodes_suiteTag (decodes_bytesLimited _ (by decide))
    fun suite => by cases suite <;> decide

def decodeAnchor : Reader IdentityError Hash := do
  let bytes ← bytesLimited "anchor" 32
  lift (failIf (bytes.length ≠ 32) .badEvent)
  return Hash.ofBytes bytes

lemma decodes_anchor : Decodes decodeAnchor (fun a => framed UInt32 a.bytes) fun _ => True := by
  intro bs a rest
  rw [decodeAnchor, (decodes_bytesLimited _ (by decide)).bind]
  simp only [lift_bind_ok, failIf_ok, not_not, run_pure_ok]
  constructor
  · rintro ⟨raw, -, mid, rfl, ⟨⟩, hlength, rfl, rfl⟩
    exact ⟨by rw [Hash.bytes_ofBytes hlength], trivial⟩
  · rintro ⟨rfl, -⟩
    exact ⟨a.bytes, by simp, rest, rfl, (), a.length_bytes, Hash.ofBytes_bytes a, rfl⟩

section

variable [Primitives]

def decodeKey : Reader IdentityError VerifyingKey := do
  let suite ← suiteTag
  let bytes ← bytesLimited "key" maxKeyBytes
  lift ((VerifyingKey.fromSuiteBytes suite bytes).mapError .crypto)

/-- A public key that decodes and is short enough to be read. -/
def KeyPortable (key : VerifyingKey) : Prop :=
  key.bytes.length ≤ maxKeyBytes ∧ VerifyingKey.fromSuiteBytes key.suite key.bytes = .ok key

variable {bs rest : Bytes} {kind : EventKind}

lemma decodes_key : Decodes decodeKey encodeKey KeyPortable := by
  intro bs key rest
  rw [decodeKey, decodes_suiteTag.bind]
  simp only [(decodes_bytesLimited _ (by decide : maxKeyBytes < 2 ^ 32)).bind, run_lift_ok,
    mapError_ok]
  constructor
  · rintro ⟨suite, -, m1, rfl, raw, hle, m2, rfl, hkey, rfl⟩
    obtain rfl : key = ⟨suite, raw⟩ := by
      unfold VerifyingKey.fromSuiteBytes at hkey
      dsimp only at hkey
      split_ifs at hkey
      exact (Except.ok.inj hkey).symm
    exact ⟨by simp [encodeKey], hle, hkey⟩
  · rintro ⟨rfl, hle, hkey⟩
    exact ⟨key.suite, trivial, _, by simp [encodeKey], key.bytes, hle, rest, rfl, hkey, rfl⟩

/-- The threshold of a witness set is written only when there is one. -/
def decodeWitnessThreshold (witnesses : List Bytes) : Reader IdentityError UInt32 :=
  if witnesses.isEmpty then pure 0 else word .truncated UInt32

omit [Primitives] in
lemma decodeWitnessThreshold_ok {witnesses : List Bytes} {threshold : UInt32} :
    (decodeWitnessThreshold witnesses).run bs = .ok (threshold, rest) ↔
      bs = (if witnesses.isEmpty then [] else toBeBytes threshold) ++ rest ∧
        (witnesses = [] → threshold = 0) := by
  rw [decodeWitnessThreshold]
  split_ifs with hempty
  · rw [run_pure_ok]
    have hnil := List.isEmpty_iff.mp hempty
    constructor
    · rintro ⟨rfl, rfl⟩
      exact ⟨rfl, fun _ => rfl⟩
    · rintro ⟨rfl, hzero⟩
      exact ⟨(hzero hnil).symm, rfl⟩
  · rw [decodes_word]
    have hne := mt List.isEmpty_iff.mpr hempty
    exact ⟨fun ⟨hbs, _⟩ => ⟨hbs, fun hnil => absurd hnil hne⟩, fun ⟨hbs, _⟩ => ⟨hbs, trivial⟩⟩

def decodeEstablishment : Reader IdentityError Establishment := do
  let keys ← counted "keys" maxKeys decodeKey
  let threshold ← word .truncated UInt32
  let next ← counted "next commitments" maxNext decodeCommitment
  let nextThreshold ← word .truncated UInt32
  let witnesses ← counted "witnesses" maxWitnesses (bytesLimited "witness" maxDidBytes)
  let witnessThreshold ← decodeWitnessThreshold witnesses
  let est := ⟨keys, threshold, next, nextThreshold, witnesses, witnessThreshold⟩
  lift (validateEstablishment est)
  return est

/-- An establishment within the caps of the decoder. -/
structure Establishment.Portable (est : Establishment) : Prop where
  keys_length : est.keys.length ≤ maxKeys
  keys : ∀ key ∈ est.keys, KeyPortable key
  next_length : est.next.length ≤ maxNext
  next : ∀ commitment ∈ est.next, commitment.length ≤ maxMultihashBytes
  witnesses_length : est.witnesses.length ≤ maxWitnesses
  witnesses : ∀ w ∈ est.witnesses, w.length ≤ maxDidBytes
  valid : est.Valid

lemma decodes_establishment :
    Decodes decodeEstablishment Establishment.encode Establishment.Portable := by
  have hkeys := decodes_counted "keys" (by decide : maxKeys < 2 ^ 32) decodes_key
  have hnext := decodes_counted "next commitments" (by decide : maxNext < 2 ^ 32)
    decodes_commitment
  have hwitnesses := decodes_counted "witnesses" (by decide : maxWitnesses < 2 ^ 32)
    (decodes_bytesLimited "witness" (by decide : maxDidBytes < 2 ^ 32))
  intro bs est rest
  rw [decodeEstablishment, hkeys.bind]
  simp only [(decodes_word _ UInt32).bind, hnext.bind, hwitnesses.bind, run_bind_ok,
    decodeWitnessThreshold_ok, run_lift_ok, run_pure_ok]
  constructor
  · rintro ⟨keys, ⟨hkeys, hkey⟩, m1, rfl, threshold, -, m2, rfl, next, ⟨hnext, hcommitment⟩, m3,
      rfl, nextThreshold, -, m4, rfl, witnesses, ⟨hwitnesses, hwitness⟩, m5, rfl, witnessThreshold,
      m6, ⟨rfl, -⟩, ⟨⟩, m7, ⟨hvalid, rfl⟩, rfl, rfl⟩
    exact ⟨by simp [Establishment.encode], hkeys, hkey, hnext, fun c hc => (hcommitment c hc).1,
      hwitnesses, hwitness, validateEstablishment_ok.mp hvalid⟩
  · rintro ⟨rfl, h⟩
    have hzero : est.witnesses = [] → est.witnessThreshold = 0 := by
      intro hnil
      rcases h.valid.witnesses with ⟨-, hzero⟩ | ⟨hpos, hle, -⟩
      · exact hzero
      · rw [hnil, List.length_nil] at hle
        omega
    refine ⟨est.keys, ⟨h.keys_length, h.keys⟩, _, ?_, est.threshold, trivial, _, rfl, est.next,
      ⟨h.next_length, fun c hc => ⟨h.next c hc, h.valid.multihash c hc⟩⟩, _, rfl,
      est.nextThreshold, trivial, _, rfl, est.witnesses, ⟨h.witnesses_length, h.witnesses⟩, _, rfl,
      est.witnessThreshold, rest, ⟨rfl, hzero⟩, (), rest,
      ⟨validateEstablishment_ok.mpr h.valid, rfl⟩, rfl, rfl⟩
    simp [Establishment.encode]

/-- Read an identifier. -/
def didText (field : String) : Reader IdentityError String := do
  let s ← text field maxDidBytes
  let _ ← lift (Did.parse s)
  return s

/-- A text that parses as an identifier and is short enough to be read. -/
def DidPortable (s : String) : Prop := (utf8 s).length ≤ maxDidBytes ∧ ∃ d, Did.parse s = .ok d

lemma decodes_didText (field : String) :
    Decodes (didText field) (fun s => framed UInt32 (utf8 s)) DidPortable := by
  intro bs s rest
  rw [didText, (decodes_text field (by decide)).bind]
  simp only [lift_bind_ok, run_pure_ok]
  constructor
  · rintro ⟨s, hle, mid, rfl, d, hd, rfl, rfl⟩
    exact ⟨rfl, hle, d, hd⟩
  · rintro ⟨rfl, hle, d, hd⟩
    exact ⟨s, hle, rest, rfl, d, hd, rfl, rfl⟩

def decodeDelegate : Reader IdentityError Seal := do
  let device ← didText "seal.device"
  let bits ← word .truncated UInt32
  let capabilities ← lift (Capabilities.fromBits bits)
  return .delegate device capabilities

def decodeRevoke : Reader IdentityError Seal := do
  let device ← didText "seal.device"
  return .revoke device

def decodeSeal : Reader IdentityError Seal := do
  let tag ← word .truncated UInt8
  if tag = 0x01 then decodeDelegate
  else if tag = 0x02 then decodeRevoke
  else throw .badEvent

/-- A seal within the caps of the decoder. -/
structure Seal.Portable (s : Seal) : Prop where
  device : DidPortable s.device
  known : s.Known

lemma decodeDelegate_ok {s : Seal} :
    decodeDelegate.run bs = .ok (s, rest) ↔ ∃ device capabilities,
      s = .delegate device capabilities ∧
        bs = framed UInt32 (utf8 device) ++ toBeBytes capabilities.bits ++ rest ∧ s.Portable := by
  rw [decodeDelegate, (decodes_didText _).bind]
  simp only [(decodes_word _ _).bind, lift_bind_ok, run_pure_ok, Capabilities.fromBits,
    failIf_bind_ok, not_not, pure_ok]
  constructor
  · rintro ⟨device, hdevice, m1, rfl, bits, -, m2, rfl, capabilities, ⟨hknown, rfl⟩, rfl, rfl⟩
    exact ⟨device, ⟨bits⟩, rfl, by simp, hdevice, hknown⟩
  · rintro ⟨device, capabilities, rfl, rfl, hdevice, hknown⟩
    exact ⟨device, hdevice, _, by rw [List.append_assoc], capabilities.bits, trivial, rest, rfl,
      capabilities, ⟨hknown, rfl⟩, rfl, rfl⟩

lemma decodeRevoke_ok {s : Seal} : decodeRevoke.run bs = .ok (s, rest) ↔ ∃ device,
      s = .revoke device ∧ bs = framed UInt32 (utf8 device) ++ rest ∧ s.Portable := by
  rw [decodeRevoke, (decodes_didText _).bind]
  simp only [run_pure_ok]
  constructor
  · rintro ⟨device, hdevice, mid, rfl, rfl, rfl⟩
    exact ⟨device, rfl, rfl, hdevice, trivial⟩
  · rintro ⟨device, rfl, rfl, hdevice, -⟩
    exact ⟨device, hdevice, rest, rfl, rfl, rfl⟩

lemma decodes_seal : Decodes decodeSeal Seal.encode Seal.Portable := by
  intro bs s rest
  rw [decodeSeal, (decodes_word _ _).bind]
  constructor
  · rintro ⟨tag, -, mid, rfl, h⟩
    rw [toBeBytes_byte]
    split_ifs at h with h1 h2
    · obtain ⟨device, capabilities, rfl, rfl, hs⟩ := decodeDelegate_ok.mp h
      exact ⟨by simp [Seal.encode, h1], hs⟩
    · obtain ⟨device, rfl, rfl, hs⟩ := decodeRevoke_ok.mp h
      exact ⟨by simp [Seal.encode, h2], hs⟩
    · cases h
  · rintro ⟨rfl, hs⟩
    cases s with
    | delegate device capabilities =>
      refine ⟨0x01, trivial, framed UInt32 (utf8 device) ++ toBeBytes capabilities.bits ++ rest,
        by simp [Seal.encode, toBeBytes_byte], ?_⟩
      rw [if_pos rfl]
      exact decodeDelegate_ok.mpr ⟨device, capabilities, rfl, rfl, hs⟩
    | revoke device =>
      refine ⟨0x02, trivial, framed UInt32 (utf8 device) ++ rest,
        by simp [Seal.encode, toBeBytes_byte], ?_⟩
      rw [if_neg (by decide), if_pos rfl]
      exact decodeRevoke_ok.mpr ⟨device, rfl, rfl, hs⟩

/-! ### Events -/

def decodeDelegatedInception : Reader IdentityError EventKind := do
  let establishment ← decodeEstablishment
  let delegator ← didText "event.delegator"
  return .delegatedInception establishment delegator

lemma decodeDelegatedInception_ok :
    decodeDelegatedInception.run bs = .ok (kind, rest) ↔ ∃ est delegator,
      (est.Portable ∧ DidPortable delegator) ∧ kind = .delegatedInception est delegator ∧
        bs = est.encode ++ framed UInt32 (utf8 delegator) ++ rest := by
  rw [decodeDelegatedInception, decodes_establishment.bind]
  simp only [(decodes_didText _).bind, run_pure_ok]
  constructor
  · rintro ⟨est, hest, m1, rfl, delegator, hdelegator, m2, rfl, rfl, rfl⟩
    exact ⟨est, delegator, ⟨hest, hdelegator⟩, rfl, by rw [List.append_assoc]⟩
  · rintro ⟨est, delegator, ⟨hest, hdelegator⟩, rfl, rfl⟩
    exact ⟨est, hest, _, by rw [List.append_assoc], delegator, hdelegator, rest, rfl, rfl, rfl⟩

/-- The kind of event that a tag announces. -/
def decodeKind (tag : UInt8) : Reader IdentityError EventKind :=
  if tag = 0x01 then EventKind.inception <$> decodeEstablishment
  else if tag = 0x05 then decodeDelegatedInception
  else if tag = 0x02 then EventKind.rotation <$> decodeEstablishment
  else if tag = 0x03 then EventKind.interaction <$> counted "anchors" maxAnchors decodeAnchor
  else if tag = 0x04 then EventKind.seal <$> counted "seals" maxSeals decodeSeal
  else throw (.unknownEventTag tag)

/-- A kind of event within the caps of the decoder. -/
def EventKind.Portable : EventKind → Prop
  | .inception est                    => est.Portable
  | .delegatedInception est delegator => est.Portable ∧ DidPortable delegator
  | .rotation est                     => est.Portable
  | .interaction anchors              => anchors.length ≤ maxAnchors
  | .seal seals                       => seals.length ≤ maxSeals ∧ ∀ s ∈ seals, s.Portable

lemma decodeKind_ok {tag : UInt8} :
    (decodeKind tag).run bs = .ok (kind, rest) ↔
      tag = kind.tag ∧ bs = kind.encode ++ rest ∧ kind.Portable := by
  have hanchors := decodes_counted "anchors" (by decide : maxAnchors < 2 ^ 32) decodes_anchor
  have hseals := decodes_counted "seals" (by decide : maxSeals < 2 ^ 32) decodes_seal
  rw [decodeKind]
  constructor
  · intro h
    split_ifs at h with h1 h5 h2 h3 h4
    · rw [decodes_establishment.map] at h
      obtain ⟨est, hest, rfl, rfl⟩ := h
      exact ⟨h1, rfl, hest⟩
    · rw [decodeDelegatedInception_ok] at h
      obtain ⟨est, delegator, hkind, rfl, rfl⟩ := h
      exact ⟨h5, rfl, hkind⟩
    · rw [decodes_establishment.map] at h
      obtain ⟨est, hest, rfl, rfl⟩ := h
      exact ⟨h2, rfl, hest⟩
    · rw [hanchors.map] at h
      obtain ⟨anchors, ⟨hlength, -⟩, rfl, rfl⟩ := h
      exact ⟨h3, rfl, hlength⟩
    · rw [hseals.map] at h
      obtain ⟨seals, hall, rfl, rfl⟩ := h
      exact ⟨h4, rfl, hall⟩
    · cases h
  · rintro ⟨rfl, rfl, hkind⟩
    match kind, hkind with
    | .inception est, hest =>
      change (EventKind.inception <$> decodeEstablishment).run _ = _
      rw [decodes_establishment.map]
      exact ⟨est, hest, rfl, rfl⟩
    | .delegatedInception est delegator, hboth =>
      change decodeDelegatedInception.run _ = _
      rw [decodeDelegatedInception_ok]
      exact ⟨est, delegator, hboth, rfl, rfl⟩
    | .rotation est, hest =>
      change (EventKind.rotation <$> decodeEstablishment).run _ = _
      rw [decodes_establishment.map]
      exact ⟨est, hest, rfl, rfl⟩
    | .interaction anchors, hlength =>
      change (EventKind.interaction <$> counted "anchors" maxAnchors decodeAnchor).run _ = _
      rw [hanchors.map]
      exact ⟨anchors, ⟨hlength, fun _ _ => trivial⟩, rfl, rfl⟩
    | .seal seals, hall =>
      change (EventKind.seal <$> counted "seals" maxSeals decodeSeal).run _ = _
      rw [hseals.map]
      exact ⟨seals, hall, rfl, rfl⟩

namespace Event

def decode : Reader IdentityError Event := do
  let tag ← word .truncated UInt8
  let suite ← suiteTag
  let scid ← text "event.scid" maxScidBytes
  let sn ← word .truncated UInt64
  let prior ← bytesLimited "event.prior" maxPriorBytes
  let kind ← decodeKind tag
  let signatures ← counted "signatures" maxSignatures decodeSig
  return ⟨suite, scid, sn, prior, kind, signatures⟩

/-- An event within the caps of the decoder. -/
structure Portable (e : Event) : Prop where
  scid : (utf8 e.scid).length ≤ maxScidBytes
  prior : e.prior.length ≤ maxPriorBytes
  kind : e.kind.Portable
  signatures : e.signatures.length ≤ maxSignatures

lemma decodes_event : Decodes decode fullBytes Portable := by
  have htext := decodes_text "event.scid" (by decide : maxScidBytes < 2 ^ 32)
  have hprior := decodes_bytesLimited "event.prior" (by decide : maxPriorBytes < 2 ^ 32)
  have hsigs := decodes_counted "signatures" (by decide : maxSignatures < 2 ^ 32) decodes_sig
  intro bs e rest
  rw [decode, (decodes_word _ _).bind]
  simp only [decodes_suiteTag.bind, htext.bind, (decodes_word _ UInt64).bind, hprior.bind,
    run_bind_ok, decodeKind_ok, hsigs _ _ _, run_pure_ok]
  constructor
  · rintro ⟨tag, -, m1, rfl, suite, -, m2, rfl, scid, hscid, m3, rfl, sn, -, m4, rfl, prior, hprior,
      m5, rfl, kind, m6, ⟨rfl, rfl, hkind⟩, sigs, m7, ⟨rfl, hsigs, -⟩, rfl, rfl⟩
    refine ⟨?_, hscid, hprior, hkind, hsigs⟩
    simp [fullBytes, encode, encodeSigs, toBeBytes_byte]
  · rintro ⟨rfl, h⟩
    refine ⟨e.kind.tag, trivial, _, ?_, e.suite, trivial, _, rfl, e.scid, h.scid, _, rfl, e.sn,
      trivial, _, rfl, e.prior, h.prior, _, rfl, e.kind, _, ⟨rfl, rfl, h.kind⟩, e.signatures, rest,
      ⟨rfl, h.signatures, fun _ _ => trivial⟩, rfl, rfl⟩
    simp [fullBytes, encode, encodeSigs, toBeBytes_byte]

end Event

/-! ### Logs -/

namespace Kel

def toBytes (kel : Kel) : Bytes :=
  framed UInt32 (utf8 kel.scid) ++ countBytes UInt32 kel.events.length ++
    kel.events.flatMap fun e => framed UInt32 e.fullBytes

/-- Read all of a byte string as one value. -/
def readAll {α : Type} (p : Reader IdentityError α) (bytes : Bytes) :
    Except IdentityError α := do
  let (a, rest) ← p.run bytes
  failIf (rest ≠ []) .trailingBytes
  return a

omit [Primitives] in
lemma readAll_ok {α : Type} {p : Reader IdentityError α} {enc : α → Bytes} {P : α → Prop}
    (h : Decodes p enc P) {bytes : Bytes} {a : α} : readAll p bytes = .ok a ↔ bytes = enc a ∧ P a :=
  h.whole_ok

/-- Read an event behind its length. -/
def decodeFramed : Reader IdentityError Event := do
  let bytes ← bytesLimited "kel.event" maxEventBytes
  lift (readAll Event.decode bytes)

lemma decodes_framed : Decodes decodeFramed (fun e => framed UInt32 e.fullBytes)
    fun e => e.fullBytes.length ≤ maxEventBytes ∧ e.Portable := by
  intro bs e rest
  rw [decodeFramed, (decodes_bytesLimited _ (by decide)).bind]
  simp only [run_lift_ok, readAll_ok Event.decodes_event]
  constructor
  · rintro ⟨raw, hle, mid, rfl, ⟨rfl, he⟩, rfl⟩
    exact ⟨rfl, hle, he⟩
  · rintro ⟨rfl, hle, he⟩
    exact ⟨_, hle, rest, rfl, ⟨rfl, he⟩, rfl⟩

def decode : Reader IdentityError Kel := do
  let scid ← text "kel.scid" maxScidBytes
  let _ ← lift (Did.parse (Did.method ++ scid))
  let events ← counted "kel.events" maxKelEvents decodeFramed
  return ⟨scid, events⟩

def fromBytes (bytes : Bytes) : Except IdentityError Kel := readAll decode bytes

/-- A log within the caps of the decoder. -/
structure Portable (kel : Kel) : Prop where
  scid : (utf8 kel.scid).length ≤ maxScidBytes
  did : kel.did.Valid
  length_le : kel.events.length ≤ maxKelEvents
  events : ∀ e ∈ kel.events, e.fullBytes.length ≤ maxEventBytes ∧ e.Portable

lemma decodes_kel : Decodes decode toBytes Portable := by
  have hevents := decodes_counted "kel.events" (by decide : maxKelEvents < 2 ^ 32) decodes_framed
  intro bs kel rest
  rw [decode, (decodes_text _ (by decide)).bind]
  simp only [lift_bind_ok, hevents.bind, run_pure_ok]
  constructor
  · rintro ⟨scid, hscid, m1, rfl, did, hdid, events, ⟨hlength, hall⟩, m2, rfl, rfl, rfl⟩
    obtain rfl : did = ⟨scid⟩ := Did.asStr_injective (Did.parse_ok.mp hdid).1.symm
    exact ⟨by simp [toBytes], hscid, Did.valid_of_parse hdid, hlength, hall⟩
  · rintro ⟨rfl, h⟩
    refine ⟨kel.scid, h.scid, _, ?_, kel.did, h.did, kel.events, ⟨h.length_le, h.events⟩, rest,
      rfl, rfl, rfl⟩
    simp [toBytes]

/-- The decoder accepts the encodings of the logs within its caps, and nothing else. -/
lemma fromBytes_ok {bytes : Bytes} {kel : Kel} :
    fromBytes bytes = .ok kel ↔ bytes = kel.toBytes ∧ kel.Portable :=
  readAll_ok decodes_kel

end Kel

end

end Mininet.Identity
