import Mininet.Identity.Delegation
import Mininet.Identity.Duplicity
import Mininet.Objects.Object

/-!
# Signed objects and their identifiers

What the builder makes, when it can be read back, and that it verifies. The identifier of an object
covers its signature list, while verification counts the keys that signed: an entry that no key made
changes the identifier and nothing else.
-/

namespace Mininet.Objects

open Codec Fallible Identity List

/-! ### Signature lists in order -/

variable {sigs : List IndexedSig}

lemma signaturesAreCanonical_iff :
    signaturesAreCanonical sigs = true ↔ sigs.Pairwise fun s t => s.index < t.index := by
  rw [← isChain_iff_pairwise]
  induction sigs with
  | nil => simp [signaturesAreCanonical]
  | cons s sigs ih =>
    cases sigs with
    | nil => simp [signaturesAreCanonical]
    | cons t sigs =>
      rw [isChain_cons_cons, ← ih]
      simp [signaturesAreCanonical]

/-- Each index stands once in a list in order. -/
lemma eq_of_index_eq (h : signaturesAreCanonical sigs = true)
    {s t : IndexedSig} (hs : s ∈ sigs) (ht : t ∈ sigs) (heq : s.index = t.index) : s = t := by
  have hnodup : (sigs.map IndexedSig.index).Nodup := by
    rw [List.Nodup, pairwise_map]
    exact (signaturesAreCanonical_iff.mp h).imp fun hlt heq =>
      absurd (heq ▸ hlt) (UInt32.lt_irrefl _)
  exact inj_on_of_nodup_map hnodup hs ht heq

section

variable [KeyPrimitives]

variable {sigs : List IndexedSig} {msg : Bytes}

/-- A device signs in order. -/
lemma canonical_of_signMessage {device : Controller}
    (h : device.signMessage msg = some sigs) (hfew : device.current.length ≤ 2 ^ 32) :
    signaturesAreCanonical sigs = true := by
  obtain ⟨hlength, hget⟩ := Controller.signatures_of_mapM h
  have hindex : ∀ (i : ℕ) (hi : i < sigs.length), sigs[i].index = UInt32.ofNat i := by
    intro i hi
    obtain ⟨signature, -, hs⟩ := hget i device.current[i] (List.getElem?_eq_getElem (hlength ▸ hi))
    rw [List.getElem?_eq_getElem hi] at hs
    rw [Option.some.inj hs]
  rw [signaturesAreCanonical_iff, pairwise_iff_getElem]
  intro i j hi hj hij
  have hsize : UInt32.size = 2 ^ 32 := rfl
  rw [hindex i hi, hindex j hj, UInt32.lt_iff_toNat_lt, UInt32.toNat_ofNat_of_lt' (by omega),
    UInt32.toNat_ofNat_of_lt' (by omega)]
  exact hij

/-! ### What the builder makes -/

namespace ObjectBuilder

variable {b : ObjectBuilder} {human : Did} {device : Controller} {o : Object}

lemma sign_ok : b.sign human device = .ok o ↔
      b.links.length ≤ maxLinks ∧ b.objectType ≠ .wellKnown ObjectType.customTypeMarker ∧
        b.payload.bytes.length ≤ maxPayloadBytes ∧
        ∃ key, device.keyState.keys.head? = some key ∧
          ∃ sigs, device.signMessage (b.unsigned human device key.suite).signingBytes = some sigs ∧
            o = Object.identified
              { b.unsigned human device key.suite with signatures := sigs } := by
  rw [sign, failIf_bind_ok, failIf_bind_ok, failIf_bind_ok, not_lt, not_lt]
  simp only [bind_ok, okOr_ok, pure_ok, eq_comm (b := o), ne_eq]

/-- What a builder has to be given for its object to be read back. -/
structure Readable (b : ObjectBuilder) (device : Controller) : Prop where
  custom : ∀ name, b.objectType = .custom name → name ≠ "" ∧ (utf8 name).length ≤ maxTypeBytes
  rels : ∀ l ∈ b.links, l.rel ≠ "" ∧ (utf8 l.rel).length ≤ maxRelBytes
  keys : device.current.length ≤ maxSignatures

variable [LawfulKeys]

lemma portable_did {d : Did} (h : d.Valid) : d.Valid ∧ (utf8 d.asStr).length ≤ maxDidBytes :=
  ⟨h, (didText_of_valid h).length_le.trans (by decide)⟩

/-- A signed object is within the limits of the decoder when its builder's names are, and its device
has not too many keys. -/
lemma portable_iff (hhuman : human.Valid) (hdevice : device.did.Valid)
    (htargets : ∀ l ∈ b.links, l.target.Valid) (h : b.sign human device = .ok o) :
    o.Portable ↔ b.Readable device := by
  obtain ⟨hlinks, htype, hpayload, key, hkey, sigs, hsigs, rfl⟩ := sign_ok.mp h
  obtain ⟨hlength, -⟩ := Controller.signatures_of_mapM hsigs
  constructor
  · intro ho
    refine ⟨fun name hname => ?_, fun l hl => ?_, hlength ▸ ho.signatures.2⟩
    · have hcustom : b.objectType.Portable := ho.objectType
      rw [hname] at hcustom
      exact hcustom
    · exact ⟨(ho.links.2 l hl).rel_ne, (ho.links.2 l hl).rel_length⟩
  · intro hb
    refine ⟨rfl, ?_, portable_did hhuman, portable_did hdevice, ⟨hlinks, fun l hl => ?_⟩, hpayload,
      ⟨?_, hlength ▸ hb.keys⟩, canonical_of_signMessage hsigs (hb.keys.trans (by decide))⟩
    · change b.objectType.Portable
      match hname : b.objectType with
      | .wellKnown tag => exact fun htag => htype (hname.trans (htag ▸ rfl))
      | .custom name => exact hb.custom name hname
    · have htext := (ObjectId.scidText_of_valid (htargets l hl)).length_le
      exact ⟨(hb.rels l hl).1, (hb.rels l hl).2, htargets l hl, htext.trans (by decide)⟩
    · intro hnil
      have hempty : device.current = [] := by
        rw [← length_eq_zero_iff, ← hlength]
        exact length_eq_zero_iff.mpr hnil
      rw [Controller.keyState, hempty] at hkey
      cases hkey

omit [LawfulKeys] in
/-- What is signed does not depend on the signatures, nor on the identifier. -/
lemma signingBytes_of_sign (h : b.sign human device = .ok o) :
    device.signMessage o.signingBytes = some o.signatures ∧ o.authorDevice = device.did := by
  obtain ⟨-, -, -, key, -, sigs, hsigs, rfl⟩ := sign_ok.mp h
  exact ⟨hsigs, rfl⟩

/-- A signed object verifies against the log of its device. -/
lemma verifySignature_of_sign {r : Replay} (hagrees : device.Agrees r)
    (hfew : device.current.length < 2 ^ 32) (h : b.sign human device = .ok o) :
    o.verifySignature device.kel = .ok () := by
  obtain ⟨hsigs, hdevice⟩ := signingBytes_of_sign h
  have hcontrolled := Kel.controlled_of_replay hagrees.replay_eq
  have hnodup := hcontrolled.keys_nodup
  have hle := hcontrolled.threshold_le
  rw [hagrees.keys] at hnodup hle
  rw [hagrees.threshold, length_map] at hle
  have hcount := (Controller.allSigned_of_mapM hsigs).countValidSigners_eq hnodup
  rw [length_map, if_pos hfew] at hcount
  refine failIf_bind_ok.mpr ⟨not_not.mpr (congrArg Did.asStr hdevice.symm), ?_⟩
  rw [mapError_ok, Kel.verifyMessage, hagrees.verify_kel]
  refine failIf_ok.mpr ?_
  rw [UInt32.not_lt, UInt32.le_iff_toNat_le]
  exact hle.trans hcount.ge

omit [LawfulKeys] in
/-- A device of Ed25519 keys signs whatever is within the builder's limits. -/
lemma exists_sign (human : Did) (device : Controller) (hlinks : b.links.length ≤ maxLinks)
    (htype : b.objectType ≠ .wellKnown ObjectType.customTypeMarker)
    (hpayload : b.payload.bytes.length ≤ maxPayloadBytes) (hne : device.current ≠ [])
    (hsuite : ∀ k ∈ device.current, k.suite = .ed25519) : ∃ o, b.sign human device = .ok o := by
  obtain ⟨key, hkey⟩ : ∃ key, device.keyState.keys.head? = some key := by
    obtain ⟨k, ks, hks⟩ := exists_cons_of_ne_nil hne
    exact ⟨k.verifyingKey, by rw [Controller.keyState, hks]; rfl⟩
  obtain ⟨sigs, hsigs⟩ := Controller.exists_signatures hsuite
    (b.unsigned human device key.suite).signingBytes
  exact ⟨_, sign_ok.mpr ⟨hlinks, htype, hpayload, key, hkey, sigs, hsigs, rfl⟩⟩

end ObjectBuilder

/-! ### Identifiers and signature lists -/

/-- Whether an entry of a signature list is the signature of one of the keys over a message. -/
def SignedBy (keys : List VerifyingKey) (msg : Bytes) (s : IndexedSig) : Prop :=
  ∃ key, keys[s.index.toNat]? = some key ∧ key.verify msg s.signature = .ok ()

/-- Lists of signatures by keys that sign a message once are the same when they name the same
indices and have the same entries besides. -/
lemma signatures_eq {keys : List VerifyingKey} {sigs' : List IndexedSig}
    (hsigs : signaturesAreCanonical sigs = true) (hsigs' : signaturesAreCanonical sigs' = true)
    (honce : ∀ s ∈ sigs, ∀ t ∈ sigs', s.index = t.index → SignedBy keys msg s →
      SignedBy keys msg t → s = t)
    (hindex : sigs.map IndexedSig.index = sigs'.map IndexedSig.index)
    (hsurplus : ∀ s, ¬ SignedBy keys msg s → (s ∈ sigs ↔ s ∈ sigs')) : sigs = sigs' := by
  have hlength : sigs.length = sigs'.length := by simpa using congrArg List.length hindex
  refine ext_getElem hlength fun i hi hi' => ?_
  have hi_index : sigs[i].index = sigs'[i].index := by
    have hget := congrArg (fun l : List UInt32 => l[i]?) hindex
    simpa [hi, hi'] using hget
  have hmem := getElem_mem hi
  have hmem' := getElem_mem hi'
  by_cases hs : SignedBy keys msg sigs[i]
  · by_cases ht : SignedBy keys msg sigs'[i]
    · exact honce _ hmem _ hmem' hi_index hs ht
    · exact eq_of_index_eq hsigs hmem ((hsurplus _ ht).mpr hmem') hi_index
  · exact eq_of_index_eq hsigs' ((hsurplus _ hs).mp hmem) hmem' hi_index

/-- Two objects that a device signed once have one identifier exactly when their lists name the same
keys and share every entry that no key made. -/
theorem id_eq_iff [LawfulKeys] {kel : Kel} {state : KeyState} {xs ys : Bytes} {a b : Object}
    (ha : Object.fromBytes xs = .ok a) (hb : Object.fromBytes ys = .ok b)
    (_ : kel.verify = .ok state) (hbytes : a.signingBytes = b.signingBytes)
    (_ : a.verifySignature kel = .ok ()) (_ : b.verifySignature kel = .ok ())
    (honce : ∀ s ∈ a.signatures, ∀ t ∈ b.signatures, s.index = t.index →
      SignedBy state.keys a.signingBytes s → SignedBy state.keys a.signingBytes t → s = t)
    (hfree : blake3 a.toBytes = blake3 b.toBytes → a.toBytes = b.toBytes) :
    a.id = b.id ↔ a.signatures.map IndexedSig.index = b.signatures.map IndexedSig.index ∧
      ∀ s, ¬ SignedBy state.keys a.signingBytes s → (s ∈ a.signatures ↔ s ∈ b.signatures) := by
  obtain ⟨rfl, hpa⟩ := Object.fromBytes_ok.mp ha
  obtain ⟨rfl, hpb⟩ := Object.fromBytes_ok.mp hb
  constructor
  · intro hid
    rw [hpa.id_eq, hpb.id_eq] at hid
    have hsame := hfree (ObjectId.blake3_of_of hid)
    obtain rfl : a = b := by
      rw [hsame] at ha
      exact Except.ok.inj (ha.symm.trans hb)
    exact ⟨rfl, fun _ _ => Iff.rfl⟩
  · rintro ⟨hindex, hsurplus⟩
    have hsigs := signatures_eq hpa.canonical hpb.canonical honce hindex hsurplus
    rw [hpa.id_eq, hpb.id_eq, Object.toBytes, Object.toBytes, hbytes, hsigs]

/-- An object with one more signature, and the identifier that follows from it. -/
def Object.repackaged (o : Object) (s : IndexedSig) : Object :=
  Object.identified { o with signatures := o.signatures ++ [s] }

end

/-! ### Sample objects -/

/-- An identity of one key, and what it signs. -/
lemma exists_sample_signed {b : ObjectBuilder}
    (hsigns : (@Controller.incept .sample [sampleKey 0] 1 [sampleKey 1] 1).toOption.any (fun c =>
      (@ObjectBuilder.sign .sample b c.did c).toOption.any fun _ => true) = true) :
    ∃ (c : Controller) (o : Object), @Obtained .sample (@Decoded .sample) (fun _ => True) (.inr c) ∧
      @Did.Valid KeyPrimitives.sample.toPrimitives c.did ∧ c.current = [sampleKey 0] ∧
      @ObjectBuilder.sign .sample b c.did c = .ok o := by
  let := KeyPrimitives.sample
  have := lawfulKeys_sample
  obtain ⟨c, hc, hsigns⟩ := exists_of_any _ hsigns
  obtain ⟨o, ho, -⟩ := exists_of_any _ hsigns
  have hobtained : Obtained Decoded (fun _ => True) (.inr c) := .incept hc trivial
  refine ⟨c, o, hobtained, (genuine_of_obtained hobtained).scid, ?_, ho⟩
  obtain ⟨_, _, _, -, -, -, rfl⟩ := Controller.inceptInner_ok hc
  rfl

/-- A post. -/
def samplePost : ObjectBuilder := { objectType := .wellKnown 1 }

/-- Two objects that a device signed once, under two identifiers. -/
structure Repackaged [KeyPrimitives] (kel : Kel) (state : KeyState) (a b : Object) : Prop where
  verify_eq : kel.verify = .ok state
  read : Object.fromBytes a.toBytes = .ok a
  read' : Object.fromBytes b.toBytes = .ok b
  signingBytes_eq : a.signingBytes = b.signingBytes
  verified : a.verifySignature kel = .ok ()
  verified' : b.verifySignature kel = .ok ()
  once : ∀ s ∈ a.signatures, ∀ t ∈ b.signatures, s.index = t.index →
    SignedBy state.keys a.signingBytes s → SignedBy state.keys a.signingBytes t → s = t
  id_ne : a.id ≠ b.id

lemma exists_sample_repackaged : ∃ kel state a b, @Repackaged .sample kel state a b := by
  let := KeyPrimitives.sample
  obtain ⟨c, hc, hcheck⟩ := exists_of_any (x := Controller.incept [sampleKey 0] 1 [sampleKey 1] 1)
    (fun c => (samplePost.sign c.did c).toOption.any fun a =>
      let b := a.repackaged (WitnessJournal.sampleSurplus 7)
      decide ((Object.fromBytes a.toBytes).toOption = some a) &&
      decide ((Object.fromBytes b.toBytes).toOption = some b) &&
      decide ((a.verifySignature c.kel).toOption = some ()) &&
      decide ((b.verifySignature c.kel).toOption = some ()) && decide (a.id ≠ b.id) &&
      decide (a.signatures.map IndexedSig.index = [0]))
    (by decide +kernel)
  obtain ⟨a, -, hcheck⟩ := exists_of_any _ hcheck
  simp only [Bool.and_eq_true, decide_eq_true_eq, toOption_some] at hcheck
  obtain ⟨⟨⟨⟨⟨hread, hread'⟩, hverified⟩, hverified'⟩, hne⟩, hindex⟩ := hcheck
  refine ⟨c.kel, c.keyState, a, _, Controller.sample_verify hc, hread, hread', rfl, hverified,
    hverified', ?_, hne⟩
  intro t ht u hu heq _ _
  rcases mem_append.mp hu with hu | hu
  · exact eq_of_index_eq (Object.fromBytes_ok.mp hread).2.canonical ht hu heq
  · -- the surplus entry is at the index of no other
    obtain rfl := mem_singleton.mp hu
    have hfirst := hindex ▸ mem_map_of_mem ht
    rw [mem_singleton, heq] at hfirst
    exact absurd hfirst (by decide : (1 : UInt32) ≠ 0)

/-- The surplus signature is what tells the two posts apart. -/
theorem sample_id_eq_iff :
    ∃ (kel : Kel) (state : KeyState) (a b : Object), @Kel.verify .sample kel = .ok state ∧
      @Object.verifySignature .sample a kel = .ok () ∧
      @Object.verifySignature .sample b kel = .ok () ∧ a.signingBytes = b.signingBytes ∧
      (a.id = b.id ↔ a.signatures.map IndexedSig.index = b.signatures.map IndexedSig.index ∧
        ∀ s, ¬ @SignedBy .sample state.keys a.signingBytes s →
          (s ∈ a.signatures ↔ s ∈ b.signatures)) := by
  let := KeyPrimitives.sample
  have := lawfulKeys_sample
  obtain ⟨kel, state, a, b, h⟩ := exists_sample_repackaged
  have hid : blake3 a.toBytes ≠ blake3 b.toBytes := by
    intro heq
    refine h.id_ne ?_
    rw [(Object.fromBytes_ok.mp h.read).2.id_eq, (Object.fromBytes_ok.mp h.read').2.id_eq,
      ObjectId.of, ObjectId.of, multihash, multihash, heq]
  exact ⟨kel, state, a, b, h.verify_eq, h.verified, h.verified', h.signingBytes_eq,
    id_eq_iff h.read h.read' h.verify_eq h.signingBytes_eq h.verified h.verified' h.once
      fun heq => absurd heq hid⟩

/-- Whoever adds a signature that no key made gives a signed object another identifier. -/
theorem sample_two_identifiers :
    ∃ (kel : Kel) (state : KeyState) (a b : Object), @Kel.verify .sample kel = .ok state ∧
      @Object.fromBytes .sample a.toBytes = .ok a ∧ @Object.fromBytes .sample b.toBytes = .ok b ∧
      a.signingBytes = b.signingBytes ∧ @Object.verifySignature .sample a kel = .ok () ∧
      @Object.verifySignature .sample b kel = .ok () ∧
      (∀ s ∈ a.signatures, ∀ t ∈ b.signatures, s.index = t.index →
        @SignedBy .sample state.keys a.signingBytes s →
        @SignedBy .sample state.keys a.signingBytes t → s = t) ∧
      a.id ≠ b.id := by
  let := KeyPrimitives.sample
  obtain ⟨kel, state, a, b, h⟩ := exists_sample_repackaged
  exact ⟨kel, state, a, b, h.verify_eq, h.read, h.read', h.signingBytes_eq, h.verified, h.verified',
    h.once, h.id_ne⟩

end Mininet.Objects
