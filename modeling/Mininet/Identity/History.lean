import Mininet.Identity.Exchange

/-!
# Histories

The byte layout of an event determines the event, and every event but the first carries the digest
of the one before it: a digest pins all that led to it. Counts are written in 32 bits and the items
may be more than that, but then the items that were not counted would have to pass for the fields
that follow them, which they do not.
-/

namespace Mininet.Identity

open Codec Fallible Stateful List

/-! ### Lists behind a count that wraps -/

section Counts

variable {α : Type} {enc : α → Bytes} {xs ys : List α} {r s : Bytes}

/-- More items than their count tells, and a text that goes on with two of them. -/
def Overrun (enc : α → Bytes) (items : List α) (text : Bytes) : Prop :=
  2 ^ 32 ≤ items.length ∧ ∃ x ∈ items, ∃ y ∈ items, ∃ rest, text = enc x ++ (enc y ++ rest)

/-- Counted lists of self-delimiting items are told apart, unless one overruns its count. -/
lemma counted_append_cases
    (hitem : ∀ x ∈ xs, ∀ y ∈ ys, ∀ r s, enc x ++ r = enc y ++ s → x = y ∧ r = s)
    (h : countBytes UInt32 xs.length ++ (xs.flatMap enc ++ r) =
      countBytes UInt32 ys.length ++ (ys.flatMap enc ++ s)) :
    xs = ys ∧ r = s ∨ Overrun enc ys r ∨ Overrun enc xs s := by
  obtain ⟨hcount, hrest⟩ := append_inj h (by simp)
  have hmod : xs.length % 2 ^ 32 = ys.length % 2 ^ 32 := by
    have hnat := congrArg UInt32.toNat (toBeBytes_injective hcount)
    simpa [FixedWidth.ofNat] using hnat
  -- the items beyond those of the other list are none or very many
  have hover : ∀ {us zs : List α} {r s : Bytes}, us.length % 2 ^ 32 = (us ++ zs).length % 2 ^ 32 →
      r = zs.flatMap enc ++ s → zs = [] ∨ Overrun enc (us ++ zs) r := by
    intro us zs r s hmod hr
    rw [length_append] at hmod
    match zs with
    | [] => exact .inl rfl
    | [z] =>
      rw [length_singleton] at hmod
      omega
    | z :: z' :: zs =>
      refine .inr ⟨?_, z, by simp, z', by simp, zs.flatMap enc ++ s, by rw [hr]; simp⟩
      rw [length_append]
      simp only [length_cons] at hmod ⊢
      omega
  rcases flatMap_append_cases hitem hrest with ⟨zs, rfl, hr⟩ | ⟨zs, rfl, hs⟩
  · rcases hover hmod hr with rfl | hmany
    · exact .inl ⟨by simp, by simpa using hr⟩
    · exact .inr (.inl hmany)
  · rcases hover hmod.symm hs with rfl | hmany
    · exact .inl ⟨by simp, by simpa using hs.symm⟩
    · exact .inr (.inr hmany)

/-- Counted lists of self-delimiting items are told apart when they are counted right. -/
lemma counted_append_inj
    (hitem : ∀ x ∈ xs, ∀ y ∈ ys, ∀ r s, enc x ++ r = enc y ++ s → x = y ∧ r = s)
    (hxs : xs.length < 2 ^ 32) (hys : ys.length < 2 ^ 32)
    (h : countBytes UInt32 xs.length ++ (xs.flatMap enc ++ r) =
      countBytes UInt32 ys.length ++ (ys.flatMap enc ++ s)) : xs = ys ∧ r = s := by
  rcases counted_append_cases hitem h with hsame | hover | hover
  · exact hsame
  · exact absurd hover.1 (not_le.mpr hys)
  · exact absurd hover.1 (not_le.mpr hxs)

end Counts

/-! ### Sizes -/

section

variable [KeyPrimitives]

/-- A list of identifiers short enough to be counted, or in fact the strings of identifiers. -/
def WitnessesSized (witnesses : List Bytes) : Prop :=
  (witnesses.length ≤ maxWitnesses ∧ ∀ w ∈ witnesses, w.length ≤ maxDidBytes) ∨
    ∀ w ∈ witnesses, ∃ d : Did, d.Valid ∧ w = utf8 d.asStr

/-- An establishment whose keys are counted right and whose fields fit their lengths. -/
structure Establishment.Sized (est : Establishment) : Prop where
  keys_length : est.keys.length < 2 ^ 32
  keys : ∀ key ∈ est.keys, key.bytes.length < 2 ^ 32
  witnesses : WitnessesSized est.witnesses
  valid : est.Valid

def EventKind.Sized : EventKind → Prop
  | .inception est => est.Sized ∧ est.witnesses.length ≤ maxWitnesses
  | .delegatedInception est delegator =>
    (est.Sized ∧ est.witnesses.length ≤ maxWitnesses) ∧ (utf8 delegator).length < 2 ^ 32
  | .rotation est => est.Sized
  | .interaction anchors => anchors.length < 2 ^ 32
  | .seal seals => seals.length < 2 ^ 32 ∧ ∀ s ∈ seals, (utf8 s.device).length < 2 ^ 32

/-- An event whose byte layout determines it. -/
structure Event.Sized (e : Event) : Prop where
  scid : (utf8 e.scid).length < 2 ^ 32
  prior : e.prior.length < 2 ^ 32
  kind : e.kind.Sized
  signatures : e.signatures.length < 2 ^ 32

variable {witnesses : List Bytes} {r s : Bytes} {held : Controller → Prop}
  {signers : List SigningKey} {est : Establishment} {a b : Establishment} {e : Event}

lemma WitnessesSized.length_lt [LawfulKeys] (h : WitnessesSized witnesses) :
    ∀ w ∈ witnesses, w.length < 2 ^ 32 := by
  intro w hw
  rcases h with ⟨-, hshort⟩ | hdids
  · exact (hshort w hw).trans_lt (by decide)
  · obtain ⟨d, hd, rfl⟩ := hdids w hw
    exact (didText_of_valid hd).length_le.trans_lt (by decide)

lemma Establishment.Portable.sized (h : est.Portable) : est.Sized where
  keys_length := h.keys_length.trans_lt (by decide)
  keys key hkey := (h.keys key hkey).1.trans_lt (by decide)
  witnesses := .inl ⟨h.witnesses_length, h.witnesses⟩
  valid := h.valid

lemma Establishment.Built.sized [LawfulKeys]
    (h : est.Built signers) (hsuite : ∀ k ∈ signers, k.suite = .ed25519)
    (hcount : signers.length < 2 ^ 32) : est.Sized where
  keys_length := by rwa [h.keys, length_map]
  keys := by
    rw [h.keys]
    intro key hkey
    obtain ⟨k, hk, rfl⟩ := mem_map.mp hkey
    exact (keyPortable_of_suite (hsuite k hk)).1.trans_lt (by decide)
  witnesses := .inr h.witnesses
  valid := h.valid

lemma Event.Portable.sized (h : e.Portable) : e.Sized where
  scid := h.scid.trans_lt (by decide)
  prior := h.prior.trans_lt (by decide)
  signatures := h.signatures.trans_lt (by decide)
  kind := by
    match e.kind, h.kind with
    | .inception _, hest =>
      exact ⟨Establishment.Portable.sized hest, Establishment.Portable.witnesses_length hest⟩
    | .delegatedInception _ _, ⟨hest, hdelegator⟩ =>
      exact ⟨⟨hest.sized, hest.witnesses_length⟩, hdelegator.1.trans_lt (by decide)⟩
    | .rotation _, hest => exact Establishment.Portable.sized hest
    | .interaction _, hlength => exact lt_of_le_of_lt hlength (by decide)
    | .seal _, ⟨hlength, hseals⟩ =>
      exact ⟨hlength.trans_lt (by decide), fun s hs => (hseals s hs).device.1.trans_lt (by decide)⟩

lemma Event.Built.sized [LawfulKeys] (h : e.Built signers)
    (hsignatures : e.signatures.length < 2 ^ 32) : e.Sized where
  scid := (scidText_of_validateScid h.scid.validateScid).length_le.trans_lt (by decide)
  prior := h.prior.trans_lt (by decide)
  signatures := hsignatures
  kind := by
    have hcount : signers.length < 2 ^ 32 := by
      rwa [h.signed.length_eq, length_map] at hsignatures
    match e.kind, h.kind with
    | .inception _, ⟨hest, hnone⟩ => exact ⟨hest.sized h.suite hcount, by simp [hnone]⟩
    | .delegatedInception _ _, ⟨⟨hest, hnone⟩, d, hd, hdelegator⟩ =>
      refine ⟨⟨hest.sized h.suite hcount, by simp [hnone]⟩, ?_⟩
      rw [hdelegator]
      exact (didText_of_valid hd).length_le.trans_lt (by decide)
    | .rotation _, hest => exact Establishment.Built.sized hest h.suite hcount
    | .interaction _, hlength => exact lt_of_le_of_lt hlength (by decide)
    | .seal _, ⟨hlength, hseals⟩ =>
      refine ⟨hlength.trans_lt (by decide), fun s hs => ?_⟩
      obtain ⟨⟨d, hd⟩, -⟩ := hseals s hs
      exact (didPortable_of_parse hd).1.trans_lt (by decide)

/-! ### The layout determines the event -/

section

omit [KeyPrimitives]

lemma tag_injective : Function.Injective SignatureSuite.tag := by
  intro a b h
  have hok := SignatureSuite.fromTag_tag a
  rw [h, SignatureSuite.fromTag_tag] at hok
  exact (Except.ok.inj hok).symm

lemma encodeKey_append_inj {a b : VerifyingKey} (ha : a.bytes.length < 2 ^ 32)
    (hb : b.bytes.length < 2 ^ 32) (h : encodeKey a ++ r = encodeKey b ++ s) : a = b ∧ r = s := by
  obtain ⟨htag, h⟩ := List.cons.inj h
  obtain ⟨hbytes, hrest⟩ := framed_append_inj ha hb h
  obtain ⟨sa, ba⟩ := a
  obtain ⟨sb, bb⟩ := b
  obtain rfl := tag_injective htag
  obtain rfl : ba = bb := hbytes
  exact ⟨rfl, hrest⟩

lemma encodeSig_append_inj {a b : IndexedSig} (h : encodeSig a ++ r = encodeSig b ++ s) :
    a = b ∧ r = s := by
  have hfit : ∀ x : Signature, x.bytes.length < 2 ^ 32 := fun x => by
    rw [x.length_eq]
    cases x.suite <;> decide
  simp only [encodeSig, append_assoc] at h
  obtain ⟨hindex, h⟩ := append_inj h (by simp)
  obtain ⟨htag, h⟩ := append_inj h rfl
  obtain ⟨hbytes, hrest⟩ := framed_append_inj (hfit _) (hfit _) h
  obtain ⟨ia, sa, ba, hla⟩ := a
  obtain ⟨ib, sb, bb, hlb⟩ := b
  obtain rfl := toBeBytes_injective hindex
  obtain rfl : sa = sb := tag_injective (singleton_inj.mp htag)
  obtain rfl : ba = bb := hbytes
  exact ⟨rfl, hrest⟩

lemma encodeSigs_inj {a b : List IndexedSig} (ha : a.length < 2 ^ 32) (hb : b.length < 2 ^ 32)
    (h : encodeSigs a = encodeSigs b) : a = b := by
  refine (counted_append_inj (r := []) (s := []) (fun x _ y _ _ _ => encodeSig_append_inj) ha hb ?_).1
  simpa [encodeSigs] using h

lemma Seal.encode_append_inj {a b : Seal} (ha : (utf8 a.device).length < 2 ^ 32)
    (hb : (utf8 b.device).length < 2 ^ 32) (h : a.encode ++ r = b.encode ++ s) : a = b ∧ r = s := by
  match a, b with
  | .delegate d c, .delegate d' c' =>
    simp only [Seal.encode, append_assoc] at h
    obtain ⟨-, h⟩ := List.cons.inj h
    obtain ⟨hdevice, h⟩ := framed_append_inj ha hb h
    obtain ⟨hbits, hrest⟩ := append_inj h (by simp)
    obtain rfl := utf8_injective hdevice
    obtain ⟨bits⟩ := c
    obtain ⟨bits'⟩ := c'
    obtain rfl : bits = bits' := toBeBytes_injective hbits
    exact ⟨rfl, hrest⟩
  | .revoke d, .revoke d' =>
    simp only [Seal.encode, append_assoc] at h
    obtain ⟨-, h⟩ := List.cons.inj h
    obtain ⟨hdevice, hrest⟩ := framed_append_inj ha hb h
    obtain rfl := utf8_injective hdevice
    exact ⟨rfl, hrest⟩
  | .delegate _ _, .revoke _ => exact absurd (List.cons.inj h).1 (by decide)
  | .revoke _, .delegate _ _ => exact absurd (List.cons.inj h).1 (by decide)

/-- A count that fits a byte. -/
lemma countBytes_of_lt {n : ℕ} (h : n < 256) : countBytes UInt32 n = [0, 0, 0, UInt8.ofNat n] := by
  have hnat : (UInt32.ofNat n).toNat = n := UInt32.toNat_ofNat_of_lt' (h.trans (by decide))
  have hhigh : n / 256 = 0 := Nat.div_eq_of_lt h
  change beBytes 4 (UInt32.ofNat n).toNat = _
  rw [hnat]
  simp [beBytes, hhigh]

lemma anchor_append_inj {a b : Hash} (h : framed UInt32 a.bytes ++ r = framed UInt32 b.bytes ++ s) :
    a = b ∧ r = s := by
  obtain ⟨hbytes, hrest⟩ := framed_append_inj (by simp) (by simp) h
  exact ⟨Hash.bytes_injective hbytes, hrest⟩

end

/-- What follows the commitments to the next keys does not look like more of them: it would have
more witnesses than the decoder reads, and the string of the first would have a zero byte. -/
lemma not_overrun_next [LawfulKeys] {next : List Bytes}
    (hnext : ∀ commitment ∈ next, ∃ m, Multihash.fromBytes commitment = .ok m)
    {nextThreshold : UInt32} (hwitnesses : WitnessesSized witnesses) {rest : Bytes} :
    ¬ Overrun (framed UInt32) next (toBeBytes nextThreshold ++
      (countBytes UInt32 witnesses.length ++ (witnesses.flatMap (framed UInt32) ++ rest))) := by
  rintro ⟨-, x, hx, y, hy, tail, h⟩
  obtain ⟨mx, hmx⟩ := hnext x hx
  obtain ⟨my, hmy⟩ := hnext y hy
  obtain ⟨hlength, hxbytes⟩ := Multihash.eq_of_fromBytes hmx
  have hyheader : countBytes UInt32 y.length = [0, 0, 0, 34] := by
    rw [Multihash.length_of_fromBytes hmy, countBytes_of_lt (by decide)]
    rfl
  simp only [framed, append_assoc, hyheader] at h
  obtain ⟨-, h⟩ := append_inj h (by simp)
  -- the number of witnesses begins with the code of a hash algorithm
  have hmany : ¬ witnesses.length ≤ maxWitnesses := by
    intro hle
    rw [countBytes_of_lt (hle.trans_lt (by decide)), hxbytes] at h
    have hcode := (List.cons.inj h).1
    split_ifs at hcode <;> exact absurd hcode (by decide)
  rcases hwitnesses with ⟨hle, -⟩ | hdids
  · exact hmany hle
  cases witnesses with
  | nil => exact hmany (by simp)
  | cons w ws =>
    obtain ⟨d, hd, rfl⟩ := hdids w (by simp)
    have htext := didText_of_valid hd
    have hlong : 26 < (utf8 d.asStr).length := by
      have := htext.length_ge
      omega
    -- the length of the second commitment begins inside the first witness
    have hbyte := congrArg (fun bs : Bytes => bs[34]?) h
    have hright : (x ++ ([0, 0, 0, 34] ++ (y ++ tail)))[34]? = some 0 := by
      rw [List.getElem?_append_right (by rw [Multihash.length_of_fromBytes hmx]),
        Multihash.length_of_fromBytes hmx]
      rfl
    simp only [hright, flatMap_cons, framed, append_assoc] at hbyte
    rw [List.getElem?_append_right (by simp), List.getElem?_append_right (by simp),
      List.getElem?_append_left (by simpa using hlong)] at hbyte
    exact htext.zero_notMem (mem_of_getElem? hbyte)

/-- What follows the witnesses does not look like more of them: the suite of the first signature
would be a letter of the method. -/
lemma not_overrun_witnesses [LawfulKeys] (hwitnesses : WitnessesSized witnesses)
    {others : List Bytes} {witnessThreshold : UInt32} {sigs : List IndexedSig}
    (hsigs : sigs.length < 2 ^ 32) : ¬ Overrun (framed UInt32) witnesses
      ((if others.isEmpty then [] else toBeBytes witnessThreshold) ++ encodeSigs sigs) := by
  rintro ⟨hmany, x, hx, y, hy, tail, h⟩
  have htag : ∀ suite : SignatureSuite, suite.tag ≠ 0x6d ∧ suite.tag ≠ 0x3a := by
    intro suite
    cases suite <;> decide
  rcases hwitnesses with ⟨hfew, -⟩ | hdids
  · exact absurd (hmany.trans hfew) (by decide)
  obtain ⟨d, hd, rfl⟩ := hdids x hx
  have htext := didText_of_valid hd
  have hmethod : utf8 d.asStr =
      [0x64, 0x69, 0x64, 0x3a] ++ ([0x6d, 0x69, 0x6e, 0x69] ++ ([0x3a] ++ utf8 d.scid)) :=
    utf8_asStr d
  split_ifs at h with hempty
  · simp only [encodeSigs, framed, nil_append, append_assoc] at h
    have hlength := (countBytes_append_inj hsigs (htext.length_le.trans_lt (by decide)) h).1
    obtain ⟨-, h⟩ := append_inj h (by simp)
    cases sigs with
    | nil =>
      have := htext.length_ge
      simp only [length_nil] at hlength
      omega
    | cons s sigs =>
      simp only [hmethod, flatMap_cons, encodeSig, append_assoc] at h
      obtain ⟨-, h⟩ := append_inj h (by simp)
      exact (htag s.signature.suite).1 (List.cons.inj h).1
  · simp only [encodeSigs, framed, hmethod, append_assoc] at h
    obtain ⟨-, h⟩ := append_inj h (by simp)
    obtain ⟨hcount, h⟩ := append_inj h (by simp)
    cases sigs with
    | nil => exact absurd hcount (by decide)
    | cons s sigs =>
      simp only [flatMap_cons, encodeSig, append_assoc] at h
      obtain ⟨-, h⟩ := append_inj h (by simp)
      exact (htag s.signature.suite).2 (List.cons.inj h).1

/-- Establishments are told apart, unless the witnesses of one overrun their count. -/
lemma Establishment.encode_append_inj [LawfulKeys] (ha : a.Sized) (hb : b.Sized)
    (hab : ¬ Overrun (framed UInt32) b.witnesses
      ((if a.witnesses.isEmpty then [] else toBeBytes a.witnessThreshold) ++ r))
    (hba : ¬ Overrun (framed UInt32) a.witnesses
      ((if b.witnesses.isEmpty then [] else toBeBytes b.witnessThreshold) ++ s))
    (h : a.encode ++ r = b.encode ++ s) : a = b ∧ r = s := by
  have hnextLength : ∀ {est : Establishment}, est.Sized →
      ∀ commitment ∈ est.next, commitment.length < 2 ^ 32 := fun hest commitment hmem => by
    obtain ⟨m, hm⟩ := hest.valid.multihash commitment hmem
    rw [Multihash.length_of_fromBytes hm]
    decide
  simp only [Establishment.encode, append_assoc] at h
  obtain ⟨hkeys, h⟩ := counted_append_inj (fun x hx y hy _ _ =>
    encodeKey_append_inj (ha.keys x hx) (hb.keys y hy)) ha.keys_length hb.keys_length h
  obtain ⟨hthreshold, h⟩ := append_inj h (by simp)
  rcases counted_append_cases (fun x hx y hy _ _ =>
    framed_append_inj (hnextLength ha x hx) (hnextLength hb y hy)) h with ⟨hnext, h⟩ | hover | hover
  · obtain ⟨hnextThreshold, h⟩ := append_inj h (by simp)
    rcases counted_append_cases (fun x hx y hy _ _ =>
      framed_append_inj (ha.witnesses.length_lt x hx) (hb.witnesses.length_lt y hy)) h with
      ⟨hwitnesses, h⟩ | hover | hover
    · obtain ⟨ka, ta, na, nta, wa, wta⟩ := a
      obtain ⟨kb, tb, nb, ntb, wb, wtb⟩ := b
      obtain rfl : ka = kb := hkeys
      obtain rfl : ta = tb := toBeBytes_injective hthreshold
      obtain rfl : na = nb := hnext
      obtain rfl : nta = ntb := toBeBytes_injective hnextThreshold
      obtain rfl : wa = wb := hwitnesses
      dsimp only at h
      split_ifs at h with hempty
      · -- the threshold is not written, and both are zero
        have hzero : ∀ {est : Establishment}, est.Valid → est.witnesses.isEmpty →
            est.witnessThreshold = 0 := fun hest hnone => by
          rw [List.isEmpty_iff] at hnone
          rcases hest.witnesses with ⟨-, hthreshold⟩ | ⟨hpos, hle, -⟩
          · exact hthreshold
          · rw [hnone, length_nil] at hle
            omega
        obtain rfl : wta = wtb := (hzero ha.valid hempty).trans (hzero hb.valid hempty).symm
        exact ⟨rfl, by simpa using h⟩
      · obtain ⟨hwitnessThreshold, hrest⟩ := append_inj h (by simp)
        obtain rfl : wta = wtb := toBeBytes_injective hwitnessThreshold
        exact ⟨rfl, hrest⟩
    · exact absurd hover hab
    · exact absurd hover hba
  · exact absurd hover (not_overrun_next hb.valid.multihash ha.witnesses)
  · exact absurd hover (not_overrun_next ha.valid.multihash hb.witnesses)

/-- The witnesses of an inception are few. -/
lemma Establishment.encode_append_inj_of_le [LawfulKeys]
    (ha : a.Sized ∧ a.witnesses.length ≤ maxWitnesses)
    (hb : b.Sized ∧ b.witnesses.length ≤ maxWitnesses) (h : a.encode ++ r = b.encode ++ s) :
    a = b ∧ r = s :=
  Establishment.encode_append_inj ha.1 hb.1
    (fun hover => absurd (hover.1.trans hb.2) (by decide))
    (fun hover => absurd (hover.1.trans ha.2) (by decide)) h

/-- Before signatures, kinds of events are told apart. -/
lemma EventKind.encode_append_inj [LawfulKeys] {a b : EventKind} {sa sb : List IndexedSig}
    (ha : a.Sized) (hb : b.Sized) (hsa : sa.length < 2 ^ 32) (hsb : sb.length < 2 ^ 32)
    (htag : a.tag = b.tag) (h : a.encode ++ encodeSigs sa = b.encode ++ encodeSigs sb) :
    a = b ∧ sa = sb := by
  cases a <;> cases b <;> simp [EventKind.tag] at htag
  case inception.inception =>
    obtain ⟨rfl, hsigs⟩ := Establishment.encode_append_inj_of_le ha hb h
    exact ⟨rfl, encodeSigs_inj hsa hsb hsigs⟩
  case delegatedInception.delegatedInception =>
    obtain ⟨ha, hda⟩ := ha
    obtain ⟨hb, hdb⟩ := hb
    simp only [EventKind.encode, append_assoc] at h
    obtain ⟨rfl, hrest⟩ := Establishment.encode_append_inj_of_le ha hb h
    obtain ⟨hdelegator, hsigs⟩ := framed_append_inj hda hdb hrest
    obtain rfl := utf8_injective hdelegator
    exact ⟨rfl, encodeSigs_inj hsa hsb hsigs⟩
  case rotation.rotation ea eb =>
    have ha : ea.Sized := ha
    have hb : eb.Sized := hb
    have h : ea.encode ++ encodeSigs sa = eb.encode ++ encodeSigs sb := h
    obtain ⟨rfl, hsigs⟩ := Establishment.encode_append_inj ha hb
      (not_overrun_witnesses hb.witnesses hsa) (not_overrun_witnesses ha.witnesses hsb) h
    exact ⟨rfl, encodeSigs_inj hsa hsb hsigs⟩
  case interaction.interaction =>
    simp only [EventKind.encode, append_assoc] at h
    obtain ⟨rfl, hsigs⟩ := counted_append_inj (fun _ _ _ _ _ _ => anchor_append_inj) ha hb h
    exact ⟨rfl, encodeSigs_inj hsa hsb hsigs⟩
  case seal.seal =>
    simp only [EventKind.encode, append_assoc] at h
    obtain ⟨rfl, hsigs⟩ := counted_append_inj (fun x hx y hy _ _ =>
      Seal.encode_append_inj (ha.2 x hx) (hb.2 y hy)) ha.1 hb.1 h
    exact ⟨rfl, encodeSigs_inj hsa hsb hsigs⟩

/-- The byte layout determines the event. -/
lemma Event.Sized.fullBytes_inj [LawfulKeys] {a b : Event} (ha : a.Sized) (hb : b.Sized)
    (h : a.fullBytes = b.fullBytes) : a = b := by
  simp only [Event.fullBytes, Event.encode, reduceCtorEq, if_false, if_true, append_assoc] at h
  obtain ⟨htag, h⟩ := append_inj h rfl
  obtain ⟨hsuite, h⟩ := append_inj h rfl
  obtain ⟨hscid, h⟩ := framed_append_inj ha.scid hb.scid h
  obtain ⟨hsn, h⟩ := append_inj h (by simp)
  obtain ⟨hprior, h⟩ := framed_append_inj ha.prior hb.prior h
  obtain ⟨hkind, hsigs⟩ := EventKind.encode_append_inj ha.kind hb.kind ha.signatures hb.signatures
    (singleton_inj.mp htag) h
  obtain ⟨sa, ia, na, pa, ka, xa⟩ := a
  obtain ⟨sb, ib, nb, pb, kb, xb⟩ := b
  obtain rfl : sa = sb := tag_injective (singleton_inj.mp hsuite)
  obtain rfl : ia = ib := utf8_injective hscid
  obtain rfl : na = nb := toBeBytes_injective hsn
  obtain rfl : pa = pb := hprior
  obtain rfl : ka = kb := hkind
  obtain rfl : xa = xb := hsigs
  rfl

/-! ### Signatures are counted right -/

namespace Controller

/-- If the log of a controller replays, it does to what the controller holds, and the signatures of
its events were counted right. -/
def Settled (c : Controller) : Prop :=
  ∀ r, Kel.replay c.scid c.events = .ok r →
    c.Agrees r ∧ ∀ e ∈ c.events, e.signatures.length < 2 ^ 32

variable {c : Controller} {kind : EventKind} {ev : Event} {signers : List SigningKey}

/-- An event that all signers signed and that reaches a threshold has few of them. -/
lemma Builds.signatures_lt [LawfulKeys] {threshold : UInt32} (h : c.Builds kind signers ev)
    (hnodup : ((signers.map SigningKey.verifyingKey).map keyFingerprint).Nodup)
    (hpos : 0 < threshold.toNat) (hle : threshold.toNat ≤ signers.length)
    (hsigned : verifyThreshold ev (signers.map SigningKey.verifyingKey) threshold = .ok ()) :
    ev.signatures.length < 2 ^ 32 := by
  obtain ⟨_, _, hsign⟩ := h
  rw [(signEvent_signatures hsign).2.1]
  exact (verifyThreshold_signEvent hsign hnodup hpos hle).mp hsigned

lemma Builds.ne_nil (h : c.Builds kind signers ev) : c.events ≠ [] := by
  obtain ⟨last, hlast, -⟩ := h
  intro hnil
  rw [hnil] at hlast
  cases hlast

omit [KeyPrimitives] in
lemma signatures_append {events : List Event} (h : ∀ e ∈ events, e.signatures.length < 2 ^ 32)
    (hev : ev.signatures.length < 2 ^ 32) : ∀ e ∈ events ++ [ev], e.signatures.length < 2 ^ 32 := by
  intro e he
  rcases mem_append.mp he with he | he
  · exact h e he
  · rwa [mem_singleton.mp he]

lemma Settled.move [LawfulKeys] {c' : Controller} (h : c.Settled) (hmove : Move c kind c') :
    c'.Settled := by
  -- an event that leaves the keys alone, signed by those the controller holds
  have hother : ∀ {kind : EventKind} {ev : Event}, kind.establishment? = none →
      c.Builds kind c.current ev →
      Settled { c with events := c.events ++ [ev] } := by
    intro kind ev hkind built r' hr'
    obtain ⟨r, hr, hev⟩ := (Kel.replay_append_ok built.ne_nil).mp hr'
    obtain ⟨hagrees, hevents⟩ := h r hr
    have hr'' := Kel.controlled_of_replay hr
    obtain ⟨-, rfl⟩ := hagrees.chained built
    cases hev with
    | rotation est kind chained valid keys threshold signed =>
      rw [kind] at hkind
      cases hkind
    | other kind chained signed =>
      have hnodup := hr''.keys_nodup
      have hle := hr''.threshold_le
      rw [hagrees.keys] at hnodup hle signed
      rw [length_map] at hle
      exact ⟨⟨hr', hagrees.keys, hagrees.threshold, hagrees.next, hagrees.nextThreshold⟩,
        signatures_append hevents (built.signatures_lt hnodup hr''.threshold_pos hle signed)⟩
  cases hmove with
  | rotation valid built =>
    intro r' hr'
    obtain ⟨r, hr, hev⟩ := (Kel.replay_append_ok built.ne_nil).mp hr'
    obtain ⟨hagrees, hevents⟩ := h r hr
    obtain ⟨-, hkind⟩ := hagrees.chained built
    cases hev with
    | rotation est kind chained valid' keys threshold signed =>
      obtain rfl := EventKind.rotation.inj (kind.symm.trans hkind)
      have hest := validateEstablishment_ok.mp valid
      have hle := hest.threshold_le
      rw [establishing, length_map] at hle
      exact ⟨⟨hr', rfl, rfl, rfl, rfl⟩,
        signatures_append hevents (built.signatures_lt hest.keys_nodup hest.threshold_pos hle signed)⟩
    | other kind chained signed =>
      rw [hkind] at kind
      cases kind
  | interaction length_le built | sealed length_le devices built => exact hother rfl built

lemma settled_of_inceptInner [LawfulKeys] {current next : List SigningKey} {t nt : UInt32}
    {delegator : Option Did} (h : inceptInner current t next nt delegator = .ok c) : c.Settled := by
  intro r hr
  obtain ⟨hagrees, hcount⟩ := agrees_of_replay h hr
  obtain ⟨scid, suite, icp, -, hsign, -, rfl⟩ := inceptInner_ok h
  refine ⟨hagrees, forall_mem_singleton.mpr ?_⟩
  rwa [(signEvent_signatures hsign).2.1]

/-- A controller that agrees with some replay agrees with every one: there is only one. -/
lemma Agrees.of_replay {r r' : Replay} (h : c.Agrees r') (hr : Kel.replay c.scid c.events = .ok r) :
    c.Agrees r :=
  Except.ok.inj (h.replay_eq.symm.trans hr) ▸ h

end Controller

/-- The signatures of a log that verifies were counted right. -/
lemma signatures_of_obtained [LawfulKeys] {x : Kel ⊕ Controller} (h : Obtained Decoded held x) :
    match x with
    | .inl kel => ∀ r, Kel.replay kel.scid kel.events = .ok r →
        ∀ e ∈ kel.events, e.signatures.length < 2 ^ 32
    | .inr c => c.Settled := by
  induction h with
  | given given_kel =>
    obtain ⟨bytes, hbytes⟩ := given_kel
    exact fun _ _ e he =>
      ((Kel.fromBytes_ok.mp hbytes).2.events e he).2.signatures.trans_lt (by decide)
  | incept incepted held_c
  | inceptDevice valid incepted held_c => exact Controller.settled_of_inceptInner incepted
  | restore obtained restored held_c ih =>
    intro r hr
    obtain ⟨_, hagrees⟩ := Controller.agrees_of_restore restored
    obtain ⟨suite, state, -, -, -, rfl⟩ := Controller.restore_ok restored
    exact ⟨hagrees.of_replay hr, ih r hr⟩
  | recoverFromKel obtained recovered held_c ih =>
    intro r' hr'
    obtain ⟨_, hagrees⟩ := Controller.agrees_of_recoverFromKel recovered
    refine ⟨hagrees.of_replay hr', ?_⟩
    obtain ⟨-, suite, state, ev, -, -, hvalid, hbuilt, rfl⟩ :=
      Controller.recoverFromKel_ok recovered
    obtain ⟨r, hr, hev⟩ := (Kel.replay_append_ok hbuilt.ne_nil).mp hr'
    refine Controller.signatures_append (ih r hr) ?_
    have hest := validateEstablishment_ok.mp hvalid
    have hle := hest.threshold_le
    rw [establishing, length_map] at hle
    cases hev with
    | rotation est kind chained valid keys threshold signed =>
      obtain rfl := EventKind.rotation.inj (kind.symm.trans hbuilt.kind_eq)
      exact hbuilt.signatures_lt hest.keys_nodup hest.threshold_pos hle signed
    | other kind chained signed =>
      rw [hbuilt.kind_eq] at kind
      cases kind
  | call obtained typed performed held_c ih =>
    obtain ⟨kinds, -, hmoves⟩ := Controller.Call.perform_ok performed
    exact hmoves.invariant (P := Controller.Settled) (fun _ _ _ hc hmove => hc.move hmove) ih
  | kel obtained ih => exact fun r hr => (ih r hr).2

/-- The layout of every event of a log that can be obtained and verifies determines it. -/
lemma sized_of_obtained [LawfulKeys] {kel : Kel} {r : Replay}
    (h : Obtained Decoded held (.inl kel)) (hr : Kel.replay kel.scid kel.events = .ok r) :
    ∀ e ∈ kel.events, e.Sized := by
  intro e he
  have hsignatures : e.signatures.length < 2 ^ 32 := signatures_of_obtained h r hr e he
  rcases genuine_of_obtained h e he with hportable | ⟨signers, hbuilt⟩
  · exact hportable.sized
  · exact hbuilt.sized hsignatures

/-! ### The chain of digests -/

/-- Digests tell some events apart. -/
def DigestsDiffer (events : Event → Prop) : Prop :=
  ∀ a b, events a → events b → a.digest = b.digest → a = b

/-- Histories with the same last digest are the same, event by event. -/
lemma Kel.eq_of_prevDigest {known : Event → Prop} (hdigest : DigestsDiffer known)
    {sa sb : String} {as bs : List Event} {ra rb : Replay} (has : ∀ e ∈ as, known e)
    (hbs : ∀ e ∈ bs, known e) (ha : replay sa as = .ok ra) (hb : replay sb bs = .ok rb)
    (h : ra.prevDigest = rb.prevDigest) : sa = sb ∧ as = bs := by
  induction as using List.reverseRecOn generalizing bs ra rb with
  | nil => cases ha
  | append_singleton as x ih =>
    obtain ⟨bs, y, rfl⟩ := (eq_nil_or_concat' bs).resolve_left (ne_nil_of_replay hb)
    obtain ⟨_, hx, hra⟩ := prevDigest_of_replay ha
    obtain ⟨_, hy, hrb⟩ := prevDigest_of_replay hb
    rw [List.getLast?_concat] at hx hy
    cases hx
    cases hy
    obtain rfl : x = y := hdigest x y (has x (by simp)) (hbs y (by simp)) (by rw [← hra, h, hrb])
    by_cases has' : as = []
    · subst has'
      obtain ⟨icp, hicp, -⟩ := replay_singleton_ok.mp ha
      by_cases hbs' : bs = []
      · subst hbs'
        obtain ⟨icp', hicp', -⟩ := replay_singleton_ok.mp hb
        exact ⟨hicp.scid_eq.symm.trans hicp'.scid_eq, rfl⟩
      · obtain ⟨mid, hmid, hlast⟩ := (replay_append_ok hbs').mp hb
        exact absurd (hlast.chained.prior_eq.symm.trans hicp.prior_eq) (prevDigest_ne_nil hmid)
    · obtain ⟨mida, hmida, hlasta⟩ := (replay_append_ok has').mp ha
      by_cases hbs' : bs = []
      · subst hbs'
        obtain ⟨icp, hicp, -⟩ := replay_singleton_ok.mp hb
        exact absurd (hlasta.chained.prior_eq.symm.trans hicp.prior_eq) (prevDigest_ne_nil hmida)
      · obtain ⟨midb, hmidb, hlastb⟩ := (replay_append_ok hbs').mp hb
        obtain ⟨hscid, rfl⟩ := ih (fun e he => has e (by simp [he])) (fun e he => hbs e (by simp [he]))
          hmida hmidb (hlasta.chained.prior_eq.symm.trans hlastb.chained.prior_eq)
        exact ⟨hscid, rfl⟩

end

/-- The log of a sample identity verifies. -/
lemma Controller.sample_verify {c : Controller} {i j : ℕ}
    (h : @Controller.incept .sample [sampleKey i] 1 [sampleKey j] 1 = .ok c) :
    @Kel.verify .sample c.kel = .ok (@Controller.keyState .sample c) := by
  let := KeyPrimitives.sample
  have := lawfulKeys_sample
  have h : inceptInner [sampleKey i] 1 [sampleKey j] 1 none = .ok c := h
  obtain ⟨scid, suite, icp, -, -, -, hc⟩ := inceptInner_ok h
  obtain ⟨r, hr⟩ := agrees_of_inceptInner (by simp) h (by rw [hc]; exact nofun) (by rw [hc]; simp)
  exact hr.verify_kel

end Mininet.Identity
