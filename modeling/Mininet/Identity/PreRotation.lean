import Mininet.Identity.History

/-!
# Pre-rotation

Whoever holds the keys in control of an identity cannot rotate it: a rotation reveals the keys that
the last establishment committed to, and is signed by them. And nobody can start another history of
an identifier: it is derived from the inception, up to the signatures on it.
-/

namespace Mininet.Identity

open Codec Fallible List

section

variable [KeyPrimitives] {scid : String} {x y : Event}

namespace Kel

/-- The last establishment of a log is at index `e`. -/
structure LastEstablishmentAt (events : List Event) (e : ℕ) : Prop where
  establishes : ∃ ev est, events[e]? = some ev ∧ ev.kind.establishment? = some est
  after : ∀ ev ∈ events.drop (e + 1), ev.kind.establishment? = none

/-- The same keys are in control, and the same keys are committed to. -/
structure SameControl (r r' : Replay) : Prop where
  keys : r'.keys = r.keys
  threshold : r'.threshold = r.threshold
  next : r'.next = r.next
  nextThreshold : r'.nextThreshold = r.nextThreshold

/-- Where no rotation to the keys committed to is signed, control does not change. -/
lemma sameControl_of_replay {scid : String} {events rest : List Event} {r₀ r : Replay}
    (h₀ : replay scid events = .ok r₀) (h : replay scid (events ++ rest) = .ok r)
    (hnone : ∀ ev ∈ rest, ∀ est, ev.kind = .rotation est → est.keys.map keyCommitment = r₀.next →
      est.threshold = r₀.nextThreshold → verifyThreshold ev est.keys est.threshold ≠ .ok ()) :
    SameControl r₀ r ∧ ∀ ev ∈ rest, ev.kind.establishment? = none := by
  have hne := ne_nil_of_replay h₀
  -- along the events after, the first rotation would be one to the keys committed to
  induction rest using List.reverseRecOn generalizing r with
  | nil =>
    rw [append_nil, h₀] at h
    cases h
    exact ⟨⟨rfl, rfl, rfl, rfl⟩, by simp⟩
  | append_singleton rest ev ih =>
    rw [← append_assoc] at h
    obtain ⟨mid, hmid, hev⟩ := (replay_append_ok (by simp [hne])).mp h
    obtain ⟨hsame, hrest⟩ := ih hmid fun ev' hmem => hnone ev' (by simp [hmem])
    cases hev with
    | rotation est kind chained valid keys threshold signed =>
      exact absurd signed (hnone ev (by simp) est kind (keys.trans hsame.next)
        (threshold.trans hsame.nextThreshold))
    | other kind chained signed =>
      refine ⟨⟨hsame.keys, hsame.threshold, hsame.next, hsame.nextThreshold⟩, ?_⟩
      intro ev' hmem
      rcases mem_append.mp hmem with hmem | hmem
      · exact hrest ev' hmem
      · rwa [mem_singleton.mp hmem]

end Kel

/-- Fewer keys than the next threshold asks for, of those committed to, ever produced a valid
signature. -/
def NextKeysSilent (s : KeyState) (produced : VerifyingKey → Bytes → Signature → Prop) : Prop :=
  ∀ keys : List VerifyingKey, keys.Nodup →
    (∀ key ∈ keys, keyCommitment key ∈ s.nextCommitments ∧
      ∃ msg signature, produced key msg signature ∧ key.verify msg signature = .ok ()) →
    keys.length < s.nextThreshold.toNat

/-- The valid signatures in a log were produced by the keys they are valid under. -/
def Unforged (kel : Kel) (produced : VerifyingKey → Bytes → Signature → Prop) : Prop :=
  ∀ ev ∈ kel.events, ∀ s ∈ ev.signatures, ∀ key : VerifyingKey,
    key.verify ev.signingBytes s.signature = .ok () → produced key ev.signingBytes s.signature

/-- Keys that were not used do not rotate. -/
lemma NextKeysSilent.not_signed {s : KeyState}
    {produced : VerifyingKey → Bytes → Signature → Prop} (h : NextKeysSilent s produced)
    {kel : Kel} (hunforged : Unforged kel produced) {ev : Event} (hev : ev ∈ kel.events)
    {keys : List VerifyingKey} (hkeys : keys.map keyCommitment = s.nextCommitments) :
    verifyThreshold ev keys s.nextThreshold ≠ .ok () := by
  intro hsigned
  obtain ⟨-, hcount⟩ := verifyThreshold_ok.mp hsigned
  obtain ⟨signers, hnodup, hlength, hvalid⟩ := exists_signers ev.signingBytes keys ev.signatures
  have hfew := h signers hnodup fun key hkey => by
    obtain ⟨hmem, sig, hsig, hverify⟩ := hvalid key hkey
    exact ⟨hkeys ▸ mem_map_of_mem hmem, _, _, hunforged ev hev sig hsig key hverify, hverify⟩
  have hle := UInt32.le_iff_toNat_le.mp hcount
  omega

/-! ### One inception for each identifier -/

/-- What an identifier is derived from determines the inception, up to its signatures. -/
lemma encode_scidInput_inj [LawfulKeys] {ex ey : Establishment}
    (hx : Kel.Incepted scid x ex) (hy : Kel.Incepted scid y ey) (hxs : x.Sized) (hys : y.Sized)
    (h : x.encode .scidInput = y.encode .scidInput) :
    { x with signatures := [] } = { y with signatures := [] } := by
  simp only [Event.encode, reduceCtorEq, if_false, append_nil, append_assoc] at h
  obtain ⟨htag, h⟩ := append_inj h rfl
  obtain ⟨hsuite, h⟩ := append_inj h rfl
  obtain ⟨-, h⟩ := append_inj h rfl
  obtain ⟨-, h⟩ := append_inj h (by simp)
  rw [hx.prior_eq, hy.prior_eq] at h
  have hencode := append_cancel_left h
  have hkind : x.kind = y.kind := by
    have hxk := hxs.kind
    have hyk := hys.kind
    rcases hx.kind with hkx | ⟨dx, hkx⟩ <;> rcases hy.kind with hky | ⟨dy, hky⟩ <;>
      rw [hkx] at hxk hencode htag <;> rw [hky] at hyk hencode htag <;> rw [hkx, hky]
    · obtain ⟨rfl, -⟩ := Establishment.encode_append_inj_of_le (r := []) (s := []) hxk hyk
        (congrArg (· ++ []) hencode)
      rfl
    · exact absurd htag (by simp [EventKind.tag])
    · exact absurd htag (by simp [EventKind.tag])
    · obtain ⟨hxk, hdx⟩ := hxk
      obtain ⟨hyk, hdy⟩ := hyk
      obtain ⟨rfl, hdelegator⟩ := Establishment.encode_append_inj_of_le hxk hyk hencode
      obtain ⟨hdelegator, -⟩ := framed_append_inj (r := []) (s := []) hdx hdy
        (congrArg (· ++ []) hdelegator)
      rw [utf8_injective hdelegator]
  obtain ⟨sx, ix, nx, px, kx, gx⟩ := x
  obtain ⟨sy, iy, ny, py, ky, gy⟩ := y
  obtain rfl : sx = sy := tag_injective (singleton_inj.mp hsuite)
  obtain rfl : ix = iy := hx.scid_eq.trans hy.scid_eq.symm
  obtain rfl : nx = ny := hx.sn_eq.trans hy.sn_eq.symm
  obtain rfl : px = py := hx.prior_eq.trans hy.prior_eq.symm
  obtain rfl : kx = ky := hkind
  rfl

/-- The digest in a derived identifier. -/
lemma blake3_of_deriveScid [LawfulKeys] (h : deriveScid x = deriveScid y) :
    blake3 (x.encode .scidInput) = blake3 (y.encode .scidInput) := by
  have hbody : base58 (multihash (x.encode .scidInput)) =
      base58 (multihash (y.encode .scidInput)) := by
    have hlist := congrArg String.toList h
    simpa [deriveScid, String.toList_inj] using hlist
  have hdecoded := LawfulKeys.base58Decode_base58 (multihash (x.encode .scidInput))
  rw [hbody, LawfulKeys.base58Decode_base58] at hdecoded
  exact Hash.bytes_injective (append_cancel_left (Option.some.inj hdecoded).symm)

/-- The first event of a log that replays. -/
lemma Kel.incepted_of_replay {events : List Event} {r : Replay} {first : Event}
    (h : replay scid events = .ok r) (hfirst : events.head? = some first) :
    ∃ icp, Incepted scid first icp := by
  obtain ⟨rest, rfl⟩ := List.head?_eq_some_iff.mp hfirst
  obtain ⟨r₀, h₀, -⟩ := bind_ok.mp h
  obtain ⟨icp, hicp, -⟩ := verifyInception_ok.mp h₀
  exact ⟨icp, hicp⟩

end

/-- Only the key itself makes a signature that verifies under it. -/
lemma sample_verify_ok {key : VerifyingKey} {i : ℕ} {msg : Bytes} {signature : Signature}
    (hsign : @SigningKey.sign .sample (sampleKey i) msg = some signature)
    (h : @VerifyingKey.verify KeyPrimitives.sample.toPrimitives key msg signature = .ok ()) :
    key = @SigningKey.verifyingKey .sample (sampleKey i) := by
  let := KeyPrimitives.sample
  cases hsign
  obtain ⟨suite, bytes⟩ := key
  rw [VerifyingKey.verify] at h
  split_ifs at h with hsuite
  obtain rfl : suite = .ed25519 := (not_not.mp hsuite).symm
  dsimp only at h
  split_ifs at h with hvalid
  have hbytes : (sampleSeed i ++ blake3 msg).toList = bytes ++ (blake3 msg).bytes :=
    of_decide_eq_true hvalid
  rw [Vector.toList_append] at hbytes
  exact congrArg _ (append_cancel_right hbytes).symm

end Mininet.Identity
