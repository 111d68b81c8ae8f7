import Mininet.Identity.Controller

/-!
# Where logs and controllers come from

A key event log is read from bytes or exported by a controller; a controller is incepted, restored or
recovered from a log, or left by a call. `Obtained` is what can come about this way, from given logs
and with a condition on every controller on the way. The log of such a controller verifies to the
key state the controller sees.
-/

namespace Mininet.Identity

open Codec Fallible Stateful List

section

variable [KeyPrimitives]

/-- The arguments of a call are values of their types in the source: identifiers have been parsed,
and capabilities are known. -/
def Controller.Call.Typed : Controller.Call → Prop
  | .appointWitnesses _ witnesses _     => ∀ w ∈ witnesses, w.Valid
  | .sealAll seals                      => ∀ s ∈ seals, s.Known
  | .delegateDevice device capabilities =>
    device.Valid ∧ (Seal.delegate device.asStr capabilities).Known
  | .revokeDevice device                => device.Valid
  | .revokeDevicesExcept keep           => ∀ k ∈ keep, k.Valid
  | _                                   => True

/-- What can be obtained from the logs that are `given`, by controllers that are all `held`. -/
inductive Obtained (given : Kel → Prop) (held : Controller → Prop) : Kel ⊕ Controller → Prop
  | given {kel : Kel} (given_kel : given kel) : Obtained given held (.inl kel)
  | incept {current next : List SigningKey} {t nt : UInt32} {c : Controller}
      (incepted : Controller.incept current t next nt = .ok c) (held_c : held c) :
      Obtained given held (.inr c)
  | inceptDevice {delegator : Did} {current next : List SigningKey} {t nt : UInt32}
      {c : Controller} (valid : delegator.Valid)
      (incepted : Controller.inceptDevice delegator current t next nt = .ok c) (held_c : held c) :
      Obtained given held (.inr c)
  | restore {kel : Kel} {current next : List SigningKey} {c : Controller}
      (obtained : Obtained given held (.inl kel))
      (restored : Controller.restore kel current next = .ok c) (held_c : held c) :
      Obtained given held (.inr c)
  | recoverFromKel {kel : Kel} {recovered newNext : List SigningKey} {nt : UInt32}
      {c : Controller} (obtained : Obtained given held (.inl kel))
      (recover : Controller.recoverFromKel kel recovered newNext nt = .ok c) (held_c : held c) :
      Obtained given held (.inr c)
  | call {call : Controller.Call} {c c' : Controller} (obtained : Obtained given held (.inr c))
      (typed : call.Typed) (performed : call.perform.on c = (.ok (), c')) (held_c : held c') :
      Obtained given held (.inr c')
  | kel {c : Controller} (obtained : Obtained given held (.inr c)) : Obtained given held (.inl c.kel)

namespace Controller

/-! ### Signed events -/

variable {signers current next : List SigningKey} {event signed ev : Event} {c c' : Controller}
  {kind : EventKind} {r : Replay} {t nt : UInt32} {delegator : Option Did} {kel : Kel}
  {kinds : List EventKind} {recovered newNext : List SigningKey} {sigs : List IndexedSig}
  {msg : Bytes}

/-- Every signer gives one signature, at its index. -/
lemma signatures_of_mapM
    (h : (signers.zipIdx.mapM fun (sk, i) => (sk.sign msg).map fun signature =>
      (⟨UInt32.ofNat i, signature⟩ : IndexedSig)) = some sigs) :
    sigs.length = signers.length ∧
      ∀ (i : ℕ) (sk : SigningKey), signers[i]? = some sk →
        ∃ signature, sk.sign msg = some signature ∧ sigs[i]? = some ⟨UInt32.ofNat i, signature⟩ := by
  obtain ⟨hlength, hget⟩ := forall₂_iff_get.mp (mapM_some_iff.mp h)
  rw [length_zipIdx] at hlength
  refine ⟨hlength.symm, fun i sk hsk => ?_⟩
  obtain ⟨hi, rfl⟩ := List.getElem?_eq_some_iff.mp hsk
  have hi' : i < sigs.length := hlength ▸ hi
  have hsign := hget i (by rw [length_zipIdx]; exact hi) hi'
  simp only [get_eq_getElem, getElem_zipIdx, Nat.zero_add] at hsign
  obtain ⟨signature, hsignature, hs⟩ := Option.map_eq_some_iff.mp hsign
  exact ⟨signature, hsignature, by rw [List.getElem?_eq_getElem hi', hs]⟩

/-- What every signer signed verifies under its public half. -/
lemma allSigned_of_mapM [LawfulKeys]
    (h : (signers.zipIdx.mapM fun (sk, i) => (sk.sign msg).map fun signature =>
      (⟨UInt32.ofNat i, signature⟩ : IndexedSig)) = some sigs) :
    AllSigned msg (signers.map SigningKey.verifyingKey) sigs := by
  obtain ⟨hlength, hget⟩ := signatures_of_mapM h
  refine ⟨by rw [hlength, length_map], fun i s key hs hkey => ?_⟩
  rw [List.getElem?_map] at hkey
  obtain ⟨sk, hsk, rfl⟩ := Option.map_eq_some_iff.mp hkey
  obtain ⟨signature, hsignature, hs'⟩ := hget i sk hsk
  obtain rfl := Option.some.inj (hs.symm.trans hs')
  exact ⟨rfl, SigningKey.verify_sign hsignature⟩

/-- Signing changes nothing but the signatures, and gives one for each signer. -/
lemma signEvent_signatures (h : signEvent event signers = .ok signed) :
    signed = { event with signatures := signed.signatures } ∧
      signed.signatures.length = signers.length ∧
      ∀ (i : ℕ) (sk : SigningKey), signers[i]? = some sk →
        ∃ signature, sk.sign event.signingBytes = some signature ∧
          signed.signatures[i]? = some ⟨UInt32.ofNat i, signature⟩ := by
  obtain ⟨sigs, hsigs, h⟩ := bind_ok.mp h
  cases h
  exact ⟨rfl, signatures_of_mapM (okOr_ok.mp hsigs)⟩

lemma Builds.kind_eq (h : c.Builds kind signers ev) : ev.kind = kind := by
  obtain ⟨_, _, hsign⟩ := h
  rw [(signEvent_signatures hsign).1]

/-- Every signer signed what is to be signed. -/
lemma signEvent_ok [LawfulKeys] (h : signEvent event signers = .ok signed) :
    signed = { event with signatures := signed.signatures } ∧
      AllSigned event.signingBytes (signers.map SigningKey.verifyingKey) signed.signatures := by
  obtain ⟨sigs, hsigs, h⟩ := bind_ok.mp h
  cases h
  exact ⟨rfl, allSigned_of_mapM (okOr_ok.mp hsigs)⟩

/-- Who signs has an Ed25519 key. -/
lemma suite_of_signEvent (h : signEvent event signers = .ok signed) :
    ∀ k ∈ signers, k.suite = .ed25519 := by
  intro k hk
  obtain ⟨i, hi⟩ := List.getElem?_of_mem hk
  obtain ⟨signature, hsignature, -⟩ := (signEvent_signatures h).2.2 i k hi
  cases k with
  | ed25519 seed => rfl
  | mlDsa65 pair => cases hsignature

/-- Whether so many signers reach a threshold: unless they are too many to count. -/
lemma verifyThreshold_signEvent [LawfulKeys] {threshold : UInt32}
    (h : signEvent event signers = .ok signed)
    (hnodup : ((signers.map SigningKey.verifyingKey).map keyFingerprint).Nodup)
    (hpos : 0 < threshold.toNat) (hle : threshold.toNat ≤ signers.length) :
    verifyThreshold signed (signers.map SigningKey.verifyingKey) threshold = .ok () ↔
      signers.length < 2 ^ 32 := by
  obtain ⟨hsigned, hall⟩ := signEvent_ok h
  have hbytes : signed.signingBytes = event.signingBytes := by
    rw [hsigned]
    rfl
  have hne : threshold ≠ 0 := by
    rintro rfl
    simp at hpos
  have hcount := hall.countValidSigners_eq hnodup
  rw [length_map] at hcount
  rw [verifyThreshold_ok, hbytes, UInt32.le_iff_toNat_le, hcount]
  split_ifs with hlt
  · exact ⟨fun _ => hlt, fun _ => ⟨hne, hle⟩⟩
  · simp only [hlt, iff_false, not_and]
    intro _
    omega

/-- The replay of a controller's log gives the keys that the controller holds. -/
structure Agrees (c : Controller) (r : Replay) : Prop where
  replay_eq : Kel.replay c.scid c.events = .ok r
  keys : r.keys = c.current.map SigningKey.verifyingKey
  threshold : r.threshold = c.currentThreshold
  next : r.next = c.next.map fun k => keyCommitment k.verifyingKey
  nextThreshold : r.nextThreshold = c.nextThreshold

lemma Agrees.verify_kel (h : c.Agrees r) : c.kel.verify = .ok c.keyState := by
  have hpos : 0 < c.events.length := length_pos_iff.mpr (Kel.ne_nil_of_replay h.replay_eq)
  have hsn : UInt64.ofNat (c.events.length - 1) = UInt64.ofNat c.events.length - 1 := by
    rw [UInt64.ofNat_sub hpos]
    rfl
  refine Kel.verify_ok.mpr ⟨r, h.replay_eq, ?_⟩
  rw [Replay.keyState, h.keys, h.threshold, h.next, h.nextThreshold, keyState, ← hsn]
  rfl

/-- An event that is built takes its place in the log. -/
lemma Agrees.chained [LawfulKeys] (h : c.Agrees r) (hbuilt : c.Builds kind signers ev) :
    Kel.Chained c.scid r.prevDigest ev c.events.length ∧ ev.kind = kind := by
  obtain ⟨last, hlast, hprev⟩ := Kel.prevDigest_of_replay h.replay_eq
  obtain ⟨last', hlast', hev⟩ := hbuilt
  obtain rfl : last' = last := Option.some.inj (hlast'.symm.trans hlast)
  obtain ⟨hev, -⟩ := signEvent_ok hev
  rw [hev]
  exact ⟨⟨rfl, rfl, hprev.symm⟩, rfl⟩

/-- An event that leaves the keys alone is signed by those in control. -/
lemma Agrees.other [LawfulKeys] (h : c.Agrees r) (hkind : kind.establishment? = none)
    (hbuilt : c.Builds kind c.current ev) (hfew : c.current.length < 2 ^ 32) :
    ({ c with events := c.events ++ [ev] } : Controller).Agrees
      { r with prevDigest := ev.digest } := by
  obtain ⟨hchained, rfl⟩ := h.chained hbuilt
  obtain ⟨_, _, hsign⟩ := hbuilt
  have hr := Kel.controlled_of_replay h.replay_eq
  have hnodup := hr.keys_nodup
  have hle := hr.threshold_le
  rw [h.keys] at hnodup hle
  rw [length_map] at hle
  refine ⟨(Kel.replay_append_ok (Kel.ne_nil_of_replay h.replay_eq)).mpr
    ⟨r, h.replay_eq, .other hkind hchained ?_⟩, h.keys, h.threshold, h.next, h.nextThreshold⟩
  rw [h.keys]
  exact (verifyThreshold_signEvent hsign hnodup hr.threshold_pos hle).mpr hfew

/-- A move keeps the controller and its log in agreement, while the signers can be counted. -/
lemma Agrees.move [LawfulKeys] (h : c.Agrees r) (hmove : Move c kind c')
    (hfew : c'.current.length < 2 ^ 32) : ∃ r', c'.Agrees r' := by
  cases hmove with
  | rotation valid built =>
    obtain ⟨hchained, hkind⟩ := h.chained built
    obtain ⟨_, _, hsign⟩ := built
    have hest := validateEstablishment_ok.mp valid
    have hle := hest.threshold_le
    rw [establishing, length_map] at hle
    have hsigned :=
      (verifyThreshold_signEvent hsign hest.keys_nodup hest.threshold_pos hle).mpr hfew
    refine ⟨_, (Kel.replay_append_ok (Kel.ne_nil_of_replay h.replay_eq)).mpr
      ⟨r, h.replay_eq, .rotation _ hkind hchained valid ?_ h.nextThreshold.symm hsigned⟩,
      rfl, rfl, rfl, rfl⟩
    rw [h.next, establishing, map_map]
    rfl
  | interaction length_le built
  | sealed length_le devices built => exact ⟨_, h.other rfl built hfew⟩

/-! ### Every controller agrees with its log -/

/-- The kind of inception of an identity with or without a delegator. -/
def inceptionKind (est : Establishment) : Option Did → EventKind
  | none   => .inception est
  | some d => .delegatedInception est d.asStr

/-- What a controller is when it has been incepted. -/
lemma inceptInner_ok (h : inceptInner current t next nt delegator = .ok c) :
    ∃ scid suite icp, validateEstablishment (establishing current t next nt [] 0) = .ok () ∧
      signEvent ⟨suite, scid, 0, [],
        inceptionKind (establishing current t next nt [] 0) delegator, []⟩ current = .ok icp ∧
      deriveScid icp = scid ∧ c = ⟨scid, suite, current, t, next, nt, delegator, [icp]⟩ := by
  simp only [inceptInner, ↓failIf_bind_ok, bind_ok] at h
  obtain ⟨first, -, -, ⟨⟩, hvalid, icp, hicp, h⟩ := h
  cases h
  refine ⟨_, first.suite, icp, mapError_ok.mp hvalid, ?_, ?_, rfl⟩
  · cases delegator with
    | none => exact hicp
    | some d => exact hicp
  · -- neither the identifier nor the signatures are part of what it is derived from
    obtain ⟨sigs, -, hsign⟩ := bind_ok.mp hicp
    cases hsign
    rfl

/-- A derived identifier is valid. -/
lemma valid_deriveScid [LawfulKeys] (icp : Event) : Did.Valid ⟨deriveScid icp⟩ :=
  Did.parse_ok.mpr ⟨rfl, by simp [deriveScid], validateScid_base58 _⟩

lemma agrees_of_inceptInner [LawfulKeys] (hdelegator : ∀ d ∈ delegator, d.Valid)
    (h : inceptInner current t next nt delegator = .ok c)
    (hother : ∀ d ∈ c.delegator, d.scid ≠ c.scid) (hfew : c.current.length < 2 ^ 32) :
    ∃ r, c.Agrees r := by
  obtain ⟨scid, suite, icp, hvalid, hsign, hderived, rfl⟩ := inceptInner_ok h
  obtain ⟨hicp, -⟩ := signEvent_ok hsign
  have hest := validateEstablishment_ok.mp hvalid
  have hle := hest.threshold_le
  rw [establishing, length_map] at hle
  have hincepted : Kel.Incepted scid icp (establishing current t next nt [] 0) := {
    kind := by
      rw [hicp]
      cases delegator with
      | none => exact .inl rfl
      | some d => exact .inr ⟨d.asStr, rfl⟩
    sn_eq := by rw [hicp]
    prior_eq := by rw [hicp]
    valid := hvalid
    did := hderived ▸ valid_deriveScid icp
    delegator := by
      rw [hicp]
      cases delegator with
      | none => rfl
      | some d => exact bind_ok.mpr ⟨d, hdelegator d rfl, failIf_ok.mpr (hother d rfl)⟩
    derived := hderived
    scid_eq := by rw [hicp]
    signed := (verifyThreshold_signEvent hsign hest.keys_nodup hest.threshold_pos hle).mpr hfew }
  exact ⟨_, Kel.replay_singleton_ok.mpr ⟨_, hincepted, rfl⟩, rfl, rfl, rfl, rfl⟩

/-- Restoring takes the log and its key state as they are. -/
lemma restore_ok (h : restore kel current next = .ok c) : ∃ suite state, kel.verify = .ok state ∧
      current.map SigningKey.verifyingKey = state.keys ∧
      (next.map fun k => keyCommitment k.verifyingKey) = state.nextCommitments ∧
      c = ⟨kel.scid, suite, current, state.threshold, next, state.nextThreshold, kel.delegator,
        kel.events⟩ := by
  simp only [restore, ↓failIf_bind_ok, bind_ok] at h
  obtain ⟨first, -, -, state, hstate, hkeys, hnext, h⟩ := h
  cases h
  exact ⟨first.suite, state, mapError_ok.mp hstate, matchKeys_iff.mp (not_not.mp hkeys),
    matchCommitments_iff.mp (not_not.mp hnext), rfl⟩

lemma agrees_of_restore (h : restore kel current next = .ok c) : ∃ r, c.Agrees r := by
  obtain ⟨suite, state, hstate, hkeys, hnext, rfl⟩ := restore_ok h
  obtain ⟨r, hr, rfl⟩ := Kel.verify_ok.mp hstate
  exact ⟨r, hr, hkeys.symm, rfl, hnext.symm, rfl⟩

/-- Recovering is a move of a controller that holds the keys it recovers with. -/
lemma recoverFromKel_ok
    (h : recoverFromKel kel recovered newNext nt = .ok c) : (∃ s, c.kel.verify = .ok s) ∧
      ∃ suite state ev, kel.verify = .ok state ∧
        (recovered.map fun k => keyCommitment k.verifyingKey) = state.nextCommitments ∧
        validateEstablishment (establishing recovered state.nextThreshold newNext nt [] 0) =
          .ok () ∧
        Builds ⟨kel.scid, suite, recovered, state.nextThreshold, newNext, nt, kel.delegator,
          kel.events⟩ (.rotation (establishing recovered state.nextThreshold newNext nt [] 0))
          recovered ev ∧
        c = ⟨kel.scid, suite, recovered, state.nextThreshold, newNext, nt, kel.delegator,
          kel.events ++ [ev]⟩ := by
  simp only [recoverFromKel, ↓failIf_bind_ok, bind_ok] at h
  obtain ⟨first, -, -, state, hstate, hnext, ⟨⟩, hvalid, ctrl, happended, s, hs, h⟩ := h
  cases h
  refine ⟨⟨s, mapError_ok.mp hs⟩, first.suite, state, ?_⟩
  rcases append_on (after_ok.mp happended) with ⟨hpanic, -⟩ | ⟨-, ev, hbuilt, hctrl⟩
  · cases hpanic
  · exact ⟨ev, mapError_ok.mp hstate, matchCommitments_iff.mp (not_not.mp hnext),
      mapError_ok.mp hvalid, hbuilt, hctrl⟩

lemma agrees_of_recoverFromKel [LawfulKeys]
    (h : recoverFromKel kel recovered newNext nt = .ok c) : ∃ r, c.Agrees r := by
  obtain ⟨⟨s, hs⟩, suite, state, ev, hstate, -, -, ⟨_, _, hsign⟩, rfl⟩ := recoverFromKel_ok h
  obtain ⟨before, hbefore, -⟩ := Kel.verify_ok.mp hstate
  obtain ⟨r, hr, -⟩ := Kel.verify_ok.mp hs
  obtain ⟨hev, -⟩ := signEvent_ok hsign
  obtain ⟨mid, -, hlast⟩ := (Kel.replay_append_ok (Kel.ne_nil_of_replay hbefore)).mp hr
  cases hlast with
  | rotation est kind chained valid keys threshold signed =>
    rw [hev] at kind
    cases kind
    exact ⟨_, hr, rfl, rfl, rfl, rfl⟩
  | other kind chained signed =>
    rw [hev] at kind
    cases kind

/-- What appends a rotation appends nothing else. -/
lemma Call.Appends.rotation_or_other {call : Call} (h : call.Appends c kinds) :
    (∃ est, kinds = [.rotation est]) ∨ ∀ kind ∈ kinds, kind.establishment? = none := by
  cases call with
  | rotate entropy =>
    obtain ⟨newNext, rfl⟩ := h
    exact .inl ⟨_, rfl⟩
  | rotateWithNext newNext | rotateWithNextAndThreshold newNext t => exact .inl ⟨_, h⟩
  | appointWitnesses entropy witnesses t =>
    obtain ⟨newNext, rfl⟩ := h
    exact .inl ⟨_, rfl⟩
  | retireWitnesses entropy =>
    obtain ⟨newNext, rfl⟩ := h
    exact .inl ⟨_, rfl⟩
  | interact anchors =>
    cases h
    exact .inr (by simp [EventKind.establishment?])
  | sealAll seals =>
    cases h
    exact .inr (by simp [EventKind.establishment?])
  | delegateDevice device capabilities =>
    cases h
    exact .inr (by simp [EventKind.establishment?])
  | revokeDevice device =>
    cases h
    exact .inr (by simp [EventKind.establishment?])
  | revokeDevicesExcept keep =>
    cases h
    exact .inr (by simp [EventKind.establishment?])

/-- A move that establishes nothing leaves the keys alone. -/
lemma Move.current_eq (h : Move c kind c') (hkind : kind.establishment? = none) :
    c'.current = c.current := by
  cases h with
  | rotation valid built => cases hkind
  | interaction length_le built => rfl
  | sealed length_le devices built => rfl

lemma Moves.current_eq (h : Moves c kinds c') (hkinds : ∀ kind ∈ kinds, kind.establishment? = none) :
    c'.current = c.current := by
  induction h with
  | refl c => rfl
  | step first rest ih =>
    obtain ⟨hkind, hkinds⟩ := forall_mem_cons.mp hkinds
    exact (ih hkinds).trans (first.current_eq hkind)

lemma Agrees.moves [LawfulKeys] (h : c.Agrees r) (hmoves : Moves c kinds c')
    (hkinds : ∀ kind ∈ kinds, kind.establishment? = none) (hfew : c.current.length < 2 ^ 32) :
    ∃ r', c'.Agrees r' := by
  induction hmoves generalizing r with
  | refl c => exact ⟨r, h⟩
  | step first rest ih =>
    obtain ⟨hkind, hkinds⟩ := forall_mem_cons.mp hkinds
    rw [← first.current_eq hkind] at hfew
    obtain ⟨mid, hmid⟩ := h.move first hfew
    exact ih hmid hkinds hfew

/-- The signers of every event can be counted, and no identifier is its own delegator. -/
structure Countable (c : Controller) : Prop where
  current : c.current.length < 2 ^ 32
  delegator : ∀ d ∈ c.delegator, d.scid ≠ c.scid

lemma exists_agrees [LawfulKeys] {given : Kel → Prop} {x : Kel ⊕ Controller}
    (h : Obtained given Countable x) : ∀ c, x = .inr c → ∃ r, c.Agrees r := by
  induction h with
  | given given_kel => exact nofun
  | incept incepted held_c =>
    rintro c ⟨⟩
    exact agrees_of_inceptInner (by simp) incepted held_c.delegator held_c.current
  | inceptDevice valid incepted held_c =>
    rintro c ⟨⟩
    exact agrees_of_inceptInner (by rintro d ⟨⟩; exact valid) incepted held_c.delegator
      held_c.current
  | restore obtained restored held_c ih =>
    rintro c ⟨⟩
    exact agrees_of_restore restored
  | recoverFromKel obtained recovered held_c ih =>
    rintro c ⟨⟩
    exact agrees_of_recoverFromKel recovered
  | @call call c c' obtained typed performed held_c ih =>
    rintro _ ⟨⟩
    obtain ⟨r, hr⟩ := ih c rfl
    obtain ⟨kinds, happends, hmoves⟩ := call.perform_ok performed
    rcases happends.rotation_or_other with ⟨est, rfl⟩ | hkinds
    · cases hmoves with
      | step first rest =>
        cases rest
        exact hr.move first held_c.current
    · exact hr.moves hmoves hkinds (hmoves.current_eq hkinds ▸ held_c.current)
  | kel obtained ih => exact nofun

/-! ### Keys that sign -/

/-- Ed25519 keys sign any message. -/
lemma exists_signatures (h : ∀ k ∈ signers, k.suite = .ed25519) (msg : Bytes) :
    ∃ sigs, (signers.zipIdx.mapM fun (sk, i) => (sk.sign msg).map fun signature =>
      (⟨UInt32.ofNat i, signature⟩ : IndexedSig)) = some sigs := by
  refine exists_mapM_some fun (sk, i) hmem => ?_
  have hsuite := h sk (fst_mem_of_mem_zipIdx hmem)
  cases sk with
  | ed25519 seed => exact ⟨_, rfl⟩
  | mlDsa65 pair => cases hsuite

lemma exists_signEvent (h : ∀ k ∈ signers, k.suite = .ed25519) (event : Event) :
    ∃ signed, signEvent event signers = .ok signed := by
  obtain ⟨sigs, hsigs⟩ := exists_signatures h event.signingBytes
  exact ⟨_, bind_ok.mpr ⟨sigs, okOr_ok.mpr hsigs, rfl⟩⟩

/-- An identity is incepted by Ed25519 keys. -/
lemma exists_inceptInner (hsuite : ∀ k ∈ current, k.suite = .ed25519)
    (hvalid : (establishing current t next nt [] 0).Valid) (delegator : Option Did) :
    ∃ c, inceptInner current t next nt delegator = .ok c := by
  have hcurrent : current ≠ [] := by
    rintro rfl
    exact absurd (hvalid.threshold_pos.trans_le hvalid.threshold_le) (Nat.lt_irrefl 0)
  have hnext : next ≠ [] := by
    rintro rfl
    exact absurd (hvalid.nextThreshold_pos.trans_le hvalid.nextThreshold_le) (Nat.lt_irrefl 0)
  obtain ⟨first, rest, rfl⟩ := exists_cons_of_ne_nil hcurrent
  obtain ⟨icp, hicp⟩ := exists_signEvent hsuite ⟨first.suite, deriveScid ⟨first.suite, "", 0, [],
    inceptionKind (establishing (first :: rest) t next nt [] 0) delegator, []⟩, 0, [],
    inceptionKind (establishing (first :: rest) t next nt [] 0) delegator, []⟩
  refine ⟨_, bind_ok.mpr ⟨first, rfl, failIf_bind_ok.mpr ⟨hnext, bind_ok.mpr
    ⟨(), mapError_ok.mpr (validateEstablishment_ok.mpr hvalid), bind_ok.mpr
      ⟨icp, ?_, rfl⟩⟩⟩⟩⟩
  cases delegator with
  | none => exact hicp
  | some d => exact hicp

/-- Different keys make a well-formed establishment. -/
lemma establishing_valid (hcurrent : (current.map SigningKey.verifyingKey).Nodup)
    (hpos : 0 < t.toNat) (hle : t.toNat ≤ current.length)
    (hnext : (next.map fun k => keyCommitment k.verifyingKey).Nodup) (hnpos : 0 < nt.toNat)
    (hnle : nt.toNat ≤ next.length) : (establishing current t next nt [] 0).Valid where
  threshold_pos := hpos
  threshold_le := by simpa [establishing] using hle
  keys_nodup := hcurrent.map keyFingerprint_injective
  nextThreshold_pos := hnpos
  nextThreshold_le := by simpa [establishing] using hnle
  next_nodup := hnext
  multihash := by
    intro commitment hmem
    obtain ⟨k, -, rfl⟩ := mem_map.mp hmem
    exact ⟨_, fromBytes_multihash _⟩
  witnesses := .inl ⟨rfl, rfl⟩

/-- If the log of a new identity replays, it was not incepted with too many keys. -/
lemma agrees_of_replay [LawfulKeys] (h : inceptInner current t next nt delegator = .ok c)
    (hr : Kel.replay c.scid c.events = .ok r) : c.Agrees r ∧ current.length < 2 ^ 32 := by
  obtain ⟨scid, suite, icp, hvalid, hsign, -, rfl⟩ := inceptInner_ok h
  obtain ⟨est, hincepted, rfl⟩ := Kel.replay_singleton_ok.mp hr
  obtain ⟨hicp, -⟩ := signEvent_ok hsign
  obtain rfl : est = establishing current t next nt [] 0 := by
    have hkind := hincepted.kind
    rw [hicp] at hkind
    cases delegator with
    | none =>
      rcases hkind with hkind | ⟨_, hkind⟩
      · exact (EventKind.inception.inj hkind).symm
      · cases hkind
    | some d =>
      rcases hkind with hkind | ⟨_, hkind⟩
      · cases hkind
      · exact (EventKind.delegatedInception.inj hkind).1.symm
  have hest := validateEstablishment_ok.mp hvalid
  have hle := hest.threshold_le
  rw [establishing, length_map] at hle
  exact ⟨⟨hr, rfl, rfl, rfl, rfl⟩,
    (verifyThreshold_signEvent hsign hest.keys_nodup hest.threshold_pos hle).mp hincepted.signed⟩

end Controller

end

namespace Controller

lemma sampleKeys_nodup {n : ℕ} (hn : n ≤ 2 ^ 32) :
    (((List.range n).map sampleKey).map (@SigningKey.verifyingKey .sample)).Nodup := by
  rw [map_map]
  refine nodup_range.map_on fun i hi j hj h => ?_
  have hi := mem_range.mp hi
  have hj := mem_range.mp hj
  have hbytes : (sampleSeed i).bytes = (sampleSeed j).bytes := congrArg VerifyingKey.bytes h
  exact sampleSeed_inj (by omega) (by omega) (Hash.bytes_injective hbytes)

/-- An identity with so many keys. -/
lemma exists_sample {n : ℕ} (hpos : 1 ≤ n) (hn : n ≤ 2 ^ 32) :
    ∃ c, @incept .sample ((List.range n).map sampleKey) 1 [sampleKey n] 1 = .ok c := by
  let := KeyPrimitives.sample
  refine exists_inceptInner (fun k hk => ?_) (establishing_valid (sampleKeys_nodup hn) (by decide)
    (by simpa using hpos) (by simp) (by decide) (by simp)) none
  obtain ⟨i, -, rfl⟩ := mem_map.mp hk
  rfl

/-- An identifier other than that of a sample identity. -/
def sampleWitness : Did := ⟨"z" ++ latin (@multihash Primitives.sample [])⟩

lemma valid_sampleWitness : @Did.Valid KeyPrimitives.sample.toPrimitives sampleWitness := by
  let := KeyPrimitives.sample
  have := lawfulKeys_sample
  exact Did.parse_ok.mpr ⟨rfl, by simp [sampleWitness], validateScid_base58 []⟩

/-- An identity that appoints a witness and then makes another call. -/
def sampleAppointing (call : InPlace Controller Fault Unit) :
    Except Fault (Controller × Controller × Controller) :=
  letI := KeyPrimitives.sample
  do
    let c ← incept [sampleKey 0] 1 [sampleKey 1] 1
    let c₁ ← after (appointWitnesses (fun _ => some (sampleSeed 2)) [sampleWitness] 1) c
    let c₂ ← after call c₁
    return (c, c₁, c₂)

/-- It can be made, and passes the tests it passes when evaluated. -/
lemma exists_sample_appointed (call : InPlace Controller Fault Unit)
    (test : Controller → Controller → Bool)
    (h : (sampleAppointing call).toOption.any (fun (_, c₁, c₂) => test c₁ c₂) = true) :
    ∃ c c₁ c₂, @incept .sample [sampleKey 0] 1 [sampleKey 1] 1 = .ok c ∧
      (@appointWitnesses .sample (fun _ => some (sampleSeed 2)) [sampleWitness] 1).on c =
        (.ok (), c₁) ∧
      call.on c₁ = (.ok (), c₂) ∧ test c₁ c₂ := by
  obtain ⟨⟨c, c₁, c₂⟩, hmade, htest⟩ := exists_of_any _ h
  obtain ⟨c', hc, hmade⟩ := bind_ok.mp hmade
  obtain ⟨c₁', hc₁, hmade⟩ := bind_ok.mp hmade
  obtain ⟨c₂', hc₂, hmade⟩ := bind_ok.mp hmade
  cases hmade
  exact ⟨c, c₁, c₂, hc, after_ok.mp hc₁, after_ok.mp hc₂, htest⟩

end Controller

end Mininet.Identity
