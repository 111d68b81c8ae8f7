import Mininet.Identity.Obtained
import Mininet.Identity.Wire

/-!
# Exchanging logs

Every event of a log that can be obtained was either read by the decoder or built by a controller.
The first are within the decoder's caps; the second are whenever their counts and sizes are, so a
controller's log can be exchanged exactly when they are.
-/

namespace Mininet.Identity

open Codec Fallible Stateful List

section

variable [KeyPrimitives]

/-- An establishment that a controller built for the keys it signed with. -/
structure Establishment.Built (signers : List SigningKey) (est : Establishment) : Prop where
  keys : est.keys = signers.map SigningKey.verifyingKey
  next : ∃ keys : List SigningKey, est.next = keys.map fun k => keyCommitment k.verifyingKey
  witnesses : ∀ w ∈ est.witnesses, ∃ d : Did, d.Valid ∧ w = utf8 d.asStr
  valid : est.Valid

/-- A kind of event that a controller built. -/
def EventKind.Built (signers : List SigningKey) : EventKind → Prop
  | .inception est => est.Built signers ∧ est.witnesses = []
  | .delegatedInception est delegator =>
    (est.Built signers ∧ est.witnesses = []) ∧ ∃ d : Did, d.Valid ∧ delegator = d.asStr
  | .rotation est => est.Built signers
  | .interaction anchors => anchors.length ≤ maxAnchors
  | .seal seals => seals.length ≤ maxSeals ∧ ∀ s ∈ seals, (∃ d, Did.parse s.device = .ok d) ∧ s.Known

/-- An event that a controller built and signed. -/
structure Event.Built (signers : List SigningKey) (e : Event) : Prop where
  scid : Did.Valid ⟨e.scid⟩
  prior : e.prior.length ≤ 34
  kind : e.kind.Built signers
  suite : ∀ k ∈ signers, k.suite = .ed25519
  signed : AllSigned e.signingBytes (signers.map SigningKey.verifyingKey) e.signatures

/-- Where an event comes from: it was read, or built. -/
def Event.Genuine (e : Event) : Prop := e.Portable ∨ ∃ signers, e.Built signers

/-- What an event is built from consists of values of their types. -/
def EventKind.Typed : EventKind → Prop
  | .rotation est => ∀ w ∈ est.witnesses, ∃ d : Did, d.Valid ∧ w = utf8 d.asStr
  | .seal seals   => ∀ s ∈ seals, s.Known
  | _             => True

namespace Controller

variable {signers : List SigningKey} {c : Controller} {current next : List SigningKey}
  {kinds : List EventKind} {kind : EventKind} {c' : Controller} {ev : Event}

lemma built_of_signEvent [LawfulKeys] {event signed : Event}
    (h : signEvent event signers = .ok signed) (hscid : Did.Valid ⟨event.scid⟩)
    (hprior : event.prior.length ≤ 34) (hkind : event.kind.Built signers) :
    signed.Built signers := by
  obtain ⟨hsigned, hall⟩ := signEvent_ok h
  have hsuite := suite_of_signEvent h
  rw [hsigned]
  exact ⟨hscid, hprior, hkind, hsuite, hall⟩

lemma typed_rotation {t nt wt : UInt32} {ws : List Did}
    (h : ∀ w ∈ ws, w.Valid) : (EventKind.rotation (establishing current t next nt ws wt)).Typed := by
  intro w hw
  obtain ⟨d, hd, rfl⟩ := mem_map.mp hw
  exact ⟨d, h d hd, rfl⟩

lemma Call.Appends.typed {call : Call} (h : call.Appends c kinds)
    (htyped : call.Typed) : ∀ kind ∈ kinds, kind.Typed := by
  cases call with
  | rotate entropy =>
    obtain ⟨newNext, rfl⟩ := h
    exact forall_mem_singleton.mpr (typed_rotation (by simp))
  | rotateWithNext newNext =>
    cases h
    exact forall_mem_singleton.mpr (typed_rotation (by simp))
  | rotateWithNextAndThreshold newNext t =>
    cases h
    exact forall_mem_singleton.mpr (typed_rotation (by simp))
  | appointWitnesses entropy witnesses t =>
    obtain ⟨newNext, rfl⟩ := h
    exact forall_mem_singleton.mpr (typed_rotation htyped)
  | retireWitnesses entropy =>
    obtain ⟨newNext, rfl⟩ := h
    exact forall_mem_singleton.mpr (typed_rotation (by simp))
  | interact anchors =>
    cases h
    exact forall_mem_singleton.mpr trivial
  | sealAll seals =>
    cases h
    exact forall_mem_singleton.mpr htyped
  | delegateDevice device capabilities =>
    cases h
    exact forall_mem_singleton.mpr (forall_mem_singleton.mpr htyped.2)
  | revokeDevice device =>
    cases h
    exact forall_mem_singleton.mpr (forall_mem_singleton.mpr trivial)
  | revokeDevicesExcept keep =>
    cases h
    intro kind hkind
    obtain ⟨piece, hpiece, rfl⟩ := mem_map.mp hkind
    intro s hs
    have hmem : s ∈ (chunks maxSeals (c.toRevoke keep)).flatten :=
      mem_flatten.mpr ⟨piece, hpiece, hs⟩
    rw [flatten_chunks (by decide)] at hmem
    obtain ⟨entry, -, rfl⟩ := mem_map.mp hmem
    trivial

/-- A controller whose identifier is valid, and whose events were read or built. -/
structure Genuine (c : Controller) : Prop where
  scid : Did.Valid ⟨c.scid⟩
  events : ∀ e ∈ c.events, e.Genuine

lemma Builds.built [LawfulKeys] (h : c.Builds kind signers ev)
    (hscid : Did.Valid ⟨c.scid⟩) (hkind : kind.Built signers) : ev.Built signers := by
  obtain ⟨last, -, hsign⟩ := h
  exact built_of_signEvent hsign hscid (by simp [Event.digest]) hkind

lemma genuine_append {events : List Event} (h : ∀ e ∈ events, e.Genuine)
    (hev : ev.Built signers) : ∀ e ∈ events ++ [ev], e.Genuine := by
  intro e he
  rcases mem_append.mp he with he | he
  · exact h e he
  · rw [mem_singleton.mp he]
    exact .inr ⟨signers, hev⟩

lemma Genuine.move [LawfulKeys] (h : c.Genuine)
    (hmove : Move c kind c') (htyped : kind.Typed) : c'.Genuine := by
  cases hmove with
  | rotation valid built =>
    refine ⟨h.scid, genuine_append h.events (built.built h.scid ⟨rfl, ⟨_, rfl⟩, htyped, ?_⟩)⟩
    exact validateEstablishment_ok.mp valid
  | interaction length_le built =>
    exact ⟨h.scid, genuine_append h.events (built.built h.scid length_le)⟩
  | sealed length_le devices built =>
    exact ⟨h.scid, genuine_append h.events (built.built h.scid
      ⟨length_le, fun s hs => ⟨devices s hs, htyped s hs⟩⟩)⟩

lemma Genuine.moves [LawfulKeys] (h : c.Genuine)
    (hmoves : Moves c kinds c') (htyped : ∀ kind ∈ kinds, kind.Typed) : c'.Genuine := by
  induction hmoves with
  | refl c => exact h
  | step first rest ih =>
    obtain ⟨hkind, hkinds⟩ := forall_mem_cons.mp htyped
    exact ih (h.move first hkind) hkinds

lemma genuine_of_inceptInner [LawfulKeys] {t nt : UInt32}
    {delegator : Option Did} (hdelegator : ∀ d ∈ delegator, d.Valid)
    (h : inceptInner current t next nt delegator = .ok c) : c.Genuine := by
  obtain ⟨scid, suite, icp, hvalid, hsign, hderived, rfl⟩ := inceptInner_ok h
  have hscid : Did.Valid ⟨scid⟩ := hderived ▸ valid_deriveScid icp
  have hest : (establishing current t next nt [] 0).Built current :=
    ⟨rfl, ⟨_, rfl⟩, by simp [establishing], validateEstablishment_ok.mp hvalid⟩
  refine ⟨hscid, forall_mem_singleton.mpr (.inr ⟨current, ?_⟩)⟩
  refine built_of_signEvent hsign hscid (by simp) ?_
  cases delegator with
  | none => exact ⟨hest, rfl⟩
  | some d => exact ⟨⟨hest, rfl⟩, d, hdelegator d rfl, rfl⟩

end Controller

/-- The logs that the decoder returns. -/
def Decoded (kel : Kel) : Prop := ∃ bytes, Kel.fromBytes bytes = .ok kel

variable {signers : List SigningKey} {est : Establishment}

/-- Every event that can be obtained was read or built. -/
lemma genuine_of_obtained [LawfulKeys] {held : Controller → Prop} {x : Kel ⊕ Controller}
    (h : Obtained Decoded held x) :
    match x with
    | .inl kel => ∀ e ∈ kel.events, e.Genuine
    | .inr c   => c.Genuine := by
  induction h with
  | given given_kel =>
    obtain ⟨bytes, hbytes⟩ := given_kel
    exact fun e he => .inl ((Kel.fromBytes_ok.mp hbytes).2.events e he).2
  | incept incepted held_c => exact Controller.genuine_of_inceptInner (by simp) incepted
  | inceptDevice valid incepted held_c =>
    exact Controller.genuine_of_inceptInner (by rintro d ⟨⟩; exact valid) incepted
  | restore obtained restored held_c ih =>
    obtain ⟨suite, state, hstate, -, -, rfl⟩ := Controller.restore_ok restored
    obtain ⟨r, hr, -⟩ := Kel.verify_ok.mp hstate
    exact ⟨Kel.valid_of_replay hr, ih⟩
  | recoverFromKel obtained recovered held_c ih =>
    obtain ⟨-, suite, state, ev, hstate, -, hvalid, hbuilt, rfl⟩ :=
      Controller.recoverFromKel_ok recovered
    obtain ⟨r, hr, -⟩ := Kel.verify_ok.mp hstate
    have hscid := Kel.valid_of_replay hr
    refine ⟨hscid, Controller.genuine_append ih
      (hbuilt.built hscid ⟨rfl, ⟨_, rfl⟩, by simp [establishing], ?_⟩)⟩
    exact validateEstablishment_ok.mp hvalid
  | call obtained typed performed held_c ih =>
    obtain ⟨kinds, happends, hmoves⟩ := Controller.Call.perform_ok performed
    exact ih.moves hmoves (happends.typed typed)
  | kel obtained ih => exact ih.events

/-! ### Within the caps -/

/-- An identifier that parses is short enough to be read. -/
lemma didPortable_of_parse [LawfulKeys] {s : String} {d : Did} (h : Did.parse s = .ok d) :
    DidPortable s := by
  have hlength := (didText_of_valid (Did.valid_of_parse h)).length_le
  rw [← (Did.parse_ok.mp h).1] at hlength
  exact ⟨hlength.trans (by decide), d, h⟩

/-- The keys of a signer are short enough to be read. -/
lemma keyPortable_of_suite [LawfulKeys] {k : SigningKey} (h : k.suite = .ed25519) :
    KeyPortable k.verifyingKey := by
  cases k with
  | ed25519 seed =>
    refine ⟨?_, SigningKey.fromSuiteBytes_verifyingKey
      (show (SigningKey.ed25519 seed).sign [] = some _ from rfl)⟩
    rw [SigningKey.verifyingKey, Hash.length_bytes]
    decide
  | mlDsa65 pair => cases h

/-- The number of items in an establishment is within the decoder's caps. -/
structure Establishment.WithinCaps (est : Establishment) : Prop where
  keys : est.keys.length ≤ maxKeys
  next : est.next.length ≤ maxNext
  witnesses : est.witnesses.length ≤ maxWitnesses

/-- The counts and sizes of a log are within the decoder's caps. -/
structure Kel.WithinCaps (kel : Kel) : Prop where
  length_le : kel.events.length ≤ maxKelEvents
  bytes : ∀ e ∈ kel.events, e.fullBytes.length ≤ maxEventBytes
  signatures : ∀ e ∈ kel.events, e.signatures.length ≤ maxSignatures
  establishments : ∀ e ∈ kel.events, ∀ est ∈ e.kind.establishment?, est.WithinCaps

lemma Establishment.Built.portable [LawfulKeys] (h : est.Built signers)
    (hsuite : ∀ k ∈ signers, k.suite = .ed25519) (hcaps : est.WithinCaps) : est.Portable where
  keys_length := hcaps.keys
  keys := by
    rw [h.keys]
    intro key hkey
    obtain ⟨k, hk, rfl⟩ := mem_map.mp hkey
    exact keyPortable_of_suite (hsuite k hk)
  next_length := hcaps.next
  next := by
    intro commitment hmem
    obtain ⟨m, hm⟩ := h.valid.multihash commitment hmem
    rw [Multihash.length_of_fromBytes hm]
    decide
  witnesses_length := hcaps.witnesses
  witnesses := by
    intro w hw
    obtain ⟨d, hd, rfl⟩ := h.witnesses w hw
    exact (didText_of_valid hd).length_le.trans (by decide)
  valid := h.valid

lemma EventKind.Built.portable [LawfulKeys] {kind : EventKind} (h : kind.Built signers)
    (hsuite : ∀ k ∈ signers, k.suite = .ed25519)
    (hcaps : ∀ est ∈ kind.establishment?, est.WithinCaps) : kind.Portable := by
  match kind, h with
  | .inception est, ⟨hest, _⟩ => exact hest.portable hsuite (hcaps est rfl)
  | .delegatedInception est delegator, ⟨⟨hest, _⟩, d, hd, hdelegator⟩ =>
    refine ⟨hest.portable hsuite (hcaps est rfl), ?_⟩
    rw [hdelegator]
    exact didPortable_of_parse hd
  | .rotation est, hest => exact Establishment.Built.portable hest hsuite (hcaps est rfl)
  | .interaction anchors, hlength => exact hlength
  | .seal seals, ⟨hlength, hseals⟩ =>
    refine ⟨hlength, fun s hs => ?_⟩
    obtain ⟨⟨d, hd⟩, hknown⟩ := hseals s hs
    exact ⟨didPortable_of_parse hd, hknown⟩

lemma Event.Built.portable [LawfulKeys] {e : Event} (h : e.Built signers)
    (hsignatures : e.signatures.length ≤ maxSignatures)
    (hcaps : ∀ est ∈ e.kind.establishment?, est.WithinCaps) : e.Portable where
  scid := (scidText_of_validateScid h.scid.validateScid).length_le.trans (by decide)
  prior := h.prior.trans (by decide)
  kind := h.kind.portable h.suite hcaps
  signatures := hsignatures

omit [KeyPrimitives] in
lemma Establishment.Portable.withinCaps [Primitives] (h : est.Portable) : est.WithinCaps :=
  ⟨h.keys_length, h.next_length, h.witnesses_length⟩

omit [KeyPrimitives] in
lemma Kel.Portable.withinCaps [Primitives] {kel : Kel} (h : kel.Portable) : kel.WithinCaps where
  length_le := h.length_le
  bytes e he := (h.events e he).1
  signatures e he := (h.events e he).2.signatures
  establishments := by
    intro e he est hest
    match e.kind, (h.events e he).2.kind, hest with
    | .inception _, hportable, rfl => exact Establishment.Portable.withinCaps hportable
    | .delegatedInception _ _, ⟨hportable, _⟩, rfl => exact hportable.withinCaps
    | .rotation _, hportable, rfl => exact Establishment.Portable.withinCaps hportable

lemma Controller.Genuine.portable [LawfulKeys] {c : Controller} (h : c.Genuine)
    (hcaps : c.kel.WithinCaps) : c.kel.Portable := by
  refine ⟨(scidText_of_validateScid h.scid.validateScid).length_le.trans (by decide), h.scid,
    hcaps.length_le, fun e he => ⟨hcaps.bytes e he, ?_⟩⟩
  rcases h.events e he with hportable | ⟨signers, hbuilt⟩
  · exact hportable
  · exact hbuilt.portable (hcaps.signatures e he) (hcaps.establishments e he)

/-- A controller's log can be exchanged when its counts and sizes are within the decoder's caps,
and otherwise cannot. -/
theorem fromBytes_toBytes_iff [LawfulKeys] {c : Controller}
    (h : Obtained Decoded (fun _ => True) (.inr c)) :
    Kel.fromBytes c.kel.toBytes = .ok c.kel ↔ c.kel.WithinCaps := by
  rw [Kel.fromBytes_ok]
  constructor
  · exact fun hportable => hportable.2.withinCaps
  · intro hcaps
    have hgenuine : c.Genuine := genuine_of_obtained h
    exact ⟨rfl, hgenuine.portable hcaps⟩

end

theorem sample_fromBytes_toBytes :
    ∃ c, @Controller.incept .sample [sampleKey 0] 1 [sampleKey 1] 1 = .ok c ∧
      @Kel.fromBytes KeyPrimitives.sample.toPrimitives c.kel.toBytes = .ok c.kel := by
  let := KeyPrimitives.sample
  have := lawfulKeys_sample
  obtain ⟨c, hc, hcheck⟩ := exists_of_any (x := Controller.incept [sampleKey 0] 1 [sampleKey 1] 1)
    (fun c => decide (c.events.length ≤ maxKelEvents ∧ ∀ e ∈ c.events,
      e.fullBytes.length ≤ maxEventBytes ∧ e.signatures.length ≤ maxSignatures ∧
      ∀ est ∈ e.kind.establishment?, est.keys.length ≤ maxKeys ∧
        est.next.length ≤ maxNext ∧ est.witnesses.length ≤ maxWitnesses))
    (by decide +kernel)
  obtain ⟨hlength, hall⟩ := of_decide_eq_true hcheck
  refine ⟨c, hc, (fromBytes_toBytes_iff (.incept hc trivial)).mpr ⟨hlength, fun e he => (hall e he).1,
    fun e he => (hall e he).2.1, fun e he est hest => ?_⟩⟩
  obtain ⟨hkeys, hnext, hwitnesses⟩ := (hall e he).2.2 est hest
  exact ⟨hkeys, hnext, hwitnesses⟩

/-- An identity with 33 keys, all of them Ed25519, cannot be exchanged. -/
theorem sample_fromBytes_toBytes_ne :
    ∃ c, @Obtained .sample (@Decoded .sample) (fun c => ∀ k ∈ c.current ++ c.next,
        k.suite = .ed25519) (.inr c) ∧
      @Kel.fromBytes KeyPrimitives.sample.toPrimitives c.kel.toBytes ≠ .ok c.kel := by
  let := KeyPrimitives.sample
  have := lawfulKeys_sample
  obtain ⟨c, hc⟩ := Controller.exists_sample (n := 33) (by decide) (by decide)
  refine ⟨c, .incept hc ?_, fun hbytes => ?_⟩
  · obtain ⟨scid, suite, icp, -, -, -, rfl⟩ := Controller.inceptInner_ok hc
    intro k hk
    rcases mem_append.mp hk with hk | hk
    · obtain ⟨i, -, rfl⟩ := mem_map.mp hk
      rfl
    · rw [mem_singleton.mp hk]
      rfl
  · have hcaps := (Kel.fromBytes_ok.mp hbytes).2.withinCaps
    obtain ⟨scid, suite, icp, -, hsign, -, rfl⟩ := Controller.inceptInner_ok hc
    obtain ⟨hicp, -⟩ := Controller.signEvent_signatures hsign
    have hest := hcaps.establishments icp (mem_singleton_self icp)
      (establishing ((List.range 33).map sampleKey) 1 [sampleKey 33] 1 [] 0) (by rw [hicp]; rfl)
    have hkeys := hest.keys
    simp [establishing, maxKeys] at hkeys

end Mininet.Identity
