import Mininet.Identity.Policy
import Mininet.Identity.PreRotation

/-!
# Revoking devices

Which devices a root delegates is decided by the last word on each identifier string in its seals.
A revocation takes effect on the string it names; the same identifier written in another base is
another string.
-/

namespace Mininet.Identity

open Codec Fallible Stateful List

section

variable [KeyPrimitives] {capabilities : Capabilities} {root device : Kel}

/-! ### Seals -/

/-- The seals that a kind of event carries. -/
def EventKind.seals : EventKind → List Seal
  | .seal seals => seals
  | _           => []

/-- The entries, by identifier string, that a log leaves. -/
def Kel.entries (kel : Kel) : List (String × Capabilities) := kel.seals.foldl applySeal []

omit [KeyPrimitives] in
lemma Kel.seals_eq (kel : Kel) : kel.seals = (kel.events.map Event.kind).flatMap EventKind.seals := by
  rw [Kel.seals, flatMap_map]
  refine flatMap_congr fun e _ => ?_
  match e.kind with
  | .inception _ => rfl
  | .delegatedInception _ _ => rfl
  | .rotation _ => rfl
  | .interaction _ => rfl
  | .seal _ => rfl

/-- A revocation. -/
def Seal.Revokes : Seal → Prop
  | .delegate _ _ => False
  | .revoke _     => True

omit [KeyPrimitives] in
/-- Revocations take out the entries they name, and nothing else. -/
lemma foldl_revokes {seals : List Seal} (h : ∀ s ∈ seals, s.Revokes)
    (acc : List (String × Capabilities)) :
    seals.foldl Kel.applySeal acc = acc.filter fun entry => Seal.revoke entry.1 ∉ seals := by
  induction seals generalizing acc with
  | nil => simp
  | cons s seals ih =>
    obtain ⟨hs, hrest⟩ := forall_mem_cons.mp h
    match s, hs with
    | .revoke device, _ =>
      rw [foldl_cons, ih hrest, Kel.applySeal, filter_filter]
      refine filter_congr fun entry _ => ?_
      rw [Bool.eq_iff_iff]
      simp [and_comm]

namespace Controller

variable {c c' : Controller} {kinds : List EventKind} {call : Call}

/-- What a run of moves adds to the entries. -/
lemma Moves.entries_eq (h : Moves c kinds c') :
    c'.kel.entries = (kinds.flatMap EventKind.seals).foldl Kel.applySeal c.kel.entries := by
  obtain ⟨evs, hevents, rfl⟩ := h.events_eq
  rw [Kel.entries, Kel.entries, Kel.seals_eq, Kel.seals_eq, Controller.kel, Controller.kel, hevents,
    map_append, flatMap_append, foldl_append]

/-- The calls that may delegate a device. -/
def Call.Delegates : Call → Prop
  | .sealAll seals      => ∃ s ∈ seals, ¬ s.Revokes
  | .delegateDevice _ _ => True
  | _                   => False

/-- Other calls seal nothing but revocations. -/
lemma Call.Appends.revokes (h : call.Appends c kinds)
    (hcall : ¬ call.Delegates) : ∀ s ∈ kinds.flatMap EventKind.seals, s.Revokes := by
  cases call with
  | rotate entropy =>
    obtain ⟨newNext, rfl⟩ := h
    simp [EventKind.seals]
  | rotateWithNext newNext =>
    cases h
    simp [EventKind.seals]
  | rotateWithNextAndThreshold newNext t =>
    cases h
    simp [EventKind.seals]
  | appointWitnesses entropy witnesses t =>
    obtain ⟨newNext, rfl⟩ := h
    simp [EventKind.seals]
  | retireWitnesses entropy =>
    obtain ⟨newNext, rfl⟩ := h
    simp [EventKind.seals]
  | interact anchors =>
    cases h
    simp [EventKind.seals]
  | sealAll seals =>
    cases h
    intro s hs
    by_contra hnot
    exact hcall ⟨s, by simpa [EventKind.seals] using hs, hnot⟩
  | delegateDevice device capabilities => exact absurd trivial hcall
  | revokeDevice device =>
    cases h
    simp [EventKind.seals, Seal.Revokes]
  | revokeDevicesExcept keep =>
    cases h
    intro s hs
    rw [flatMap_map] at hs
    have hmem : s ∈ (chunks maxSeals (c.toRevoke keep)).flatten := by
      rw [← flatMap_id]
      exact hs
    rw [flatten_chunks (by decide)] at hmem
    obtain ⟨entry, -, rfl⟩ := mem_map.mp hmem
    trivial

/-- A call that delegates nothing adds no entry. -/
lemma Call.entries_subset (hperformed : call.perform.on c = (.ok (), c'))
    (hcall : ¬ call.Delegates) : c'.kel.entries ⊆ c.kel.entries := by
  obtain ⟨kinds, happends, hmoves⟩ := call.perform_ok hperformed
  rw [hmoves.entries_eq, foldl_revokes (happends.revokes hcall)]
  exact filter_subset_self _

lemma Runs.entries_subset {calls : List Call} (h : Runs c calls c')
    (hcalls : ∀ call ∈ calls, ¬ call.Delegates) : c'.kel.entries ⊆ c.kel.entries := by
  induction h with
  | nil c => exact List.Subset.refl _
  | cons performed rest ih =>
    obtain ⟨hcall, hrest⟩ := forall_mem_cons.mp hcalls
    exact List.Subset.trans (ih hrest) (Call.entries_subset performed hcall)

end Controller

/-! ### Delegation -/

/-- The capabilities of a delegation are those of an entry. -/
lemma mem_delegatedDevices_of_verifyDelegation
    (h : verifyDelegation root device = .ok capabilities) :
    (device.did, capabilities) ∈ root.delegatedDevices := by
  simp only [verifyDelegation, ↓failIf_bind_ok, bind_ok] at h
  obtain ⟨s, -, t, -, -, d, -, -, h⟩ := h
  obtain ⟨⟨did, capabilities'⟩, hmem, hfound⟩ := exists_of_findSome?_eq_some (okOr_ok.mp h)
  dsimp only at hfound
  split_ifs at hfound with hdid
  obtain rfl := Did.asStr_injective hdid
  obtain rfl := Option.some.inj hfound
  exact hmem

lemma exists_verifyDelegation_iff :
    (∃ capabilities, verifyDelegation root device = .ok capabilities) ↔
      (∃ s, root.verify = .ok s) ∧ (∃ s, device.verify = .ok s) ∧ root.delegator = none ∧
        (∃ d, device.delegator = some d ∧ d.scid = root.scid) ∧
        ∃ capabilities, (device.did, capabilities) ∈ root.delegatedDevices := by
  constructor
  · rintro ⟨capabilities, h⟩
    have hmem := mem_delegatedDevices_of_verifyDelegation h
    simp only [verifyDelegation, ↓failIf_bind_ok, bind_ok, okOr_ok, not_not,
      Option.not_isSome_iff_eq_none] at h
    obtain ⟨s, hs, t, ht, hroot, d, hd, hscid, -⟩ := h
    exact ⟨⟨s, hs⟩, ⟨t, ht⟩, hroot, ⟨d, hd, hscid⟩, capabilities, hmem⟩
  · rintro ⟨⟨s, hs⟩, ⟨t, ht⟩, hroot, ⟨d, hd, hscid⟩, capabilities, hmem⟩
    have hsome : (root.delegatedDevices.findSome? fun d =>
        if d.1.asStr = device.did.asStr then some d.2 else none).isSome :=
      List.findSome?_isSome_iff.mpr ⟨_, hmem, by simp⟩
    obtain ⟨found, hfound⟩ := Option.isSome_iff_exists.mp hsome
    simp only [verifyDelegation, ↓failIf_bind_ok, bind_ok, okOr_ok, not_not]
    exact ⟨found, s, hs, t, ht, by simp [hroot], d, hd, hscid, hfound⟩

/-- The devices delegated are the entries whose strings parse. -/
lemma mem_delegatedDevices {kel : Kel} {did : Did} (hdid : did.Valid) :
    (did, capabilities) ∈ kel.delegatedDevices ↔ (did.asStr, capabilities) ∈ kel.entries := by
  have hparse : Did.parse did.asStr = .ok did := hdid
  rw [Kel.delegatedDevices, mem_filterMap]
  constructor
  · rintro ⟨⟨device, capabilities'⟩, hmem, h⟩
    obtain ⟨did', hdid', heq⟩ := Option.map_eq_some_iff.mp h
    cases heq
    cases hok : Did.parse device with
    | error e =>
      rw [hok] at hdid'
      cases hdid'
    | ok did'' =>
      rw [hok] at hdid'
      cases hdid'
      rwa [(Did.parse_ok.mp hok).1] at hmem
  · intro hmem
    exact ⟨_, hmem, by simp [hparse, Except.toOption]⟩

/-- The delegator of an identity is written in its first event. -/
lemma delegator_append {scid scid' : String} {events evs : List Event} (hne : events ≠ []) :
    (Kel.mk scid' (events ++ evs)).delegator = (Kel.mk scid events).delegator := by
  obtain ⟨first, rest, rfl⟩ := exists_cons_of_ne_nil hne
  rfl

/-- The keys in control can be counted. -/
lemma keys_length_of_replay {scid : String} {events : List Event} {r : Replay}
    (h : Kel.replay scid events = .ok r) (hsized : ∀ e ∈ events, e.Sized) :
    r.keys.length < 2 ^ 32 := by
  revert hsized
  refine Kel.replay_induction (P := fun events r => (∀ e ∈ events, e.Sized) →
    r.keys.length < 2 ^ 32) ?_ ?_ h
  · intro first icp hicp hsized
    have hkind := (hsized first (by simp)).kind
    rcases hicp.kind with hfirst | ⟨delegator, hfirst⟩
    · rw [hfirst] at hkind
      exact hkind.1.keys_length
    · rw [hfirst] at hkind
      exact hkind.1.1.keys_length
  · intro events r ev r' _ ih hev hsized
    cases hev with
    | rotation est kind chained valid keys threshold signed =>
      have hkind := (hsized ev (by simp)).kind
      rw [kind] at hkind
      exact Establishment.Sized.keys_length hkind
    | other kind chained signed => exact ih fun e he => hsized e (by simp [he])

namespace Controller

variable {c c₁ c' : Controller} {d : Did} {device : Kel} {held : Controller → Prop} {s : KeyState}

/-- Revoking keeps the log of a controller in order. -/
lemma verify_of_revokeDevice [LawfulKeys]
    (hobtained : Obtained Decoded held (.inr c)) (hverify : c.kel.verify = .ok s)
    (h : (revokeDevice d).on c = (.ok (), c₁)) : ∃ t, c₁.kel.verify = .ok t := by
  obtain ⟨r, hr, -⟩ := Kel.verify_ok.mp hverify
  obtain ⟨hagrees, -⟩ := signatures_of_obtained hobtained r hr
  have hfew := keys_length_of_replay hr (sized_of_obtained (.kel hobtained) hr)
  rw [hagrees.keys, length_map] at hfew
  obtain ⟨kinds, rfl, hmoves⟩ := (Call.revokeDevice d).perform_ok h
  obtain ⟨r', hr'⟩ := hagrees.moves hmoves (by simp [EventKind.establishment?]) hfew
  exact ⟨_, hr'.verify_kel⟩

/-- What a revocation leaves of the entries. -/
lemma entries_of_revokeDevice (h : (revokeDevice d).on c = (.ok (), c₁)) :
    c₁.kel.entries = c.kel.entries.filter fun entry => entry.1 ≠ d.asStr := by
  obtain ⟨kinds, rfl, hmoves⟩ := (Call.revokeDevice d).perform_ok h
  rw [hmoves.entries_eq, foldl_revokes (by simp [EventKind.seals, Seal.Revokes])]
  simp [EventKind.seals]

/-- A run in which nothing is delegated does not bring a delegation back. -/
lemma Runs.delegated {calls : List Call} (h : Runs c calls c')
    (hcalls : ∀ call ∈ calls, ¬ call.Delegates) (hne : c.events ≠ [])
    (hdelegated : ∃ capabilities, verifyDelegation c'.kel device = .ok capabilities) :
    ∃ capabilities, verifyDelegation c.kel device = .ok capabilities := by
  obtain ⟨⟨s, hs⟩, ⟨t, ht⟩, hroot, hnamed, capabilities, hmem⟩ :=
    exists_verifyDelegation_iff.mp hdelegated
  obtain ⟨hscid, evs, hevs⟩ := h.events_eq
  have hdid := Kel.valid_did_of_verify ht
  refine exists_verifyDelegation_iff.mpr ⟨?_, ⟨t, ht⟩, ?_, ?_, capabilities, ?_⟩
  · obtain ⟨r, hr, -⟩ := Kel.verify_ok.mp hs
    rw [Controller.kel, hevs, hscid] at hr
    obtain ⟨r₀, hr₀⟩ := Kel.exists_replay_of_append hne hr
    exact ⟨_, Kel.verify_ok.mpr ⟨r₀, hr₀, rfl⟩⟩
  · rwa [Controller.kel, hevs, delegator_append hne] at hroot
  · rwa [Controller.kel, hscid] at hnamed
  · rw [mem_delegatedDevices hdid] at hmem ⊢
    exact h.entries_subset hcalls hmem

/-- A revocation leaves other strings alone. -/
lemma delegated_of_revokeDevice [LawfulKeys]
    (hobtained : Obtained Decoded held (.inr c)) (h : (revokeDevice d).on c = (.ok (), c₁))
    (hother : d ≠ device.did)
    (hdelegated : ∃ capabilities, verifyDelegation c.kel device = .ok capabilities) :
    ∃ capabilities, verifyDelegation c₁.kel device = .ok capabilities := by
  obtain ⟨⟨s, hs⟩, ⟨t, ht⟩, hroot, hnamed, capabilities, hmem⟩ :=
    exists_verifyDelegation_iff.mp hdelegated
  have hdid := Kel.valid_did_of_verify ht
  obtain ⟨r, hr, -⟩ := Kel.verify_ok.mp hs
  have hruns : Runs c [.revokeDevice d] c₁ := .cons h (.nil c₁)
  obtain ⟨hscid, evs, hevs⟩ := hruns.events_eq
  refine exists_verifyDelegation_iff.mpr ⟨verify_of_revokeDevice hobtained hs h, ⟨t, ht⟩, ?_, ?_,
    capabilities, ?_⟩
  · rw [Controller.kel, hevs]
    exact (delegator_append (Kel.ne_nil_of_replay hr)).trans hroot
  · rwa [Controller.kel, hscid]
  · rw [mem_delegatedDevices hdid] at hmem ⊢
    rw [entries_of_revokeDevice h, mem_filter]
    refine ⟨hmem, decide_eq_true fun heq => hother (Did.asStr_injective heq).symm⟩

lemma valid_did_of_verify (h : c.kel.verify = .ok s) : c.did.Valid := by
  have hvalid := Kel.valid_did_of_verify h
  exact hvalid

/-- Revoking all devices but some leaves exactly those. -/
lemma delegatedDevices_of_revokeDevicesExcept {keep : List Did}
    (h : (revokeDevicesExcept keep).on c = (.ok (), c')) :
    c'.kel.delegatedDevices = c.kel.delegatedDevices.filter fun entry => entry.1 ∈ keep := by
  obtain ⟨kinds, happends, hmoves⟩ := (Call.revokeDevicesExcept keep).perform_ok h
  have hseals : kinds.flatMap EventKind.seals = c.toRevoke keep := by
    obtain rfl : kinds = _ := happends
    rw [flatMap_map]
    exact flatMap_id.trans (flatten_chunks (by decide) _)
  have hrevokes := happends.revokes (fun hdelegates => hdelegates)
  have hentries : c'.kel.entries =
      c.kel.entries.filter fun entry => Seal.revoke entry.1 ∉ c.toRevoke keep := by
    rw [hmoves.entries_eq, foldl_revokes hrevokes, hseals]
  change c'.kel.entries.filterMap _ = (c.kel.entries.filterMap _).filter _
  rw [hentries, filterMap_filter, filter_filterMap]
  refine filterMap_congr fun (device, capabilities) hmem => ?_
  cases hparse : Did.parse device with
  | error e => simp [hparse, Except.toOption]
  | ok did =>
    obtain ⟨rfl, -⟩ := Did.parse_ok.mp hparse
    have hlisted : (did, capabilities) ∈ c.kel.delegatedDevices :=
      (mem_delegatedDevices hparse).mpr hmem
    -- an entry is revoked when it is listed and not to be kept
    have hiff : Seal.revoke did.asStr ∈ c.toRevoke keep ↔ did ∉ keep := by
      rw [toRevoke, mem_map]
      constructor
      · rintro ⟨⟨did', capabilities'⟩, hmem', heq⟩
        obtain rfl := Did.asStr_injective (Seal.revoke.inj heq)
        have hnot := (mem_filter.mp hmem').2
        intro hkeep
        simp only [decide_eq_true_eq, any_eq_true] at hnot
        exact hnot ⟨did', hkeep, by simp⟩
      · intro hkeep
        refine ⟨_, mem_filter.mpr ⟨hlisted, ?_⟩, rfl⟩
        simp only [decide_eq_true_eq, any_eq_true, not_exists, not_and]
        intro k hk heq
        exact hkeep (Did.asStr_injective heq ▸ hk)
    by_cases hkeep : did ∈ keep <;> simp [hiff, hkeep, hparse, Except.toOption, Option.filter]

/-- A revocation is effective on the string it names, and on no other form of the identifier;
revoking all devices but some leaves exactly those. -/
theorem revocation_effective_iff [LawfulKeys] :
    (∀ (c c₁ : Controller) (d : Did) (device : Kel),
      Obtained Decoded (fun _ => True) (.inr c) → (revokeDevice d).on c = (.ok (), c₁) →
      ((∀ calls c', Runs c₁ calls c' → (∀ call ∈ calls, ¬ call.Delegates) →
          ∃ e, verifyDelegation c'.kel device = .error e) ↔
        d = device.did ∨ ∃ e, verifyDelegation c.kel device = .error e)) ∧
    ∀ (c c' : Controller) (keep : List Did), (revokeDevicesExcept keep).on c = (.ok (), c') →
      c'.kel.delegatedDevices = c.kel.delegatedDevices.filter fun entry => entry.1 ∈ keep := by
  refine ⟨?_, fun c c' keep => delegatedDevices_of_revokeDevicesExcept⟩
  intro c c₁ d device hobtained hrevoked
  have hruns : Runs c [.revokeDevice d] c₁ := .cons hrevoked (.nil c₁)
  have hne : c.events ≠ [] := by
    obtain ⟨kinds, rfl, hmoves⟩ := (Call.revokeDevice d).perform_ok hrevoked
    cases hmoves with
    | step first rest =>
      cases first with
      | sealed length_le devices built => exact built.ne_nil
  have hne₁ : c₁.events ≠ [] := by
    obtain ⟨-, evs, hevs⟩ := hruns.events_eq
    rw [hevs]
    exact append_ne_nil_of_left_ne_nil hne evs
  constructor
  · intro hall
    by_contra hnot
    obtain ⟨hother, hdelegated⟩ := not_or.mp hnot
    rw [exists_error_iff, not_not] at hdelegated
    exact exists_error_iff.mp (hall [] c₁ (.nil c₁) (by simp))
      (delegated_of_revokeDevice hobtained hrevoked hother hdelegated)
  · intro h calls c' hrun hcalls
    rw [exists_error_iff]
    intro hdelegated
    have hdelegated₁ := hrun.delegated hcalls hne₁ hdelegated
    rcases h with rfl | herror
    · obtain ⟨-, ⟨t, ht⟩, -, -, capabilities, hmem⟩ := exists_verifyDelegation_iff.mp hdelegated₁
      rw [mem_delegatedDevices (Kel.valid_did_of_verify ht), entries_of_revokeDevice hrevoked] at hmem
      exact of_decide_eq_true (mem_filter.mp hmem).2 rfl
    · refine exists_error_iff.mp herror (hruns.delegated ?_ hne hdelegated₁)
      exact forall_mem_singleton.mpr id

end Controller

end

/-! ### Sample members -/

namespace Controller

/-- An identity, a device of it, and the identity after it delegated everything to the device. -/
structure SampleMember where
  root : Controller
  device : Controller
  delegating : Controller

section

variable [KeyPrimitives]

def sampleMember (i j : ℕ) : Except Fault SampleMember := do
  let root ← incept [sampleKey i] 1 [sampleKey j] 1
  let device ← inceptDevice root.did [sampleKey j] 1 [sampleKey i] 1
  let delegated := (delegateDevice device.kel.did .all).on root
  let () ← delegated.1
  return ⟨root, device, delegated.2⟩

/-- The device is accepted as one of the identity. -/
structure SampleMember.Delegated (m : SampleMember) : Prop where
  valid : m.root.did.Valid
  did_eq : m.delegating.did = m.root.did
  obtained : Obtained Decoded (fun _ => True) (.inr m.delegating)
  agrees : ∃ r, m.device.Agrees r
  current_eq : ∃ k, m.device.current = [sampleKey k]
  delegated : verifyDelegation m.delegating.kel m.device.kel = .ok .all

def SampleMember.isDelegated (m : SampleMember) : Bool :=
  decide ((verifyDelegation m.delegating.kel m.device.kel).toOption = some .all)

lemma delegated_of_sampleMember [LawfulKeys] {i j : ℕ} {m : SampleMember}
    (h : sampleMember i j = .ok m) (hne : m.root.did ≠ m.device.did)
    (hdelegated : m.isDelegated = true) : m.Delegated := by
  simp only [sampleMember, bind_ok] at h
  obtain ⟨root, hroot, device, hdevice, ⟨⟩, hresult, h⟩ := h
  obtain rfl := pure_ok.mp h
  have hcurrent : root.current = [sampleKey i] ∧ root.delegator = none := by
    obtain ⟨_, _, _, -, -, -, rfl⟩ := inceptInner_ok hroot
    exact ⟨rfl, rfl⟩
  have hdcurrent : device.current = [sampleKey j] ∧ device.delegator = some root.did := by
    obtain ⟨_, _, _, -, -, -, rfl⟩ := inceptInner_ok hdevice
    exact ⟨rfl, rfl⟩
  obtain ⟨r, hr⟩ := agrees_of_inceptInner (by simp) hroot (by rw [hcurrent.2]; simp)
    (by rw [hcurrent.1]; simp)
  have hvalid : root.did.Valid := valid_did_of_verify hr.verify_kel
  obtain ⟨t, ht⟩ := agrees_of_inceptInner (by rintro d ⟨⟩; exact hvalid) hdevice
    (by rw [hdcurrent.2]; rintro d ⟨⟩; exact fun heq => hne (congrArg Did.mk heq))
    (by rw [hdcurrent.1]; simp)
  have hcalled : (Call.delegateDevice device.kel.did .all).perform.on root = (.ok (), _) :=
    Prod.ext hresult rfl
  obtain ⟨kinds, -, hmoves⟩ := (Call.delegateDevice device.kel.did .all).perform_ok hcalled
  refine ⟨hvalid, congrArg Did.mk hmoves.scid_eq, ?_, ⟨t, ht⟩, ⟨j, hdcurrent.1⟩,
    toOption_some.mp (of_decide_eq_true hdelegated)⟩
  refine .call (.incept hroot trivial) ?_ hcalled trivial
  exact ⟨Kel.valid_did_of_verify ht.verify_kel, (by decide : (0xff : UInt32) &&& ~~~0xff = 0)⟩

end

def hexDigit (n : UInt8) : Char := Char.ofNat (if n < 10 then 0x30 + n else 0x57 + n).toNat

/-- The other text of an identifier, in hexadecimal. -/
def hexText (scid : String) : String :=
  let bytes := ((@decodeMultibase .sample scid).toOption).getD []
  "f" ++ String.ofList (bytes.flatMap fun (b : UInt8) =>
    [hexDigit (b >>> 4), hexDigit (b &&& 0xf)])

/-- A device can be revoked under either text of its identifier. -/
lemma exists_sample_revoked :
    ∃ (m : SampleMember) (c₁ c₂ : Controller), @SampleMember.Delegated .sample m ∧
      (@revokeDevice .sample m.device.kel.did).on m.delegating = (.ok (), c₁) ∧
      (@revokeDevice .sample ⟨hexText m.device.scid⟩).on m.delegating = (.ok (), c₂) ∧
      @Did.Valid KeyPrimitives.sample.toPrimitives ⟨hexText m.device.scid⟩ ∧
      hexText m.device.scid ≠ m.device.scid ∧
      @decodeMultibase .sample (hexText m.device.scid) =
        @decodeMultibase .sample m.device.scid := by
  let := KeyPrimitives.sample
  have := lawfulKeys_sample
  obtain ⟨m, hm, hcheck⟩ := exists_of_any (x := sampleMember 0 1) (fun m =>
      decide (m.root.did ≠ m.device.did) && m.isDelegated &&
      decide (((revokeDevice m.device.kel.did).on m.delegating).1.toOption = some ()) &&
      decide (((revokeDevice ⟨hexText m.device.scid⟩).on m.delegating).1.toOption = some ()) &&
      decide ((Did.parse (Did.mk (hexText m.device.scid)).asStr).toOption =
        some ⟨hexText m.device.scid⟩) &&
      decide (hexText m.device.scid ≠ m.device.scid) &&
      decide ((decodeMultibase m.device.scid).toOption.isSome) &&
      decide ((decodeMultibase (hexText m.device.scid)).toOption =
        (decodeMultibase m.device.scid).toOption))
    (by decide +kernel)
  simp only [Bool.and_eq_true, decide_eq_true_eq] at hcheck
  obtain ⟨⟨⟨⟨⟨⟨⟨hne, hdelegated⟩, hrevoked⟩, hrevoked'⟩, hvalid⟩, hother⟩, hsome⟩, hsame⟩ := hcheck
  obtain ⟨bytes, hbytes⟩ := Option.isSome_iff_exists.mp hsome
  refine ⟨m, _, _, delegated_of_sampleMember hm hne hdelegated,
    Prod.ext (toOption_some.mp hrevoked) rfl, Prod.ext (toOption_some.mp hrevoked') rfl,
    toOption_some.mp hvalid, hother, ?_⟩
  rw [toOption_some.mp hbytes]
  exact toOption_some.mp (hsame.trans hbytes)

theorem sample_revocation_effective :
    ∃ c dev c₁ : Controller, (@revokeDevice .sample dev.kel.did).on c = (.ok (), c₁) ∧
      (∃ capabilities, @verifyDelegation .sample c.kel dev.kel = .ok capabilities) ∧
      ∃ e, @verifyDelegation .sample c₁.kel dev.kel = .error e := by
  let := KeyPrimitives.sample
  have := lawfulKeys_sample
  obtain ⟨m, c₁, -, h, hrevoked, -⟩ := exists_sample_revoked
  refine ⟨m.delegating, m.device, c₁, hrevoked, ⟨_, h.delegated⟩, ?_⟩
  exact (revocation_effective_iff.1 _ c₁ m.device.kel.did m.device.kel h.obtained hrevoked).mpr
    (.inl rfl) [] c₁ (.nil c₁) (by simp)

/-- A device that was revoked under its identifier in hexadecimal is still delegated. -/
theorem sample_revocation_in_hex :
    ∃ (c c₁ dev : Controller) (d : Did),
      @Obtained .sample (@Decoded .sample) (fun _ => True) (.inr c) ∧
      @Did.Valid KeyPrimitives.sample.toPrimitives d ∧
      @decodeMultibase .sample d.scid = @decodeMultibase .sample dev.scid ∧
      (@revokeDevice .sample d).on c = (.ok (), c₁) ∧
      ∃ capabilities, @verifyDelegation .sample c₁.kel dev.kel = .ok capabilities := by
  let := KeyPrimitives.sample
  have := lawfulKeys_sample
  obtain ⟨m, -, c₁, h, -, hrevoked, hvalid, hother, hsame⟩ := exists_sample_revoked
  exact ⟨m.delegating, c₁, m.device, _, h.obtained, hvalid, hsame, hrevoked,
    delegated_of_revokeDevice h.obtained hrevoked (fun heq => hother (congrArg Did.scid heq))
      ⟨_, h.delegated⟩⟩

end Controller

end Mininet.Identity
