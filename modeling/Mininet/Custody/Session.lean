import Mininet.Custody.Manifest
import Mininet.Lib.TreeMap

/-!
# The Round-1 barrier

Before Round 2 of the key generation every member computes a root over the eleven Round-1 packages
and signs it; a confirmation is made of eleven such acknowledgements of one root, and `dkgPart2`
takes it as an argument. The confirmation pins the packages a root was computed over
(`viewRoot_inj`) and any two members that obtain one hold the same root (`confirmed_agree`), but
`dkgPart2` compares its session and not its root, so what Round 2 runs on is whatever map the caller
hands over.
-/

namespace Mininet.Custody

open Codec Fallible
open Std (ExtTreeMap TransCmp LawfulEqCmp)

/-- What the ceremony calls of `frost_ristretto255`: the identifier of a place in the roster, the
first two parts of the key generation (the first on the randomness it draws), and the canonical
bytes of a Round-1 package. -/
structure Frost (ι σ π τ : Type) (cmp : ι → ι → Ordering) where
  identifier : UInt16 → Option ι
  part1 : ι → UInt16 → UInt16 → Bytes → Except String (σ × π)
  part2 : σ → ExtTreeMap ι π cmp → Except String τ
  serialize : π → Bytes

/-- Zero is the only number that is no identifier, and identifiers and packages are determined by
their numbers and bytes. -/
structure Frost.Lawful {ι σ π τ : Type} {cmp : ι → ι → Ordering} (frost : Frost ι σ π τ cmp) :
    Prop where
  identifier_eq_none : ∀ n, frost.identifier n = none ↔ n = 0
  identifier_inj : ∀ {m n : UInt16} {i : ι}, frost.identifier m = some i →
    frost.identifier n = some i → m = n
  serialize_injective : Function.Injective frost.serialize

/-! ### Views

The Round-1 view of a member is the eleven packages it received, its own among them, in the order of
the roster. -/

section View

/-- The identifier of the member at a place of the roster. -/
def memberNumber (i : Fin 11) : UInt16 := UInt16.ofNat (i + 1)

lemma memberNumber_injective : Function.Injective memberNumber := by decide

lemma memberNumber_ne_zero (i : Fin 11) : memberNumber i ≠ 0 := by
  revert i
  decide

variable {ι σ π τ : Type} {cmp : ι → ι → Ordering} [TransCmp cmp] (frost : Frost ι σ π τ cmp)

/-- A view as the map that Round 2 works on. -/
def viewMap (view : Vector π 11) : ExtTreeMap ι π cmp :=
  .ofList ((List.finRange 11).filterMap fun i =>
    (frost.identifier (memberNumber i)).map fun identifier => (identifier, view[i])) cmp

variable {frost} [LawfulEqCmp cmp]

lemma getElem?_viewMap (hfrost : frost.Lawful) (view : Vector π 11) (i : Fin 11)
    {identifier : ι} (h : frost.identifier (memberNumber i) = some identifier) :
    (viewMap frost view)[identifier]? = some view[i] := by
  refine ExtTreeMap.getElem?_ofList_of_mem (k := identifier) Std.ReflCmp.compare_self ?_ ?_
  · refine List.Pairwise.filterMap _ ?_ (List.nodup_finRange 11)
    intro j k hne a ha b hb heq
    obtain ⟨x, hx, rfl⟩ := Option.map_eq_some_iff.mp ha
    obtain ⟨y, hy, rfl⟩ := Option.map_eq_some_iff.mp hb
    obtain rfl := LawfulEqCmp.eq_of_compare heq
    exact hne (memberNumber_injective (hfrost.identifier_inj hx hy))
  · exact List.mem_filterMap.mpr ⟨i, List.mem_finRange i, by rw [h]; rfl⟩

lemma viewMap_injective (hfrost : frost.Lawful) : Function.Injective (viewMap frost) := by
  intro view view' h
  apply Vector.ext
  intro i hi
  obtain ⟨identifier, hidentifier⟩ := Option.ne_none_iff_exists'.mp
    (mt (hfrost.identifier_eq_none _).mp (memberNumber_ne_zero ⟨i, hi⟩))
  have hview := getElem?_viewMap hfrost view ⟨i, hi⟩ hidentifier
  rw [h, getElem?_viewMap hfrost view' ⟨i, hi⟩ hidentifier] at hview
  exact (Option.some.inj hview).symm

end View

/-! ### Packages, roots and acknowledgements -/

section Barrier

variable [Primitives]

def round1PackageHash (sessionId : Hash) (senderIdentifier : UInt16) (serializedPackage : Bytes) :
    Hash :=
  domainHash "mininet/custody/dkg/round1-package/v1"
    [sessionId.bytes, toBeBytes senderIdentifier, serializedPackage]

def round1Root (sessionId : Hash) (orderedPackageHashes : Vector Hash 11) : Hash :=
  domainHash "mininet/custody/dkg/round1-root/v1"
    (sessionId.bytes :: orderedPackageHashes.toList.map Hash.bytes)

structure Round1ViewAckV1 where
  sessionId : Hash
  round1Root : Hash
  custodyDid : Did
  signature : Signature

def round1ViewAckMessage (sessionId root : Hash) : Bytes :=
  utf8 "mininet/custody/dkg/round1-view-ack/v1" ++ sessionId.bytes ++ root.bytes

def verifyRound1ViewAck (manifest : DkgSessionManifestV1) (ack : Round1ViewAckV1)
    (expectedRoot : Hash) : Except CustodyError Unit := do
  failIf (ack.sessionId ≠ manifest.sessionId ∨ ack.round1Root ≠ expectedRoot) .round1ViewMismatch
  let position ← okOr (manifest.frostIdentifierOf ack.custodyDid)
    (.invalidManifest "DID is not a roster member")
  -- the source indexes the roster here, at the place the identifier was read off
  let participant ← okOr manifest.roster[(position - 1).toNat]? .badSignature
  let message := round1ViewAckMessage ack.sessionId ack.round1Root
  (participant.deviceVerifyingKey.verify message ack.signature).mapError fun _ => .badSignature

/-- Every member of the roster acknowledged the root, each once. -/
def round1ViewConfirmed (manifest : DkgSessionManifestV1) (acks : List Round1ViewAckV1)
    (expectedRoot : Hash) : Bool :=
  acks.length = manifest.roster.length ∧
    (∀ ack ∈ acks, (verifyRound1ViewAck manifest ack expectedRoot).isOk) ∧
    (acks.map (·.custodyDid)).Nodup

structure Round1ViewConfirmation where
  sessionId : Hash
  round1Root : Hash
  deriving DecidableEq

def confirmRound1View (manifest : DkgSessionManifestV1) (acks : List Round1ViewAckV1)
    (expectedRoot : Hash) : Except CustodyError Round1ViewConfirmation := do
  failIf (round1ViewConfirmed manifest acks expectedRoot = false) .round1ViewMismatch
  pure ⟨manifest.sessionId, expectedRoot⟩

/-! ### The two rounds -/

variable {ι σ π τ : Type} {cmp : ι → ι → Ordering}

def identifierFor (frost : Frost ι σ π τ cmp) (manifest : DkgSessionManifestV1) (did : Did) :
    Except CustodyError ι := do
  let position ← okOr (manifest.frostIdentifierOf did)
    (.invalidManifest "DID is not a roster member")
  okOr (frost.identifier position) (.invalidManifest "roster position out of range")

def dkgPart1 (frost : Frost ι σ π τ cmp) (manifest : DkgSessionManifestV1) (ownDid : Did)
    (rng : Bytes) : Except CustodyError (σ × π) := do
  let identifier ← identifierFor frost manifest ownDid
  (frost.part1 identifier signerCount threshold rng).mapError .frost

def dkgPart2 (frost : Frost ι σ π τ cmp) (manifest : DkgSessionManifestV1)
    (confirmation : Round1ViewConfirmation) (secretPackage : σ)
    (round1Packages : ExtTreeMap ι π cmp) : Except CustodyError τ := do
  failIf (confirmation.sessionId ≠ manifest.sessionId) .round1ViewMismatch
  (frost.part2 secretPackage round1Packages).mapError .frost

/-! ### What a root pins -/

variable (frost : Frost ι σ π τ cmp)

def viewHashes (sessionId : Hash) (view : Vector π 11) : Vector Hash 11 :=
  Vector.ofFn fun i => round1PackageHash sessionId (memberNumber i) (frost.serialize view[i])

/-- The root a member computes over its view. -/
def viewRoot (sessionId : Hash) (view : Vector π 11) : Hash :=
  round1Root sessionId (viewHashes frost sessionId view)

/-- The byte strings hashed on the way to the root of a view. -/
def viewTranscripts (sessionId : Hash) (view : Vector π 11) : List Bytes :=
  (utf8 "mininet/custody/dkg/round1-root/v1" ++
      (sessionId.bytes :: (viewHashes frost sessionId view).toList.map Hash.bytes).flatten) ::
    List.ofFn fun i : Fin 11 => utf8 "mininet/custody/dkg/round1-package/v1" ++
      [sessionId.bytes, toBeBytes (memberNumber i), frost.serialize view[i]].flatten

variable {frost}

variable {manifest : DkgSessionManifestV1} {acks : List Round1ViewAckV1} {expectedRoot : Hash}
  {confirmation : Round1ViewConfirmation} {did : Did}

/-- Short of a collision, one root is the root of one view. -/
lemma viewRoot_inj (hfrost : frost.Lawful) {sessionId : Hash} {view view' : Vector π 11}
    {hashed : Set Bytes} (hinj : Set.InjOn blake3 hashed)
    (hview : ∀ t ∈ viewTranscripts frost sessionId view, t ∈ hashed)
    (hview' : ∀ t ∈ viewTranscripts frost sessionId view', t ∈ hashed)
    (h : viewRoot frost sessionId view = viewRoot frost sessionId view') : view = view' := by
  have hroot := List.append_cancel_left
    (hinj (hview _ List.mem_cons_self) (hview' _ List.mem_cons_self) h)
  have hflat : (viewHashes frost sessionId view).toList.flatMap Hash.bytes ++ [] =
      (viewHashes frost sessionId view').toList.flatMap Hash.bytes ++ [] := by
    simpa [List.flatMap_def] using hroot
  have hitem : ∀ (x y : Hash) (r s : Bytes), x.bytes ++ r = y.bytes ++ s → id x = id y ∧ r = s := by
    intro x y r s heq
    obtain ⟨hbytes, hrest⟩ := List.append_inj heq (by simp)
    exact ⟨Hash.bytes_injective hbytes, hrest⟩
  have hhashes := (flatMap_append_inj id (fun x _ y _ => hitem x y) (by simp) hflat).1
  rw [List.map_id, List.map_id] at hhashes
  apply Vector.ext
  intro i hi
  have hhash := congrArg (fun v : Vector Hash 11 => v[i]) (Vector.toList_inj.mp hhashes)
  simp only [viewHashes, Vector.getElem_ofFn] at hhash
  have hmem : ∀ v : Vector π 11, utf8 "mininet/custody/dkg/round1-package/v1" ++
      [sessionId.bytes, toBeBytes (memberNumber ⟨i, hi⟩), frost.serialize v[i]].flatten ∈
        viewTranscripts frost sessionId v := fun v =>
    List.mem_cons_of_mem _ (List.mem_ofFn.mpr ⟨⟨i, hi⟩, rfl⟩)
  have htranscript := List.append_cancel_left
    (hinj (hview _ (hmem view)) (hview' _ (hmem view')) hhash)
  exact hfrost.serialize_injective (by simpa using htranscript)

/-! ### What a confirmation says -/

lemma confirmRound1View_ok :
    confirmRound1View manifest acks expectedRoot = .ok confirmation ↔
      (acks.length = manifest.roster.length ∧
        (∀ ack ∈ acks, verifyRound1ViewAck manifest ack expectedRoot = .ok ()) ∧
        (acks.map (·.custodyDid)).Nodup) ∧
      confirmation = ⟨manifest.sessionId, expectedRoot⟩ := by
  simp only [confirmRound1View, failIf_bind_ok, pure_ok, round1ViewConfirmed,
    Bool.not_eq_false, decide_eq_true_eq, isOk_iff, eq_comm (a := confirmation)]

lemma root_and_mem_of_verify {ack : Round1ViewAckV1}
    (h : verifyRound1ViewAck manifest ack expectedRoot = .ok ()) :
    ack.round1Root = expectedRoot ∧ ack.custodyDid ∈ manifest.dids := by
  obtain ⟨hbound, h⟩ := failIf_bind_ok.mp h
  obtain ⟨position, hposition, -⟩ := bind_ok.mp h
  exact ⟨not_not.mp (not_or.mp hbound).2,
    DkgSessionManifestV1.mem_dids_of_frostIdentifierOf (okOr_ok.mp hposition)⟩

/-- As many acknowledgements as members, from distinct members, leave nobody out. -/
lemma exists_ack_of_confirm (h : confirmRound1View manifest acks expectedRoot = .ok confirmation)
    (hdid : did ∈ manifest.dids) :
    ∃ ack ∈ acks, ack.custodyDid = did ∧ verifyRound1ViewAck manifest ack expectedRoot = .ok () := by
  obtain ⟨⟨hlength, hverify, hnodup⟩, -⟩ := confirmRound1View_ok.mp h
  have hsub : acks.map (·.custodyDid) ⊆ manifest.dids := by
    intro d hd
    obtain ⟨ack, hack, rfl⟩ := List.mem_map.mp hd
    exact (root_and_mem_of_verify (hverify ack hack)).2
  have hperm := (List.subperm_of_subset hnodup hsub).perm_of_length_le
    (by simp [DkgSessionManifestV1.dids, hlength])
  obtain ⟨ack, hack, rfl⟩ := List.mem_map.mp (hperm.mem_iff.mpr hdid)
  exact ⟨ack, hack, rfl, hverify ack hack⟩

/-- Among these acknowledgements, the valid ones that carry a member's name are the member's, and
the member acknowledges one root. -/
def SignedOnce (manifest : DkgSessionManifestV1) (did : Did) (acks : List Round1ViewAckV1) : Prop :=
  ∃ root, ∀ ack ∈ acks, ack.custodyDid = did →
    (∃ expectedRoot, verifyRound1ViewAck manifest ack expectedRoot = .ok ()) →
    ack.round1Root = root

/-- Two confirmations that a member's acknowledgements stand in are of one root. -/
lemma confirmed_agree {acks' : List Round1ViewAckV1} {root root' : Hash}
    {c c' : Round1ViewConfirmation} (hdid : did ∈ manifest.dids)
    (hsigned : SignedOnce manifest did (acks ++ acks'))
    (h : confirmRound1View manifest acks root = .ok c)
    (h' : confirmRound1View manifest acks' root' = .ok c') : root = root' := by
  obtain ⟨signed, hsigned⟩ := hsigned
  obtain ⟨ack, hack, hname, hverify⟩ := exists_ack_of_confirm h hdid
  obtain ⟨ack', hack', hname', hverify'⟩ := exists_ack_of_confirm h' hdid
  have heq := hsigned ack (List.mem_append_left _ hack) hname ⟨_, hverify⟩
  have heq' := hsigned ack' (List.mem_append_right _ hack') hname' ⟨_, hverify'⟩
  rw [← (root_and_mem_of_verify hverify).1, heq, ← heq', (root_and_mem_of_verify hverify').1]

end Barrier

/-! ### Members -/

/-- What a member brings to the two rounds: the packages it drew, the view it acknowledged, the
acknowledgements it collected, and the packages it hands to Round 2. -/
structure Member (ι σ π : Type) (cmp : ι → ι → Ordering) where
  did : Did
  rng : Bytes
  secret : σ
  own : π
  view : Vector π 11
  acks : List Round1ViewAckV1
  packages : ExtTreeMap ι π cmp

namespace Member

variable [Primitives] {ι σ π τ : Type} {cmp : ι → ι → Ordering} [TransCmp cmp]

/-- The packages Round 2 runs on: those handed over and the member's own. -/
def used (frost : Frost ι σ π τ cmp) (manifest : DkgSessionManifestV1) (x : Member ι σ π cmp) :
    ExtTreeMap ι π cmp :=
  match identifierFor frost manifest x.did with
  | .ok identifier => x.packages.insert identifier x.own
  | .error _ => x.packages

/-- The member drew its packages for the manifest, confirmed the root of its view, and Round 2
returned. -/
structure Passes (frost : Frost ι σ π τ cmp) (manifest confirming : DkgSessionManifestV1)
    (x : Member ι σ π cmp) (confirmation : Round1ViewConfirmation) (result : τ) : Prop where
  part1 : dkgPart1 frost manifest x.did x.rng = .ok (x.secret, x.own)
  confirmed : confirmRound1View confirming x.acks (viewRoot frost manifest.sessionId x.view) =
    .ok confirmation
  part2 : dkgPart2 frost manifest confirmation x.secret x.packages = .ok result

/-- Round 2 ran on exactly the packages of a view with the confirmed root. -/
def UsesConfirmed (frost : Frost ι σ π τ cmp) (manifest : DkgSessionManifestV1)
    (x : Member ι σ π cmp) (confirmation : Round1ViewConfirmation) : Prop :=
  ∃ view, x.used frost manifest = viewMap frost view ∧
    viewRoot frost manifest.sessionId view = confirmation.round1Root

/-- What is hashed over the member's view and over the packages it uses. -/
structure Hashes (frost : Frost ι σ π τ cmp) (manifest : DkgSessionManifestV1)
    (x : Member ι σ π cmp) (hashed : Set Bytes) : Prop where
  view : ∀ t ∈ viewTranscripts frost manifest.sessionId x.view, t ∈ hashed
  used : ∀ view, x.used frost manifest = viewMap frost view →
    ∀ t ∈ viewTranscripts frost manifest.sessionId view, t ∈ hashed

variable {frost : Frost ι σ π τ cmp} {manifest confirming : DkgSessionManifestV1}
  {x : Member ι σ π cmp} {confirmation : Round1ViewConfirmation} {result : τ}

omit [TransCmp cmp] in
lemma Passes.round1Root (h : x.Passes frost manifest confirming confirmation result) :
    confirmation.round1Root = viewRoot frost manifest.sessionId x.view := by
  rw [(confirmRound1View_ok.mp h.confirmed).2]

omit [TransCmp cmp] in
lemma Passes.mem_dids (h : x.Passes frost manifest confirming confirmation result) :
    x.did ∈ manifest.dids := by
  obtain ⟨identifier, hidentifier, -⟩ := bind_ok.mp h.part1
  obtain ⟨position, hposition, -⟩ := bind_ok.mp hidentifier
  exact DkgSessionManifestV1.mem_dids_of_frostIdentifierOf (okOr_ok.mp hposition)

end Member

/-! ### A ceremony to evaluate -/

/-- A library whose packages are single bytes and whose second part counts the packages. -/
def Frost.sample : Frost UInt16 Unit UInt8 Unit compare where
  identifier n := if n = 0 then none else some n
  part1 _ _ _ rng := .ok ((), rng.headD 0)
  part2 _ packages := failIf (packages.size ≠ 10) "incorrect number of packages"
  serialize p := [p]

lemma Frost.lawful_sample : Frost.sample.Lawful where
  identifier_eq_none n := by simp [sample]
  identifier_inj := by
    intro m n i hm hn
    simp only [sample, Option.ite_none_left_eq_some, Option.some.injEq] at hm hn
    exact hm.2.trans hn.2.symm
  serialize_injective p q h := by simpa [sample] using h

lemma Frost.part2_sample {packages : ExtTreeMap UInt16 UInt8 compare} (h : packages.size = 10) :
    Frost.sample.part2 () packages = .ok () := by
  simp [sample, h]

def sampleDid (i : ℕ) : Did := ⟨String.singleton (Char.ofNat (97 + i))⟩

def sampleManifest : DkgSessionManifestV1 where
  networkId := .zero
  custodyDomain := 1
  custodyEpoch := 1
  attempt := 0
  roster := (List.range 11).map fun i =>
    ⟨sampleDid i, ⟨.ed25519, List.replicate 32 (.ofNat i)⟩,
      ⟨.ed25519, List.replicate 32 (.ofNat (100 + i))⟩⟩
  authorizationObjectId := .zero
  previousEpoch := 0
  previousGroupKey := .zero
  softwareReleaseId := .zero
  expiryHeight := 0

/-- Package `i` of eleven, the last one being `last`. -/
def sampleView (last : UInt8) : Vector UInt8 11 :=
  Vector.ofFn fun i => if i = 10 then last else .ofNat i

/-- The root of the view and every member's acknowledgement of it. -/
def sampleRoot : Hash :=
  @viewRoot .sample _ _ _ _ _ .sample (@DkgSessionManifestV1.sessionId .sample sampleManifest)
    (sampleView 10)

def sampleAcks : List Round1ViewAckV1 := (List.range 11).map fun i =>
  ⟨@DkgSessionManifestV1.sessionId .sample sampleManifest, sampleRoot, sampleDid i,
    .filled 0⟩

/-- A member that acknowledged the root of one view and hands over the packages of another. -/
def sampleMember (i : Fin 11) (last : UInt8) : Member UInt16 Unit UInt8 compare where
  did := sampleDid i
  rng := [.ofNat i]
  secret := ()
  own := .ofNat i
  view := sampleView 10
  acks := sampleAcks
  packages := (viewMap .sample (sampleView last)).erase (memberNumber i)

/-- With its own package added, a member uses the view it has the packages of. -/
lemma sampleMember_used (i : Fin 11) (hi : i ∈ [(0 : Fin 11), 1]) (last : UInt8)
    (hlast : last ∈ [(7 : UInt8), 10]) :
    (sampleMember i last).used .sample sampleManifest = viewMap .sample (sampleView last) := by
  refine ExtTreeMap.toList_inj.mp ?_
  revert i last
  decide +kernel

lemma sampleMember_passes (i : Fin 11) (hi : i ∈ [(0 : Fin 11), 1]) (last : UInt8)
    (hlast : last ∈ [(7 : UInt8), 10]) :
    letI := Primitives.sample
    (sampleMember i last).Passes .sample sampleManifest sampleManifest
      ⟨sampleManifest.sessionId, sampleRoot⟩ () := by
  let := Primitives.sample
  refine ⟨?_, ?_, ?_⟩
  · have hdrawn : ∀ i : Fin 11, dkgPart1 .sample sampleManifest (sampleDid i) [.ofNat i] =
        .ok ((), .ofNat i) := by
      decide +kernel
    exact hdrawn i
  · have hconfirmed : confirmRound1View sampleManifest sampleAcks sampleRoot =
        .ok ⟨sampleManifest.sessionId, sampleRoot⟩ := by
      decide +kernel
    exact hconfirmed
  · have hsize : ∀ i ∈ [(0 : Fin 11), 1], ∀ last ∈ [(7 : UInt8), 10],
        (sampleMember i last).packages.size = 10 := by
      decide +kernel
    have hcounted := Frost.part2_sample (hsize i hi last hlast)
    generalize (sampleMember i last).packages = packages at hcounted ⊢
    exact failIf_bind_ok.mpr ⟨fun hne => hne rfl, mapError_ok.mpr hcounted⟩

end Mininet.Custody
