import Mininet.Lib.Stateful
import Mininet.Objects.Signing

/-!
# The object store

A content-addressed store with indexes of what it holds (by author, by type, by link, and of private
envelopes by route), cache tiers declared for identifiers, and a slot for the latest head of each
author and subject. Each operation acts in place; its `_on` lemma says
all it can do to the store, and what holds of every run follows from those.
-/

namespace Mininet

open Codec Fallible Stateful Identity Objects

inductive StoreError where
  | object (e : ObjectError)
  | badHead
  | notFound
  | corrupt
  | privateContentAdvertising
  | notEvictable
  deriving DecidableEq

/-! ### Cache tiers -/

/-- How locally cached content is treated. -/
inductive CacheTier where
  | ephemeralCache
  | seedCache
  | committedStorage
  | privateOnly
  | pinnedByOwner
  | coldArchive
  deriving DecidableEq

namespace CacheTier

/-- Whether peers are told of content in a tier. -/
def advertises : CacheTier → Bool
  | .seedCache | .committedStorage | .pinnedByOwner => true
  | _                                               => false

def toByte : CacheTier → UInt8
  | .ephemeralCache   => 0
  | .seedCache        => 1
  | .committedStorage => 2
  | .privateOnly      => 3
  | .pinnedByOwner    => 4
  | .coldArchive      => 5

def fromByte (b : UInt8) : Option CacheTier :=
  if b = 0 then some .ephemeralCache
  else if b = 1 then some .seedCache
  else if b = 2 then some .committedStorage
  else if b = 3 then some .privateOnly
  else if b = 4 then some .pinnedByOwner
  else if b = 5 then some .coldArchive
  else none

@[simp] lemma fromByte_toByte (tier : CacheTier) : fromByte tier.toByte = some tier := by
  cases tier <;> rfl

end CacheTier

inductive BatteryPolicy where
  | unconstrained
  | neverOnBattery
  | pauseBelowPercent (floor : UInt8)
  deriving DecidableEq

/-- The minutes of the day in which a device works in the background; past midnight when the end
comes first. -/
structure AvailabilityWindow where
  startMinute : UInt16
  endMinute : UInt16
  deriving DecidableEq

def AvailabilityWindow.contains (w : AvailabilityWindow) (minuteOfDay : UInt16) : Bool :=
  let m := min minuteOfDay 1439
  let start := min w.startMinute 1439
  let stop := min w.endMinute 1440
  if start ≤ stop then start ≤ m && m < stop else start ≤ m || m < stop

/-- What a base device is willing to do. -/
structure BaseDeviceRole where
  seedOnViewEnabled : Bool
  availabilityWindow : AvailabilityWindow
  batteryPolicy : BatteryPolicy
  deriving DecidableEq

def BaseDeviceRole.shouldSeedNow (role : BaseDeviceRole) (batteryPercent : UInt8)
    (onBattery : Bool) (minuteOfDay : UInt16) : Bool :=
  role.seedOnViewEnabled && role.availabilityWindow.contains minuteOfDay &&
    match role.batteryPolicy with
    | .unconstrained           => true
    | .neverOnBattery          => !onBattery
    | .pauseBelowPercent floor => !onBattery || floor ≤ batteryPercent

structure ViewConditions where
  batteryPercent : UInt8
  onBattery : Bool
  minuteOfDay : UInt16
  meteredConnection : Bool
  storageBudgetRemaining : Bool

/-! ### The store -/

/-- What was written under an identifier. A read sees nothing of it but its bytes. -/
inductive Content where
  | object (o : Object)
  | envelope (e : ObjectEnvelopeV2)

namespace Content

def bytes : Content → Bytes
  | .object o   => o.toBytes
  | .envelope e => e.toBytes

/-- Content that peers must not be told of. -/
def isPrivate : Content → Bool
  | .object o   => o.payload.isEncrypted
  | .envelope _ => true

end Content

/-- The blobs and the rows of the metadata that are read below. The source keeps all rows in one
map, under keys whose segments are free of the separator. -/
structure Store where
  blobs : ObjectId → Option Content
  /-- The rows `idx/id/<id>`. -/
  ids : Finset ObjectId
  /-- The rows `idx/author/<human>/<id>`. -/
  authors : Finset (Did × ObjectId)
  /-- The rows `idx/type/<type>/<id>`. -/
  types : Finset (ObjectType × ObjectId)
  /-- The rows `idx/link/<target>/<id>`. -/
  links : Finset (ObjectId × ObjectId)
  /-- The rows `private/route/<route>/<id>`. -/
  routes : Finset (Hash × ObjectId)
  /-- The rows `evicted/<id>`, without the times. -/
  evicted : Finset ObjectId
  /-- The rows `cache/<id>`. -/
  tiers : ObjectId → Option Bytes
  /-- The rows `head/<author>/<subject>`. -/
  heads : Did → String → Option Bytes

inductive HeadState where
  | applied
  | stale
  deriving DecidableEq

/-- What an eviction removed. -/
structure EvictReport where
  objects : ℕ := 0
  bytes : UInt64 := 0

/-- The characters of a subject or a name. -/
def nameByte (b : UInt8) : Bool :=
  (0x30 ≤ b && b ≤ 0x39) || (0x41 ≤ b && b ≤ 0x5a) || (0x61 ≤ b && b ≤ 0x7a) ||
    b == 0x2d || b == 0x5f || b == 0x2e

def maxSubjectBytes : ℕ := 64

def encodeSlot (sequence : UInt64) (id : String) : Bytes := toBeBytes sequence ++ utf8 id

def decodeSlot (bytes : Bytes) : Except StoreError (UInt64 × String) := do
  let (sequence, rest) ← (word StoreError.badHead UInt64).run bytes
  let id ← okOr (ofUtf8 rest) .badHead
  return (sequence, id)

lemma decodeSlot_encodeSlot (sequence : UInt64) (id : String) :
    decodeSlot (encodeSlot sequence id) = .ok (sequence, id) := by
  refine bind_ok.mpr ⟨(sequence, utf8 id), reads_word _ sequence (utf8 id), ?_⟩
  exact bind_ok.mpr ⟨id, okOr_ok.mpr (ofUtf8_utf8 id), rfl⟩

namespace Store

def new : Store := ⟨fun _ => none, ∅, ∅, ∅, ∅, ∅, ∅, fun _ => none, fun _ _ => none⟩

/-- The cache tier of an identifier, the one that is not advertised when none was declared. -/
def cacheTier (s : Store) (id : ObjectId) : Except StoreError CacheTier :=
  match s.tiers id with
  | some [b] => okOr (CacheTier.fromByte b) .corrupt
  | some _   => .error .corrupt
  | none     => .ok .ephemeralCache

def contains (s : Store) (id : ObjectId) : Bool := (s.blobs id).isSome

/-- Whether an object was evicted and not asked for since. -/
def wasEvicted (s : Store) (id : ObjectId) : Bool := decide (id ∈ s.evicted)

/-- Whether an object is to be fetched from a peer. -/
def wants (s : Store) (id : ObjectId) : Bool := !s.contains id && !s.wasEvicted id

/-- The identifiers in the rows of a key, in order. -/
def idsUnder {κ : Type} [DecidableEq κ] (rows : Finset (κ × ObjectId)) (key : κ) : List ObjectId :=
  ((rows.filter fun row => row.1 = key).image Prod.snd).sort

variable {s s' : Store} {o : Object} {r : Except StoreError Unit} {κ : Type}

@[simp] lemma mem_idsUnder [DecidableEq κ] {rows : Finset (κ × ObjectId)} {key : κ}
    {id : ObjectId} : id ∈ idsUnder rows key ↔ (key, id) ∈ rows := by
  simp [idsUnder]

lemma nodup_idsUnder [DecidableEq κ] (rows : Finset (κ × ObjectId)) (key : κ) :
    (idsUnder rows key).Nodup :=
  Finset.sort_nodup _ _

def allIds (s : Store) : List ObjectId := s.ids.sort

/-- The identifiers of the objects that name an author, in order. -/
def byAuthor (s : Store) (human : Did) : List ObjectId := idsUnder s.authors human

def byType (s : Store) (objectType : ObjectType) : List ObjectId := idsUnder s.types objectType

def privateByRoute (s : Store) (route : Hash) : List ObjectId := idsUnder s.routes route

/-- The identifiers of the objects that link to a target, in order. -/
def linkingTo (s : Store) (target : ObjectId) : List ObjectId := idsUnder s.links target

@[simp] lemma mem_linkingTo {target id : ObjectId} :
    id ∈ s.linkingTo target ↔ (target, id) ∈ s.links := mem_idsUnder

lemma nodup_linkingTo (s : Store) (target : ObjectId) : (s.linkingTo target).Nodup :=
  nodup_idsUnder _ _

variable [KeyPrimitives] {ids : List ObjectId}

/-- Fetch an object. Its identifier is derived again from the bytes that are stored. -/
def get (s : Store) (id : ObjectId) : Except StoreError Object :=
  match s.blobs id with
  | some content => do
    let o ← (Object.fromBytes content.bytes).mapError .object
    failIf (o.id ≠ id) .corrupt
    return o
  | none => .error .notFound

lemma get_ok {id : ObjectId} : s.get id = .ok o ↔
      o.Portable ∧ o.id = id ∧
        ∃ content, s.blobs id = some content ∧ content.bytes = o.toBytes := by
  rw [get]
  split
  next content hcontent =>
    rw [bind_ok]
    simp only [mapError_ok, Object.fromBytes_ok, failIf_bind_ok, not_not, pure_ok, hcontent]
    constructor
    · rintro ⟨o', ⟨hbytes, ho⟩, hid, rfl⟩
      exact ⟨ho, hid, content, rfl, hbytes⟩
    · rintro ⟨ho, hid, content', hsame, hbytes⟩
      obtain rfl := Option.some.inj hsame
      exact ⟨o, ⟨hbytes, ho⟩, hid, rfl⟩
  next hnone => simp [hnone]

lemma id_of_get {id : ObjectId} (h : s.get id = .ok o) : o.id = id :=
  (get_ok.mp h).2.1

/-! ### Inserting -/

/-- Write an object and its rows. -/
def put (s : Store) (o : Object) : Store :=
  { s with
    blobs := Function.update s.blobs o.id (some (.object o))
    ids := Insert.insert o.id s.ids
    authors := Insert.insert (o.authorHuman, o.id) s.authors
    types := Insert.insert (o.objectType, o.id) s.types
    links := s.links ∪ (o.links.map fun l => (l.target, o.id)).toFinset }

/-- Encrypted content is not taken under a tier that is advertised. -/
def checkPrivate (s : Store) (o : Object) : Except StoreError Unit :=
  if o.payload.isEncrypted then do
    let tier ← s.cacheTier o.id
    failIf tier.advertises .privateContentAdvertising
  else .ok ()

def insert (o : Object) : InPlace Store StoreError Unit := do
  check ((o.verifyIntegrity o.id).mapError .object)
  let s ← MonadState.get
  check (s.checkPrivate o)
  modify fun s => s.put o
  return ()

/-- Write a private envelope and its row. -/
def putPrivate (s : Store) (e : ObjectEnvelopeV2) : Store :=
  { s with
    blobs := Function.update s.blobs e.id (some (.envelope e))
    routes := Insert.insert (e.route, e.id) s.routes }

/-- Store a private envelope. Its tier is not looked at. -/
def insertPrivate (e : ObjectEnvelopeV2) : InPlace Store StoreError Unit := do
  modify fun s => s.putPrivate e
  return ()

/-- An object that a store takes. -/
structure Admits (s : Store) (o : Object) : Prop where
  id_eq : o.id = ObjectId.of o.toBytes
  checked : s.checkPrivate o = .ok ()

lemma insert_on (h : (insert o).on s = (r, s')) :
    (∃ e, r = .error e) ∧ s' = s ∨ r = .ok () ∧ s.Admits o ∧ s' = s.put o := by
  rcases on_check_bind.mp h with ⟨e, -, rfl, rfl⟩ | ⟨⟨⟩, hid, h⟩
  · exact .inl ⟨⟨e, rfl⟩, rfl⟩
  change (check (s.checkPrivate o) >>= _ : InPlace Store StoreError Unit).on s = (r, s') at h
  rcases on_check_bind.mp h with ⟨e, -, rfl, rfl⟩ | ⟨⟨⟩, hchecked, h⟩
  · exact .inl ⟨⟨e, rfl⟩, rfl⟩
  rw [mapError_ok, Object.verifyIntegrity, failIf_ok, not_not] at hid
  cases h
  exact .inr ⟨rfl, ⟨hid.1.symm, hchecked⟩, rfl⟩

lemma Admits.insert_on (h : s.Admits o) : (insert o).on s = (.ok (), s.put o) := by
  refine on_check_bind_ok.mpr ⟨(), ?_, ?_⟩
  · rw [mapError_ok, Object.verifyIntegrity, failIf_ok, not_not]
    exact ⟨h.id_eq.symm, h.id_eq.symm⟩
  · change (check (s.checkPrivate o) >>= _ : InPlace Store StoreError Unit).on s = _
    exact on_check_bind_ok.mpr ⟨(), h.checked, rfl⟩

/-! ### Tiers -/

def setTier (s : Store) (id : ObjectId) (tier : CacheTier) : Store :=
  { s with tiers := Function.update s.tiers id (some [tier.toByte]) }

/-- A tier that is advertised is not for encrypted content, when the content is there. -/
def checkTier (s : Store) (id : ObjectId) (tier : CacheTier) : Except StoreError Unit :=
  if tier.advertises ∧ s.contains id then do
    let o ← s.get id
    failIf o.payload.isEncrypted .privateContentAdvertising
  else .ok ()

def setCacheTier (id : ObjectId) (tier : CacheTier) : InPlace Store StoreError Unit := do
  let s ← MonadState.get
  check (s.checkTier id tier)
  modify fun s => s.setTier id tier
  return ()

/-- The tier that viewing an object puts it in. -/
def viewTier (o : Object) (role : BaseDeviceRole) (conditions : ViewConditions) : CacheTier :=
  if o.payload.isEncrypted then .privateOnly
  else if role.shouldSeedNow conditions.batteryPercent conditions.onBattery
      conditions.minuteOfDay && !conditions.meteredConnection &&
      conditions.storageBudgetRemaining then .seedCache
  else .ephemeralCache

def noteView (id : ObjectId) (role : BaseDeviceRole) (conditions : ViewConditions) :
    InPlace Store StoreError CacheTier := do
  let s ← MonadState.get
  let o ← check (s.get id)
  let current ← check (s.cacheTier id)
  -- these are not changed by a view
  if current = .pinnedByOwner ∨ current = .committedStorage ∨ current = .coldArchive then
    return current
  setCacheTier id (viewTier o role conditions)
  return viewTier o role conditions

lemma setCacheTier_on {id : ObjectId} {tier : CacheTier} (h : (setCacheTier id tier).on s = (r, s')) :
    s' = s ∨ s.checkTier id tier = .ok () ∧ s' = s.setTier id tier := by
  change (check (s.checkTier id tier) >>= _ : InPlace Store StoreError Unit).on s = (r, s') at h
  rcases on_check_bind.mp h with ⟨e, -, -, rfl⟩ | ⟨⟨⟩, hchecked, h⟩
  · exact .inl rfl
  cases h
  exact .inr ⟨hchecked, rfl⟩

lemma noteView_on {id : ObjectId} {role : BaseDeviceRole} {conditions : ViewConditions}
    {r : Except StoreError CacheTier} (h : (noteView id role conditions).on s = (r, s')) :
    s' = s ∨ ∃ tier, s.checkTier id tier = .ok () ∧ s' = s.setTier id tier := by
  change (check (s.get id) >>= _ : InPlace Store StoreError CacheTier).on s = (r, s') at h
  rcases on_check_bind.mp h with ⟨e, -, -, rfl⟩ | ⟨o, -, h⟩
  · exact .inl rfl
  rcases on_check_bind.mp h with ⟨e, -, -, rfl⟩ | ⟨current, -, h⟩
  · exact .inl rfl
  split_ifs at h with hkept
  · cases h
    exact .inl rfl
  · rw [on_bind] at h
    rcases hset : (setCacheTier id (viewTier o role conditions)).on s with ⟨_ | _, mid⟩
    all_goals
      rw [hset] at h
      cases h
      exact (setCacheTier_on hset).imp_right fun hchecked => ⟨_, hchecked⟩

/-! ### Heads -/

/-- The subject of a head, if it is one. -/
def headSubject (o : Object) : Except StoreError String := do
  failIf (o.objectType ≠ .head) .badHead
  failIf o.payload.isEncrypted .badHead
  let subject ← okOr (ofUtf8 o.payload.bytes) .badHead
  failIf (subject = "" ∨ maxSubjectBytes < (utf8 subject).length ∨ ¬ (utf8 subject).all nameByte)
    .badHead
  failIf (o.links.map Link.rel ≠ ["target"]) .badHead
  return subject

/-- Whether a head does not come after the one in its slot: by sequence number, then by
identifier. -/
def notAfter (o : Object) (slot : UInt64 × String) : Prop :=
  o.sequence < slot.1 ∨ o.sequence = slot.1 ∧ o.id.asStr ≤ slot.2

instance (o : Object) (slot : UInt64 × String) : Decidable (notAfter o slot) :=
  inferInstanceAs (Decidable (_ ∨ _))

def setHead (s : Store) (o : Object) (subject : String) : Store :=
  { s with
    heads := Function.update s.heads o.authorHuman
      (Function.update (s.heads o.authorHuman) subject (some (encodeSlot o.sequence o.id.asStr))) }

/-- Whether a slot keeps what it has. -/
def slotKeeps (s : Store) (o : Object) (subject : String) : Except StoreError Bool :=
  match s.heads o.authorHuman subject with
  | some existing => (decodeSlot existing).map fun slot => decide (notAfter o slot)
  | none          => .ok false

/-- Store a head, and put it in its slot if it comes after the one that is there. -/
def applyHead (o : Object) : InPlace Store StoreError HeadState := do
  let subject ← check (headSubject o)
  insert o
  let s ← MonadState.get
  let keeps ← check (s.slotKeeps o subject)
  if keeps then return .stale
  modify fun s => s.setHead o subject
  return .applied

def resolveHead (s : Store) (author : Did) (subject : String) :
    Except StoreError (Option ObjectId) :=
  match s.heads author subject with
  | none       => .ok none
  | some bytes => do
    let (_, headId) ← decodeSlot bytes
    let id ← (ObjectId.parse headId).mapError .object
    let head ← s.get id
    -- a head has one link
    return head.links.head?.map Link.target

lemma applyHead_on {r : Except StoreError HeadState} (h : (applyHead o).on s = (r, s')) :
    (∃ e, r = .error e) ∧ (s' = s ∨ s.Admits o ∧ s' = s.put o) ∨
      ∃ subject, headSubject o = .ok subject ∧ s.Admits o ∧
        (r = .ok .stale ∧ (s.put o).slotKeeps o subject = .ok true ∧ s' = s.put o ∨
          r = .ok .applied ∧ (s.put o).slotKeeps o subject = .ok false ∧
            s' = (s.put o).setHead o subject) := by
  rcases on_check_bind.mp h with ⟨e, -, rfl, rfl⟩ | ⟨subject, hsubject, hrest⟩
  · exact .inl ⟨⟨e, rfl⟩, .inl rfl⟩
  clear h
  rw [on_bind] at hrest
  rcases hinsert : (insert o).on s with ⟨outcome, mid⟩
  rw [hinsert] at hrest
  rcases insert_on hinsert with ⟨⟨e, rfl⟩, rfl⟩ | ⟨rfl, hadmits, rfl⟩
  · cases hrest
    exact .inl ⟨⟨e, rfl⟩, .inl rfl⟩
  change (check ((s.put o).slotKeeps o subject) >>= _ : InPlace Store StoreError HeadState).on
    (s.put o) = (r, s') at hrest
  rcases on_check_bind.mp hrest with ⟨e, -, rfl, rfl⟩ | ⟨keeps, hkeeps, h⟩
  · exact .inl ⟨⟨e, rfl⟩, .inr ⟨hadmits, rfl⟩⟩
  refine .inr ⟨subject, hsubject, hadmits, ?_⟩
  cases keeps with
  | true =>
    cases h
    exact .inl ⟨rfl, hkeeps, rfl⟩
  | false =>
    cases h
    exact .inr ⟨rfl, hkeeps, rfl⟩

/-- What applying a head does that the store takes. -/
lemma Admits.applyHead_on {subject : String} {keeps : Bool} (h : s.Admits o)
    (hsubject : headSubject o = .ok subject) (hkeeps : s.slotKeeps o subject = .ok keeps) :
    (applyHead o).on s = if keeps then (.ok .stale, s.put o)
      else (.ok .applied, (s.put o).setHead o subject) := by
  have hslot : (s.put o).slotKeeps o subject = .ok keeps := hkeeps
  cases keeps <;>
  · refine on_check_bind_ok.mpr ⟨subject, hsubject, ?_⟩
    rw [on_bind, h.insert_on]
    change (check ((s.put o).slotKeeps o subject) >>= _ :
      InPlace Store StoreError HeadState).on _ = _
    exact on_check_bind_ok.mpr ⟨_, hslot, rfl⟩

/-! ### Eviction -/

/-- The object to evict under an identifier, if there is one and it may be evicted with the
others. -/
def evictable (s : Store) (ids : List ObjectId) (id : ObjectId) :
    Except StoreError (Option Object) :=
  match s.get id with
  | .error .notFound => .ok none
  | .error e         => .error e
  | .ok o            => do
    let tier ← s.cacheTier id
    failIf (tier ≠ .ephemeralCache ∨ o.payload.isEncrypted) .notEvictable
    failIf (∃ linker ∈ s.linkingTo id, linker ∉ ids) .notEvictable
    return some o

/-- Remove an object and its rows. -/
def remove (s : Store) (o : Object) : Store :=
  { s with
    ids := s.ids.erase o.id
    authors := s.authors.erase (o.authorHuman, o.id)
    types := s.types.erase (o.objectType, o.id)
    links := s.links \ (o.links.map fun l => (l.target, o.id)).toFinset
    evicted := Insert.insert o.id s.evicted
    tiers := Function.update s.tiers o.id none
    blobs := Function.update s.blobs o.id none }

/-- Remove one of the objects of an eviction. -/
def evict (acc : Store × EvictReport) (o : Object) : Store × EvictReport :=
  let len := match acc.1.blobs o.id with
    | some content => UInt64.ofNat content.bytes.length
    | none         => 0
  (acc.1.remove o, ⟨acc.2.objects + 1, acc.2.bytes + len⟩)

/-- Remove objects that can be fetched again, all of them or none. -/
def evictCached (ids : List ObjectId) : InPlace Store StoreError EvictReport := do
  let s ← MonadState.get
  let objects ← check (ids.mapM (s.evictable ids))
  let (s', report) := (objects.filterMap id).foldl evict (s, {})
  set s'
  return report

omit [KeyPrimitives] in
lemma evict_fst (objects : List Object) (s : Store) (report : EvictReport) :
    (objects.foldl evict (s, report)).1 = objects.foldl remove s := by
  induction objects generalizing s report with
  | nil => rfl
  | cons o objects ih => exact ih _ _

lemma evictable_some {id : ObjectId} (h : s.evictable ids id = .ok (some o)) :
    s.get id = .ok o ∧ ¬ o.payload.isEncrypted ∧ ∀ linker ∈ s.linkingTo id, linker ∈ ids := by
  rw [evictable] at h
  split at h
  next => cases h
  next => cases h
  next o' ho =>
    simp only [↓failIf_bind_ok, bind_ok] at h
    obtain ⟨tier, -, hcached, hlinkers, h⟩ := h
    cases h
    push Not at hlinkers
    exact ⟨ho, (not_or.mp hcached).2, hlinkers⟩

lemma evictCached_on {r : Except StoreError EvictReport}
    (h : (evictCached ids).on s = (r, s')) : s' = s ∨ ∃ objects : List Object,
      (∀ o ∈ objects, s.get o.id = .ok o ∧ ¬ o.payload.isEncrypted ∧
        ∀ linker ∈ s.linkingTo o.id, linker ∈ ids) ∧ s' = objects.foldl remove s := by
  change (check (ids.mapM (s.evictable ids)) >>= _ : InPlace Store StoreError EvictReport).on s =
    (r, s') at h
  rcases on_check_bind.mp h with ⟨e, -, -, rfl⟩ | ⟨found, hfound, h⟩
  · exact .inl rfl
  cases h
  refine .inr ⟨found.filterMap id, fun o ho => ?_, evict_fst _ _ _⟩
  obtain ⟨_, hsome, rfl⟩ := List.mem_filterMap.mp ho
  obtain ⟨key, -, hkey⟩ := exists_of_mapM_ok hfound hsome
  obtain ⟨hget, hrest⟩ := evictable_some hkey
  rw [id_of_get hget]
  exact ⟨hget, hrest⟩

/-! ### Runs -/

/-- The operations on a store. -/
inductive Call where
  | insert (o : Object)
  | insertPrivate (e : ObjectEnvelopeV2)
  | setCacheTier (id : ObjectId) (tier : CacheTier)
  | noteView (id : ObjectId) (role : BaseDeviceRole) (conditions : ViewConditions)
  | applyHead (o : Object)
  | evictCached (ids : List ObjectId)

def Call.perform : Call → InPlace Store StoreError Unit
  | .insert o                     => Store.insert o
  | .insertPrivate e              => Store.insertPrivate e
  | .setCacheTier id tier         => Store.setCacheTier id tier
  | .noteView id role conditions  => (fun _ => ()) <$> Store.noteView id role conditions
  | .applyHead o                  => (fun _ => ()) <$> Store.applyHead o
  | .evictCached ids              => (fun _ => ()) <$> Store.evictCached ids

/-- The store that a call leaves, whether it succeeds or not. -/
def next (s : Store) (call : Call) : Store := (call.perform.on s).2

/-- The store that a sequence of calls leaves. -/
def after (calls : List Call) : Store := calls.foldl next new

lemma after_concat (calls : List Call) (call : Call) :
    after (calls ++ [call]) = (after calls).next call := by
  simp [after]

/-- What one call can do to a store. -/
inductive Stepped (s : Store) : Call → Store → Prop
  | same (call : Call) : Stepped s call s
  | inserted {o : Object} (admits : s.Admits o) : Stepped s (.insert o) (s.put o)
  | insertedPrivate (e : ObjectEnvelopeV2) : Stepped s (.insertPrivate e) (s.putPrivate e)
  | tier {id : ObjectId} {tier : CacheTier} {call : Call} (checked : s.checkTier id tier = .ok ()) :
      Stepped s call (s.setTier id tier)
  | stored {o : Object} (admits : s.Admits o) : Stepped s (.applyHead o) (s.put o)
  | applied {o : Object} {subject : String} (subject_eq : headSubject o = .ok subject)
      (admits : s.Admits o) (newer : (s.put o).slotKeeps o subject = .ok false) :
      Stepped s (.applyHead o) ((s.put o).setHead o subject)
  | evicted {ids : List ObjectId} {objects : List Object}
      (evictable : ∀ o ∈ objects, s.get o.id = .ok o ∧ ¬ o.payload.isEncrypted ∧
        ∀ linker ∈ s.linkingTo o.id, linker ∈ ids) :
      Stepped s (.evictCached ids) (objects.foldl remove s)

lemma stepped_next (s : Store) (call : Call) : Stepped s call (s.next call) := by
  obtain ⟨⟨r, s'⟩, h⟩ : ∃ out, call.perform.on s = out := ⟨_, rfl⟩
  have hnext : s.next call = s' := congrArg Prod.snd h
  rw [hnext]
  cases call with
  | insert o =>
    rcases insert_on h with ⟨-, rfl⟩ | ⟨-, hadmits, rfl⟩
    · exact .same _
    · exact .inserted hadmits
  | insertPrivate e =>
    cases h
    exact .insertedPrivate e
  | setCacheTier id tier =>
    rcases setCacheTier_on h with rfl | ⟨hchecked, rfl⟩
    · exact .same _
    · exact .tier hchecked
  | noteView id role conditions =>
    obtain ⟨r', h, -⟩ := on_map_eq.mp h
    rcases noteView_on h with rfl | ⟨tier, hchecked, rfl⟩
    · exact .same _
    · exact .tier hchecked
  | applyHead o =>
    obtain ⟨r', h, -⟩ := on_map_eq.mp h
    rcases applyHead_on h with ⟨-, rfl | ⟨hadmits, rfl⟩⟩ |
      ⟨subject, hsubject, hadmits, ⟨-, -, rfl⟩ | ⟨-, hnewer, rfl⟩⟩
    · exact .same _
    · exact .stored hadmits
    · exact .stored hadmits
    · exact .applied hsubject hadmits hnewer
  | evictCached ids =>
    obtain ⟨r', h, -⟩ := on_map_eq.mp h
    rcases evictCached_on h with rfl | ⟨objects, hobjects, rfl⟩
    · exact .same _
    · exact .evicted hobjects

/-! ### Reading back -/

/-- What was inserted is returned exactly when it is within the limits of the decoder. -/
lemma get_put_ok : (s.put o).get o.id = .ok o ↔ o.Portable := by
  rw [get_ok]
  constructor
  · exact fun h => h.1
  · exact fun h => ⟨h, rfl, .object o, by simp [put], rfl⟩

/-- A signed object is read back, from its bytes and from a store, exactly when its builder's names
are within the limits of the decoder and its device has not too many keys; and whatever is read
encodes to the same bytes. -/
theorem read_back_iff [LawfulKeys] :
    (∀ (b : ObjectBuilder) (human : Did) (device : Controller) (o : Object), human.Valid →
      (∀ l ∈ b.links, l.target.Valid) → Obtained Decoded (fun _ => True) (.inr device) →
      b.sign human device = .ok o →
      (Object.fromBytes o.toBytes = .ok o ↔ b.Readable device) ∧
        ∀ s s', (insert o).on s = (.ok (), s') → (s'.get o.id = .ok o ↔ b.Readable device)) ∧
    ∀ xs o, Object.fromBytes xs = .ok o → o.toBytes = xs := by
  refine ⟨fun b human device o hhuman htargets hobtained ho => ?_, fun xs o h => ?_⟩
  · have hiff := ObjectBuilder.portable_iff hhuman (genuine_of_obtained hobtained).scid htargets ho
    refine ⟨?_, fun s s' hinserted => ?_⟩
    · rw [Object.fromBytes_ok, ← hiff]
      exact and_iff_right rfl
    · rcases insert_on hinserted with ⟨⟨e, herror⟩, -⟩ | ⟨-, -, rfl⟩
      · cases herror
      · rw [get_put_ok, hiff]
  · exact (Object.fromBytes_ok.mp h).1.symm

end Store

/-- A post is read back from the store. -/
theorem sample_read_back :
    ∃ (c : Controller) (o : Object) (s : Store),
      @ObjectBuilder.sign .sample samplePost c.did c = .ok o ∧
      (@Store.insert .sample o).on Store.new = (.ok (), s) ∧ @Store.get .sample s o.id = .ok o := by
  let := KeyPrimitives.sample
  have := lawfulKeys_sample
  obtain ⟨c, o, hobtained, hdid, hcurrent, ho⟩ :=
    exists_sample_signed (b := samplePost) (by decide +kernel)
  have hadmits : Store.new.Admits o := by
    obtain ⟨-, -, -, key, -, sigs, -, rfl⟩ := ObjectBuilder.sign_ok.mp ho
    exact ⟨rfl, rfl⟩
  obtain ⟨-, hget⟩ := Store.read_back_iff.1 samplePost c.did c o hdid (by simp [samplePost])
    hobtained ho
  exact ⟨c, o, _, ho, hadmits.insert_on, (hget _ _ hadmits.insert_on).mpr
    ⟨nofun, by simp [samplePost], by rw [hcurrent]; decide⟩⟩

/-- An object of the custom type without a name is signed and stored, and never read. -/
theorem sample_not_read_back :
    ∃ (b : ObjectBuilder) (c : Controller) (o : Object) (s : Store),
      @Obtained .sample (@Decoded .sample) (fun _ => True) (.inr c) ∧
      @ObjectBuilder.sign .sample b c.did c = .ok o ∧
      @Object.fromBytes .sample o.toBytes ≠ .ok o ∧
      (@Store.insert .sample o).on Store.new = (.ok (), s) ∧ @Store.get .sample s o.id ≠ .ok o := by
  let := KeyPrimitives.sample
  have := lawfulKeys_sample
  obtain ⟨c, o, hobtained, hdid, -, ho⟩ :=
    exists_sample_signed (b := { objectType := .custom "" }) (by decide +kernel)
  have hunreadable : ¬ o.Portable := by
    rw [ObjectBuilder.portable_iff hdid hdid (by simp) ho]
    exact fun h => (h.custom "" rfl).1 rfl
  have hadmits : Store.new.Admits o := by
    obtain ⟨-, -, -, key, -, sigs, -, rfl⟩ := ObjectBuilder.sign_ok.mp ho
    exact ⟨rfl, rfl⟩
  exact ⟨_, c, o, _, hobtained, ho, fun h => hunreadable (Object.fromBytes_ok.mp h).2,
    hadmits.insert_on, fun h => hunreadable (Store.get_put_ok.mp h)⟩

end Mininet
