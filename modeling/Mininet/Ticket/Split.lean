import Mininet.Lib.TreeMap
import Mininet.Media.Manifest

/-!
# Service tickets

Who receives content signs a ticket for it: what came, from whom and at which rate. The price of a
ticket is divided between the host that served it and the authors of what it lists, and a host
redeems the tickets that name it.
-/

namespace Mininet.Ticket

open Codec Fallible TreeMaps Identity Objects List

def ticketType : ObjectType := .custom "mininet/service-ticket/v1"

def ticketVersion : UInt8 := 2

def ticketVersionV1 : UInt8 := 1

def maxTicketManifests : ℕ := 64

def maxTicketServed : ℕ := 256

/-- The least share of an author, in basis points. -/
def creatorFloorBps : ℕ := 200

def maxDidBytes : ℕ := 256

inductive PricingError where
  | overflow
  deriving DecidableEq

inductive TicketError where
  | notATicket
  | malformed
  | overflow
  | notTheNamedProvider
  | ticketMissing (id : ObjectId)
  | pricing (e : PricingError)
  /-- An index out of bounds, at which the process ends. -/
  | panics
  deriving DecidableEq

def checkedAdd (a b : ℕ) : Except TicketError ℕ := do
  failIf (2 ^ 64 ≤ a + b) .overflow
  return a + b

lemma checkedAdd_ok {a b c : ℕ} : checkedAdd a b = .ok c ↔ a + b < 2 ^ 64 ∧ a + b = c := by
  rw [checkedAdd, failIf_bind_ok, not_le, pure_ok]

/-! ### Prices -/

structure PriceVector where
  bandwidthMicroMiniPerMb : ℕ
  storageMicroMiniPerMbDay : ℕ

/-- The multipliers of a privacy tier, in thousandths. -/
structure ResourceCost where
  bandwidthMin : ℕ
  bandwidthMax : ℕ
  storageMin : ℕ
  storageMax : ℕ

/-- What the direct tier costs, the one at which tickets are priced. -/
def directCost : ResourceCost := ⟨1000, 1000, 1000, 1000⟩

def priceComponent (price multiplier units : ℕ) : Except PricingError ℕ := do
  failIf (2 ^ 128 ≤ price * units * multiplier) .overflow
  failIf (2 ^ 64 ≤ price * units * multiplier / 1000) .overflow
  return price * units * multiplier / 1000

/-- The least and the greatest price of a payload. -/
def quote (prices : PriceVector) (cost : ResourceCost) (payloadMb storageDays : ℕ) :
    Except PricingError (ℕ × ℕ) := do
  failIf (2 ^ 64 ≤ payloadMb * storageDays) .overflow
  let storageUnit := payloadMb * storageDays
  let bandwidthMin ← priceComponent prices.bandwidthMicroMiniPerMb cost.bandwidthMin payloadMb
  let bandwidthMax ← priceComponent prices.bandwidthMicroMiniPerMb cost.bandwidthMax payloadMb
  let storageMin ← priceComponent prices.storageMicroMiniPerMbDay cost.storageMin storageUnit
  let storageMax ← priceComponent prices.storageMicroMiniPerMbDay cost.storageMax storageUnit
  failIf (2 ^ 64 ≤ bandwidthMin + storageMin) .overflow
  failIf (2 ^ 64 ≤ bandwidthMax + storageMax) .overflow
  return (bandwidthMin + storageMin, bandwidthMax + storageMax)

def priceAt (microMiniPerMb bytes : ℕ) : Except TicketError ℕ :=
  ((quote ⟨microMiniPerMb, 0⟩ directCost ((bytes + 999999) / 1000000) 0).map Prod.snd).mapError
    .pricing

/-- The price of some bytes: that of the megabytes they begin. -/
def priceMicro (rate bytes : ℕ) : ℕ := rate * ((bytes + 999999) / 1000000)

lemma priceComponent_direct {price units p : ℕ} :
    priceComponent price 1000 units = .ok p ↔ price * units = p ∧ p < 2 ^ 64 := by
  rw [priceComponent, failIf_bind_ok, failIf_bind_ok, pure_ok]
  simp only [Nat.mul_div_cancel _ (by decide : 0 < 1000)]
  constructor
  · rintro ⟨-, hfits, rfl⟩
    exact ⟨rfl, not_le.mp hfits⟩
  · rintro ⟨rfl, hfits⟩
    exact ⟨by omega, not_le.mpr hfits, rfl⟩

lemma priceAt_ok {rate bytes p : ℕ} :
    priceAt rate bytes = .ok p ↔ priceMicro rate bytes = p ∧ p < 2 ^ 64 := by
  simp only [priceAt, quote, directCost, mapError_ok, map_ok, ↓failIf_bind_ok, bind_ok,
    priceComponent_direct, pure_ok, not_le, Nat.mul_zero]
  constructor
  · rintro ⟨_, ⟨-, _, -, bandwidth, ⟨rfl, hfits⟩, _, -, _, ⟨rfl, -⟩, -, -, rfl⟩, rfl⟩
    rw [Nat.add_zero]
    exact ⟨rfl, hfits⟩
  · rintro ⟨rfl, hfits⟩
    refine ⟨_, ⟨by decide, _, ⟨rfl, hfits⟩, _, ⟨rfl, hfits⟩, 0, ⟨rfl, by decide⟩, 0,
      ⟨rfl, by decide⟩, ?_, ?_, rfl⟩, Nat.add_zero _⟩
    all_goals rwa [Nat.add_zero]

/-! ### Tickets -/

inductive Service where
  | publicSync
  | privateSync
  deriving DecidableEq

def Service.fromCode (code : UInt8) : Option Service :=
  if code = 1 then some .publicSync else if code = 2 then some .privateSync else none

/-- What a ticket says was received of one object: of a medium, listed by its manifest, or of any
other object. -/
structure Listed where
  object : ObjectId
  bytes : ℕ
  deriving DecidableEq

structure TicketFields where
  provider : Did
  service : Service
  rateMicroPerMb : ℕ
  bytesReceived : ℕ
  objectsReceived : ℕ
  channelBinding : Bytes
  nonce : Bytes
  completedMedia : List Listed
  creatorBps : Option ℕ
  served : List Listed
  deriving DecidableEq

structure ServiceTicket where
  id : ObjectId
  consumer : Did
  fields : TicketFields
  timestampMs : UInt64
  deriving DecidableEq

/-- What makes two tickets the same. -/
instance lawfulBEqKey : LawfulBEq (String × Bytes) := inferInstance

def ServiceTicket.key (t : ServiceTicket) : String × Bytes := (t.consumer.asStr, t.fields.nonce)

section

variable [KeyPrimitives]

def readStr : Reader TicketError String := do
  let raw ← readFramed .malformed .malformed UInt32 maxDidBytes
  lift (okOr (ofUtf8 raw) .malformed)

/-- Read one more line, with the sum of the bytes so far. -/
def readListed (distinct : Bool) (acc : List Listed × ℕ) :
    Reader TicketError (List Listed × ℕ) := do
  let text ← readStr
  let object ← lift ((ObjectId.parse text).mapError fun _ => .malformed)
  let bytes ← word .malformed UInt64
  lift (failIf (distinct ∧ object ∈ acc.1.map Listed.object) .malformed)
  let sum ← lift (checkedAdd acc.2 bytes.toNat)
  return (acc.1 ++ [⟨object, bytes.toNat⟩], sum)

/-- The share and the lines of objects other than media, which the first version has not. -/
def readShare (version : UInt8) : Reader TicketError (Option ℕ × List Listed × ℕ) :=
  if version = ticketVersion then do
    let bps ← word .malformed UInt16
    lift (failIf (10000 < bps.toNat) .malformed)
    let count ← readCount .malformed .malformed UInt32 maxTicketServed
    let served ← readFold (readListed true) count ([], 0)
    return (some bps.toNat, served)
  else return (none, [], 0)

/-- The fields of a ticket, and the bytes it attributes. -/
def ticketPayload : Reader TicketError (TicketFields × ℕ) := do
  let version ← word .malformed UInt8
  lift (failIf (version ≠ ticketVersion ∧ version ≠ ticketVersionV1) .malformed)
  let text ← readStr
  let provider ← lift ((Did.parse text).mapError fun _ => .malformed)
  let code ← word .malformed UInt8
  let service ← lift (okOr (Service.fromCode code) .malformed)
  let rate ← word .malformed UInt64
  let bytesReceived ← word .malformed UInt64
  let objectsReceived ← word .malformed UInt32
  let channelBinding ← take .malformed 32
  let nonce ← take .malformed 32
  let count ← readCount .malformed .malformed UInt32 maxTicketManifests
  let (completedMedia, mediaBytes) ← readFold (readListed false) count ([], 0)
  let (creatorBps, served, servedBytes) ← readShare version
  return (⟨provider, service, rate.toNat, bytesReceived.toNat, objectsReceived.toNat,
    channelBinding, nonce, completedMedia, creatorBps, served⟩, mediaBytes + servedBytes)

def readTicket (o : Object) : Except TicketError ServiceTicket := do
  failIf (o.objectType ≠ ticketType) .notATicket
  failIf o.payload.isEncrypted .malformed
  let (fields, attributed) ← whole ticketPayload .malformed o.payload.bytes
  let links := ((o.links.filter fun l => l.rel = "manifest").map Link.target).dedup
  -- every manifest is a link too, and no more is attributed than was received
  failIf (links.length ≠ fields.completedMedia.length ∨
    (∃ media ∈ fields.completedMedia, media.object ∉ links) ∨
    fields.bytesReceived < attributed) .malformed
  return ⟨o.id, o.authorHuman, fields, o.timestampMs⟩

lemma readTicket_ok {o : Object} {t : ServiceTicket} (h : readTicket o = .ok t) :
    o.objectType = ticketType ∧ t.consumer = o.authorHuman ∧ t.id = o.id := by
  obtain ⟨htype, h⟩ := failIf_bind_ok.mp h
  obtain ⟨-, h⟩ := failIf_bind_ok.mp h
  obtain ⟨_, -, h⟩ := bind_ok.mp h
  obtain ⟨-, h⟩ := failIf_bind_ok.mp h
  cases h
  exact ⟨not_not.mp htype, rfl, rfl⟩

end

/-! ### What a device holds -/

/-- The objects that a device holds, each under its own identifier. -/
structure Holdings where
  objects : List Object
  nodup : (objects.map Object.id).Nodup

namespace Holdings

def get (store : Holdings) (id : ObjectId) : Option Object :=
  store.objects.find? fun o => o.id = id

def byType (store : Holdings) (type : ObjectType) : List Object :=
  store.objects.filter fun o => o.objectType = type

/-- One object more. -/
def add (store : Holdings) (o : Object) (h : o.id ∉ store.objects.map Object.id) : Holdings :=
  ⟨o :: store.objects, nodup_cons.mpr ⟨h, store.nodup⟩⟩

variable {store : Holdings} {o : Object} {h : o.id ∉ store.objects.map Object.id}

lemma get_add_self : (store.add o h).get o.id = some o := by
  simp [get, add]

lemma get_add_of_ne {id : ObjectId} (hne : id ≠ o.id) : (store.add o h).get id = store.get id := by
  simp [get, add, hne.symm]

include h in
lemma get_none : store.get o.id = none := by
  rw [get, List.find?_eq_none]
  intro x hx
  simpa using fun heq : x.id = o.id => h (heq ▸ mem_map_of_mem hx)

lemma byType_add_of_ne {type : ObjectType} (hne : o.objectType ≠ type) :
    (store.add o h).byType type = store.byType type := by
  simp [byType, add, hne]

end Holdings

/-! ### Dividing a price -/

/-- Add to what is under a key. -/
def addTo (m : Std.ExtTreeMap String ℕ) (k : String) (v : ℕ) :
    Except TicketError (Std.ExtTreeMap String ℕ) := do
  let sum ← checkedAdd (m[k]?.getD 0) v
  return m.insert k sum

variable {m m' : Std.ExtTreeMap String ℕ}

lemma addTo_ok {k : String} {v : ℕ}
    (h : addTo m k v = .ok m') : m' = m.insert k (m[k]?.getD 0 + v) := by
  obtain ⟨sum, hsum, h⟩ := bind_ok.mp h
  cases h
  rw [(checkedAdd_ok.mp hsum).2]

lemma total_addTo {k : String} {v : ℕ}
    (h : addTo m k v = .ok m') : total id m' = total id m + v := by
  have hinsert := total_insert id m k (m[k]?.getD 0 + v)
  rw [← addTo_ok h] at hinsert
  cases hk : m[k]? with
  | none => simpa [hk] using hinsert
  | some w =>
    simp only [hk, Option.elim_some, Option.getD_some, id] at hinsert
    omega

structure TicketSplit where
  totalMicro : ℕ
  hostMicro : ℕ
  creatorMicro : Std.ExtTreeMap String ℕ

namespace ServiceTicket

variable (t : ServiceTicket) (store : Holdings)

/-- The share of the authors, in basis points. -/
def bps (fallback : ℕ) : ℕ :=
  match t.fields.creatorBps with
  | some signed => max signed creatorFloorBps
  | none        => fallback

/-- The author of a listed medium, if its manifest is here. -/
def mediaAuthor (media : Listed) : Option Did :=
  match store.get media.object with
  | some o => if (Media.readManifest o).isOk then some o.authorHuman else none
  | none   => none

/-- Whose content was received, and how much of it, as far as it is known here. -/
def pieces : List (Did × ℕ) :=
  t.fields.completedMedia.filterMap (fun l => (mediaAuthor store l).map (·, l.bytes)) ++
    t.fields.served.filterMap fun l => (store.get l.object).map fun o => (o.authorHuman, l.bytes)

/-- What a piece brings its author: nothing when it is the consumer. -/
def shareOf (bps : ℕ) (piece : Did × ℕ) : ℕ :=
  if piece.1 = t.consumer then 0 else priceMicro t.fields.rateMicroPerMb piece.2 * bps / 10000

/-- What the pieces bring their authors. -/
def due (fallback : ℕ) : ℕ := ((t.pieces store).map (t.shareOf (t.bps fallback))).sum

/-- The whole price. -/
def price : ℕ := priceMicro t.fields.rateMicroPerMb t.fields.bytesReceived

/-- The price is enough for the authors. -/
def Covered (fallback : ℕ) : Prop := t.due store fallback ≤ t.price

/-- Credit the author of a piece. -/
def credit (bps : ℕ) (m : Std.ExtTreeMap String ℕ) (piece : Did × ℕ) :
    Except TicketError (Std.ExtTreeMap String ℕ) :=
  if piece.1 = t.consumer then .ok m else do
    let price ← priceAt t.fields.rateMicroPerMb piece.2
    failIf (2 ^ 64 ≤ price * bps) .overflow
    addTo m piece.1.asStr (price * bps / 10000)

end ServiceTicket

def splitTicket (store : Holdings) (t : ServiceTicket) (fallbackBps : ℕ) :
    Except TicketError TicketSplit := do
  failIf (10000 < t.bps fallbackBps) .malformed
  let creators ← (t.pieces store).foldlM (t.credit (t.bps fallbackBps)) ∅
  let total ← priceAt t.fields.rateMicroPerMb t.fields.bytesReceived
  return ⟨total, total - TreeMaps.total id creators, creators⟩

section

variable {store : Holdings} {t : ServiceTicket} {fallback : ℕ} {s : TicketSplit}

/-- Any measure that rises by what an author is credited rises by what all of them are due. -/
lemma measure_credited {bps : ℕ} (W : Std.ExtTreeMap String ℕ → ℕ) {pieces : List (Did × ℕ)}
    (hW : ∀ piece ∈ pieces, piece.1 ≠ t.consumer →
      ∀ m m' v, addTo m piece.1.asStr v = .ok m' → W m' = W m + v)
    {m m' : Std.ExtTreeMap String ℕ} (h : pieces.foldlM (t.credit bps) m = .ok m') :
    W m' = W m + (pieces.map (t.shareOf bps)).sum := by
  induction pieces generalizing m with
  | nil =>
    cases h
    rfl
  | cons piece pieces ih =>
    obtain ⟨mid, hmid, h⟩ := bind_ok.mp h
    obtain ⟨hhead, htail⟩ := forall_mem_cons.mp hW
    rw [ih htail h, map_cons, sum_cons, ← add_assoc]
    congr 1
    rw [ServiceTicket.credit] at hmid
    rw [ServiceTicket.shareOf]
    split_ifs at hmid ⊢ with hself
    · cases hmid
      rfl
    · obtain ⟨price, hprice, hmid⟩ := bind_ok.mp hmid
      obtain ⟨-, hmid⟩ := failIf_bind_ok.mp hmid
      rw [(priceAt_ok.mp hprice).1]
      exact hhead hself _ _ _ hmid

/-- All that a division can be. -/
lemma splitTicket_ok (h : splitTicket store t fallback = .ok s) :
    s.totalMicro = t.price ∧ s.hostMicro = t.price - t.due store fallback ∧
      total id s.creatorMicro = t.due store fallback ∧
      (t.pieces store).foldlM (t.credit (t.bps fallback)) ∅ = .ok s.creatorMicro := by
  obtain ⟨-, h⟩ := failIf_bind_ok.mp h
  obtain ⟨creators, hcreators, h⟩ := bind_ok.mp h
  obtain ⟨price, hprice, h⟩ := bind_ok.mp h
  cases h
  obtain ⟨rfl, -⟩ := priceAt_ok.mp hprice
  have hdue := measure_credited (total id) (fun _ _ _ _ _ _ hadd => total_addTo hadd) hcreators
  rw [total_empty, zero_add] at hdue
  exact ⟨rfl, congrArg (t.price - ·) hdue, hdue, hcreators⟩

/-- A division gives out the price, or what the authors are due when that is more. -/
lemma hostMicro_add_total (h : splitTicket store t fallback = .ok s) :
    s.hostMicro + total id s.creatorMicro = max t.price (t.due store fallback) := by
  obtain ⟨-, hhost, hdue, -⟩ := splitTicket_ok h
  omega

/-- Nobody is credited but authors of what is listed. -/
lemma getElem?_creatorMicro (h : splitTicket store t fallback = .ok s) {me : Did}
    (hme : ∀ piece ∈ t.pieces store, piece.1 = me → me = t.consumer) :
    s.creatorMicro[me.asStr]? = none := by
  obtain ⟨-, -, -, hcreators⟩ := splitTicket_ok h
  refine foldlM_invariant (P := fun m => m[me.asStr]? = none) ?_ rfl hcreators
  intro m piece hpiece m' hm hcredit
  rw [ServiceTicket.credit] at hcredit
  split_ifs at hcredit with hself
  · cases hcredit
    exact hm
  · obtain ⟨_, -, hcredit⟩ := bind_ok.mp hcredit
    obtain ⟨-, hcredit⟩ := failIf_bind_ok.mp hcredit
    have hne : piece.1.asStr ≠ me.asStr := fun heq => by
      have hme' := Did.asStr_injective heq
      exact hself (hme'.trans (hme piece hpiece hme'))
    rw [addTo_ok hcredit, Std.ExtTreeMap.getElem?_insert]
    simpa [hne] using hm

end

/-! ### Redemptions -/

/-- The rate an owner asks, and the share of authors for tickets that state none. -/
structure Rate where
  microMiniPerMb : ℕ
  creatorBps : ℕ

def Rate.validate (rate : Rate) : Except TicketError Unit :=
  failIf (10000 < rate.creatorBps) .malformed

structure RedemptionRequest where
  id : ObjectId
  claimant : Did
  tickets : List ObjectId
  bytes : ℕ
  microMini : ℕ
  rate : Rate
  timestampMs : UInt64

structure RedemptionSplit where
  hostMicro : ℕ := 0
  creatorMicro : Std.ExtTreeMap String ℕ := ∅

section

variable [KeyPrimitives]

def ticketAt (store : Holdings) (id : ObjectId) : Except TicketError ServiceTicket := do
  let o ← okOr (store.get id) (.ticketMissing id)
  readTicket o

/-- The sums over the tickets seen, and their keys. -/
structure Sums where
  bytes : ℕ := 0
  micro : ℕ := 0
  seen : List (String × Bytes) := []

def verifyOne (store : Holdings) (request : RedemptionRequest) (sums : Sums) (id : ObjectId) :
    Except TicketError Sums := do
  let t ← ticketAt store id
  failIf (t.fields.provider ≠ request.claimant) .notTheNamedProvider
  failIf (t.key ∈ sums.seen) .malformed
  let bytes ← checkedAdd sums.bytes t.fields.bytesReceived
  let price ← priceAt t.fields.rateMicroPerMb t.fields.bytesReceived
  let micro ← checkedAdd sums.micro price
  return ⟨bytes, micro, t.key :: sums.seen⟩

def verifyRedemption (store : Holdings) (request : RedemptionRequest) :
    Except TicketError Unit := do
  let sums ← request.tickets.foldlM (verifyOne store request) {}
  failIf (sums.bytes ≠ request.bytes ∨ sums.micro ≠ request.microMini) .malformed

def settleOne (store : Holdings) (request : RedemptionRequest) (out : RedemptionSplit)
    (id : ObjectId) : Except TicketError RedemptionSplit := do
  let t ← ticketAt store id
  let split ← splitTicket store t request.rate.creatorBps
  let host ← checkedAdd out.hostMicro split.hostMicro
  let creators ← split.creatorMicro.toList.foldlM (fun m e => addTo m e.1 e.2) out.creatorMicro
  return ⟨host, creators⟩

def settleSplit (store : Holdings) (request : RedemptionRequest) :
    Except TicketError RedemptionSplit := do
  verifyRedemption store request
  request.tickets.foldlM (settleOne store request) {}

variable {store : Holdings} {request : RedemptionRequest} {out out' : RedemptionSplit}
  {sums sums' : Sums}

/-- What a settlement gives out. -/
def RedemptionSplit.paid (out : RedemptionSplit) : ℕ := out.hostMicro + total id out.creatorMicro

lemma verifyOne_ok {id : ObjectId} (h : verifyOne store request sums id = .ok sums') :
    ∃ t, ticketAt store id = .ok t ∧ sums'.micro = sums.micro + t.price := by
  simp only [verifyOne, ↓failIf_bind_ok, bind_ok] at h
  obtain ⟨t, ht, -, -, _, -, price, hprice, micro, hmicro, h⟩ := h
  cases h
  obtain ⟨rfl, -⟩ := priceAt_ok.mp hprice
  exact ⟨t, ht, (checkedAdd_ok.mp hmicro).2.symm⟩

omit [KeyPrimitives] in
lemma total_foldlM_addTo {es : List (String × ℕ)} {m m' : Std.ExtTreeMap String ℕ}
    (h : es.foldlM (fun m e => addTo m e.1 e.2) m = .ok m') :
    total id m' = total id m + (es.map Prod.snd).sum := by
  induction es generalizing m with
  | nil =>
    cases h
    rfl
  | cons e es ih =>
    obtain ⟨mid, hmid, h⟩ := bind_ok.mp h
    rw [ih h, total_addTo hmid, map_cons, sum_cons, add_assoc]

lemma settleOne_ok {link : ObjectId} {t : ServiceTicket}
    (ht : ticketAt store link = .ok t) (h : settleOne store request out link = .ok out') :
    out'.paid = out.paid + max t.price (t.due store request.rate.creatorBps) := by
  obtain ⟨_, ht', h⟩ := bind_ok.mp h
  obtain rfl := Except.ok.inj (ht.symm.trans ht')
  simp only [bind_ok] at h
  obtain ⟨split, hsplit, host, hhost, creators, hcreators, h⟩ := h
  cases h
  have hsum : total id creators = total id out.creatorMicro + total id split.creatorMicro :=
    total_foldlM_addTo hcreators
  have hpaid := hostMicro_add_total hsplit
  obtain ⟨-, rfl⟩ := checkedAdd_ok.mp hhost
  simp only [RedemptionSplit.paid]
  omega

/-- Along the tickets of a request, no less is given out than is claimed, and no more exactly when
each ticket's price is enough for its authors. -/
lemma paid_of_foldlM {ids : List ObjectId}
    (hverify : ids.foldlM (verifyOne store request) sums = .ok sums')
    (hsettle : ids.foldlM (settleOne store request) out = .ok out') :
    sums'.micro + out.paid ≤ sums.micro + out'.paid ∧
      (sums'.micro + out.paid = sums.micro + out'.paid ↔ ∀ id ∈ ids, ∀ t,
        ticketAt store id = .ok t → t.Covered store request.rate.creatorBps) := by
  induction ids generalizing sums out with
  | nil =>
    cases hverify
    cases hsettle
    simp
  | cons id ids ih =>
    obtain ⟨midSums, hone, hverify⟩ := bind_ok.mp hverify
    obtain ⟨mid, hmid, hsettle⟩ := bind_ok.mp hsettle
    obtain ⟨t, ht, hmicro⟩ := verifyOne_ok hone
    have hpaid := settleOne_ok ht hmid
    obtain ⟨hle, hiff⟩ := ih hverify hsettle
    rw [forall_mem_cons, ← hiff]
    have hhead : (∀ t', ticketAt store id = .ok t' → t'.Covered store request.rate.creatorBps) ↔
        t.due store request.rate.creatorBps ≤ t.price := by
      simp [ht, ServiceTicket.Covered]
    rw [hhead]
    omega

end

end Mininet.Ticket
