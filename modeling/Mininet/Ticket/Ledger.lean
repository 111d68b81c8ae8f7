import Mathlib.Data.List.Sort
import Mininet.Ticket.Split

/-!
# Ledgers

What one identity owes and is owed by the tickets on a device, together with the fees on what it
does often. The tickets are sorted and taken in turn, each once.
-/

namespace Mininet.Ticket

open Codec Fallible TreeMaps Identity Objects List

/-! ### Fees on actions -/

def feeWindowMs : ℕ := 60 * 60 * 1000

def maxDoublings : ℕ := 20

/-- A kind of action that is cheap to repeat. -/
inductive ActionKind where
  | post
  | comment
  | reaction
  | follow
  | membership
  | community
  | media
  deriving DecidableEq

namespace ActionKind

def all : List ActionKind := [post, comment, reaction, follow, membership, community, media]

/-- The free actions of an hour, and the fee for the first one past them. -/
def schedule : ActionKind → ℕ × ℕ
  | post       => (5, 10)
  | comment    => (3, 10)
  | reaction   => (30, 1)
  | follow     => (20, 5)
  | membership => (10, 10)
  | community  => (1, 100)
  | media      => (3, 50)

def objectType : ActionKind → ObjectType
  | post       => .wellKnown 1
  | comment    => .wellKnown 2
  | reaction   => .wellKnown 5
  | follow     => .wellKnown 4
  | membership => .custom "mini/community-membership"
  | community  => .wellKnown 7
  | media      => Media.mediaManifest

lemma objectType_ne_ticketType (kind : ActionKind) : ticketType ≠ kind.objectType := by
  cases kind <;> decide

end ActionKind

def actionFee (kind : ActionKind) (priorInWindow : ℕ) : ℕ :=
  if priorInWindow < kind.schedule.1 then 0
  else kind.schedule.2 * 2 ^ min (priorInWindow - kind.schedule.1) maxDoublings

structure ActionFeeLine where
  object : ObjectId
  feeMicro : ℕ

structure ActionFees where
  lines : List ActionFeeLine := []
  totalMicro : ℕ := 0

/-- The fee of one action, after those of the hour before it. -/
def feeStep (kind : ActionKind) (acc : List ℕ × ActionFees) (entry : UInt64 × ObjectId) :
    Except TicketError (List ℕ × ActionFees) := do
  let at_ := entry.1.toNat
  let window := (acc.1 ++ [at_]).dropWhile fun t => min (t + feeWindowMs) (2 ^ 64 - 1) ≤ at_
  -- at the last of all times no action is within the hour, not even this one
  failIf (window = []) .panics
  let fee := actionFee kind (window.length - 1)
  if fee = 0 then return (window, acc.2) else
    let total ← checkedAdd acc.2.totalMicro fee
    return (window, ⟨acc.2.lines ++ [⟨entry.2, fee⟩], total⟩)

def feesFor (kind : ActionKind) (mine : List (UInt64 × ObjectId)) :
    Except TicketError ActionFees := do
  let sorted := mine.insertionSort fun a b => a.1 < b.1 ∨ a.1 = b.1 ∧ a.2 ≤ b.2
  let (_, fees) ← sorted.foldlM (feeStep kind) ([], {})
  return fees

def byAuthor (store : Holdings) (kind : ActionKind) :
    Std.ExtTreeMap String (List (UInt64 × ObjectId)) :=
  (store.byType kind.objectType).foldl (fun m o =>
    m.insert o.authorHuman.asStr (m[o.authorHuman.asStr]?.getD [] ++ [(o.timestampMs, o.id)])) ∅

def actionFees (store : Holdings) (author : Did) : Except TicketError ℕ :=
  ActionKind.all.foldlM (fun total kind => do
    let fees ← feesFor kind ((byAuthor store kind)[author.asStr]?.getD [])
    checkedAdd total fees.totalMicro) 0

/-- The fees of all authors, as they are gone through. -/
def feeLines (store : Holdings) : Except TicketError (List ActionFeeLine) :=
  (ActionKind.all.flatMap fun kind => (byAuthor store kind).values.map (kind, ·)).foldlM
    (fun lines group => do
      let fees ← feesFor group.1 group.2
      return lines ++ fees.lines) []

/-- The bytes by which a provider is weighed for an object. -/
def servedBy (tickets : List ServiceTicket) (object : ObjectId) : Std.ExtTreeMap String ℕ :=
  tickets.foldl (fun m t =>
    ((t.fields.served ++ t.fields.completedMedia).filter (·.object = object)).foldl
      (fun m l => m.insert t.fields.provider.asStr
        (min (m[t.fields.provider.asStr]?.getD 0 + max l.bytes 1) (2 ^ 64 - 1))) m) ∅

/-- Divide a fee between the providers of its object; what is left over goes to the first. -/
def shareFee (tickets : List ServiceTicket) (shares : Std.ExtTreeMap String ℕ)
    (line : ActionFeeLine) : Std.ExtTreeMap String ℕ :=
  let hosts := (servedBy tickets line.object).toList
  let weight := (hosts.map Prod.snd).sum
  let parts := hosts.map fun e => (e.1, line.feeMicro * e.2 / weight)
  let rest := (hosts.head?.map fun e => (e.1, line.feeMicro - (parts.map Prod.snd).sum)).toList
  (parts ++ rest).foldl (fun m e => m.insert e.1 (m[e.1]?.getD 0 + e.2)) shares

def hostShares (store : Holdings) (tickets : List ServiceTicket) :
    Except TicketError (Std.ExtTreeMap String ℕ) := do
  let lines ← feeLines store
  return lines.foldl (shareFee tickets) ∅

section

variable {store : Holdings} {o : Object} {h : o.id ∉ store.objects.map Object.id}

/-- A ticket carries no fee. -/
lemma byAuthor_add (htype : o.objectType = ticketType) :
    byAuthor (store.add o h) = byAuthor store := by
  funext kind
  rw [byAuthor, byAuthor, Holdings.byType_add_of_ne (htype ▸ kind.objectType_ne_ticketType)]

end

/-! ### Ledgers -/

structure LedgerEntry where
  ticket : ServiceTicket
  hostMicro : ℕ
  creatorMicro : Std.ExtTreeMap String ℕ

structure Ledger where
  asHost : List LedgerEntry := []
  hostMicro : ℕ := 0
  creatorMicro : ℕ := 0
  bytesServed : ℕ := 0
  issued : List ServiceTicket := []
  bytesReceived : ℕ := 0
  actionFeesOwedMicro : ℕ := 0
  actionFeesEarnedMicro : ℕ := 0
  owedMicro : ℕ := 0
  owedToHostsMicro : ℕ := 0
  owedToCreatorsMicro : ℕ := 0
  costs : List LedgerEntry := []
  duplicates : ℕ := 0
  malformed : ℕ := 0

namespace Ledger

/-- Enter a ticket of one's own. -/
def owe (l : Ledger) (t : ServiceTicket) (split : TicketSplit) : Except TicketError Ledger := do
  let bytesReceived ← checkedAdd l.bytesReceived t.fields.bytesReceived
  let owed ← checkedAdd l.owedMicro split.totalMicro
  let toHosts ← checkedAdd l.owedToHostsMicro split.hostMicro
  let toCreators ← checkedAdd l.owedToCreatorsMicro (split.totalMicro - split.hostMicro)
  return { l with
    bytesReceived := bytesReceived
    owedMicro := owed
    owedToHostsMicro := toHosts
    owedToCreatorsMicro := toCreators
    costs := l.costs ++ [⟨t, split.hostMicro, split.creatorMicro⟩]
    issued := l.issued ++ [t] }

/-- Enter what a ticket that names one as provider brings. -/
def host (me : Did) (l : Ledger) (t : ServiceTicket) (split : TicketSplit) :
    Except TicketError Ledger :=
  if t.fields.provider = me then do
    let hostMicro ← checkedAdd l.hostMicro split.hostMicro
    let bytesServed ← checkedAdd l.bytesServed t.fields.bytesReceived
    return { l with hostMicro := hostMicro, bytesServed := bytesServed }
  else return l

/-- Enter what one's content brings. -/
def create (me : Did) (l : Ledger) (split : TicketSplit) : Except TicketError Ledger :=
  match split.creatorMicro[me.asStr]? with
  | some mine => do
    let creatorMicro ← checkedAdd l.creatorMicro mine
    return { l with creatorMicro := creatorMicro }
  | none => return l

/-- Note a ticket that brings one something. -/
def note (me : Did) (l : Ledger) (t : ServiceTicket) (split : TicketSplit) : Ledger :=
  if t.fields.provider = me ∨ (split.creatorMicro[me.asStr]?).isSome then
    { l with asHost := l.asHost ++ [⟨t, split.hostMicro, split.creatorMicro⟩] }
  else l

/-- Enter one ticket. -/
def add (store : Holdings) (rate : Rate) (me : Did) (l : Ledger) (t : ServiceTicket) :
    Except TicketError Ledger := do
  let split ← splitTicket store t rate.creatorBps
  if t.consumer = me then l.owe t split else
    let l ← l.host me t split
    let l ← l.create me split
    return l.note me t split

end Ledger

/-- A ledger while the tickets are gone through. -/
structure Tally where
  ledger : Ledger
  deduped : List ServiceTicket := []
  seen : List (String × Bytes) := []

/-- Take a ticket, unless it has been seen. -/
def Tally.visit (store : Holdings) (rate : Rate) (me : Did) (s : Tally) (t : ServiceTicket) :
    Except TicketError Tally :=
  if t.key ∈ s.seen then
    return { s with ledger := { s.ledger with duplicates := s.ledger.duplicates + 1 } }
  else do
    let ledger ← s.ledger.add store rate me t
    return ⟨ledger, s.deduped ++ [t], t.key :: s.seen⟩

/-- The order in which tickets are taken. -/
def ServiceTicket.Earlier (a b : ServiceTicket) : Prop :=
  a.timestampMs < b.timestampMs ∨ a.timestampMs = b.timestampMs ∧ a.id ≤ b.id

instance : DecidableRel ServiceTicket.Earlier := fun _ _ => inferInstanceAs (Decidable (_ ∨ _))

section

variable [KeyPrimitives]

/-- The tickets on a device, as they are found. -/
def Holdings.tickets (store : Holdings) : List ServiceTicket :=
  (store.byType ticketType).filterMap fun o => (readTicket o).toOption

def Ledger.collect (store : Holdings) (me : Did) (rate : Rate) : Except TicketError Ledger := do
  rate.validate
  let malformed := (store.byType ticketType).countP fun o => !(readTicket o).isOk
  let sorted := store.tickets.insertionSort ServiceTicket.Earlier
  let tally ← sorted.foldlM (Tally.visit store rate me) ⟨{ malformed := malformed }, [], []⟩
  let owed ← actionFees store me
  let shares ← hostShares store tally.deduped
  return { tally.ledger with
    actionFeesOwedMicro := owed
    actionFeesEarnedMicro := shares[me.asStr]?.getD 0 }

end

/-! ### What is owed and what is credited -/

section

variable {store : Holdings} {rate : Rate} {me : Did} {t : ServiceTicket}

/-- What is credited for a ticket to its provider. -/
def ServiceTicket.hostCredit (t : ServiceTicket) (s : TicketSplit) (me : Did) : ℕ :=
  if t.consumer ≠ me ∧ t.fields.provider = me then s.hostMicro else 0

/-- What is credited for a ticket to an author. -/
def ServiceTicket.creatorCredit (t : ServiceTicket) (s : TicketSplit) (me : Did) : ℕ :=
  if t.consumer = me then 0 else s.creatorMicro[me.asStr]?.getD 0

lemma Ledger.add_ok {l l' : Ledger} (h : l.add store rate me t = .ok l') :
    ∃ s, splitTicket store t rate.creatorBps = .ok s ∧
      l'.owedMicro = l.owedMicro + (if t.consumer = me then s.totalMicro else 0) ∧
      l'.hostMicro + l'.creatorMicro =
        l.hostMicro + l.creatorMicro + (t.hostCredit s me + t.creatorCredit s me) := by
  obtain ⟨s, hs, h⟩ := bind_ok.mp h
  refine ⟨s, hs, ?_⟩
  simp only [ServiceTicket.hostCredit, ServiceTicket.creatorCredit]
  split_ifs at h with hme
  · obtain ⟨_, -, h⟩ := bind_ok.mp h
    simp only [bind_ok] at h
    obtain ⟨_, howed, _, -, _, -, h⟩ := h
    cases h
    simp [hme, (checkedAdd_ok.mp howed).2]
  · obtain ⟨hosted, hhosted, h⟩ := bind_ok.mp h
    obtain ⟨created, hcreated, h⟩ := bind_ok.mp h
    have hhost : hosted.owedMicro = l.owedMicro ∧ hosted.creatorMicro = l.creatorMicro ∧
        hosted.hostMicro = l.hostMicro + if t.fields.provider = me then s.hostMicro else 0 := by
      rw [Ledger.host] at hhosted
      split_ifs at hhosted ⊢ with hprovider
      · obtain ⟨_, hmicro, hhosted⟩ := bind_ok.mp hhosted
        obtain ⟨_, -, hhosted⟩ := bind_ok.mp hhosted
        cases hhosted
        exact ⟨rfl, rfl, (checkedAdd_ok.mp hmicro).2.symm⟩
      · cases hhosted
        exact ⟨rfl, rfl, rfl⟩
    have hcreate : created.owedMicro = hosted.owedMicro ∧ created.hostMicro = hosted.hostMicro ∧
        created.creatorMicro = hosted.creatorMicro + s.creatorMicro[me.asStr]?.getD 0 := by
      rw [Ledger.create] at hcreated
      split at hcreated
      next mine hmine =>
        obtain ⟨_, hmicro, hcreated⟩ := bind_ok.mp hcreated
        cases hcreated
        exact ⟨rfl, rfl, by rw [hmine]; exact (checkedAdd_ok.mp hmicro).2.symm⟩
      next hmine =>
        cases hcreated
        exact ⟨rfl, rfl, by rw [hmine]; rfl⟩
    have hsame : l'.owedMicro = created.owedMicro ∧ l'.hostMicro = created.hostMicro ∧
        l'.creatorMicro = created.creatorMicro := by
      cases h
      rw [Ledger.note]
      split_ifs <;> exact ⟨rfl, rfl, rfl⟩
    simp only [hme, if_false, not_false_eq_true, true_and, ne_eq]
    omega

/-- Over a group that all of the authors belong to, what they are credited is what they are due. -/
lemma sum_creatorCredit {s : TicketSplit} {fallback : ℕ} {people : Finset Did}
    (h : splitTicket store t fallback = .ok s)
    (hauthors : ∀ piece ∈ t.pieces store, piece.1 ∈ people) :
    ∑ p ∈ people, t.creatorCredit s p = t.due store fallback := by
  obtain ⟨-, -, -, hcreators⟩ := splitTicket_ok h
  have hcredit : ∀ p, t.creatorCredit s p = s.creatorMicro[p.asStr]?.getD 0 := by
    intro p
    rw [ServiceTicket.creatorCredit]
    split_ifs with hp
    · rw [getElem?_creatorMicro h fun _ _ _ => hp.symm]
      rfl
    · rfl
  have hsum := measure_credited (fun m => ∑ p ∈ people, m[p.asStr]?.getD 0) ?_ hcreators
  · simpa [hcredit, ServiceTicket.due] using hsum
  · intro piece hpiece _ m m' v hadd
    have hmem := hauthors piece hpiece
    have hat : ∀ p : Did, m'[p.asStr]?.getD 0 =
        m[p.asStr]?.getD 0 + if p = piece.1 then v else 0 := by
      intro p
      rw [addTo_ok hadd, Std.ExtTreeMap.getElem?_insert]
      by_cases hp : p = piece.1
      · simp [hp]
      · simp [hp, Did.asStr_injective.ne (Ne.symm hp)]
    simp only [hat, Finset.sum_add_distrib, Finset.sum_ite_eq', hmem, if_true]

end

section

variable [KeyPrimitives]

end

/-- An object by `author`. -/
def sampleObject (id : ObjectId) (author : Did) (type : ObjectType) (payload : Bytes) : Object where
  id := id
  suite := .ed25519
  objectType := type
  authorHuman := author
  authorDevice := author
  timestampMs := 1
  sequence := 0
  links := []
  payload := .pub payload
  signatures := []

/-- A ticket for `bytes` bytes, with everything to the authors of what it lists. -/
def sampleTicket (id : ObjectId) (consumer provider : Did) (rate bytes : UInt64)
    (served : List ObjectId) : Object :=
  sampleObject id consumer ticketType ([ticketVersion] ++ framed UInt32 (utf8 provider.asStr) ++
    [1] ++ toBeBytes rate ++ toBeBytes bytes ++ toBeBytes (1 : UInt32) ++ List.replicate 64 0 ++
    countBytes UInt32 0 ++ toBeBytes (10000 : UInt16) ++ countBytes UInt32 served.length ++
    served.flatMap fun object => framed UInt32 (utf8 object.asStr) ++ toBeBytes (1 : UInt64))

def sampleDid (b : UInt8) : Did := ⟨(@ObjectId.of .sample [b]).asStr⟩

/-! ### A ticket more -/

/-- The same ledger, but for the duplicates and the fees earned. -/
def Ledger.Agrees (l l' : Ledger) : Prop :=
  l' = { l with
    duplicates := l'.duplicates
    actionFeesEarnedMicro := l'.actionFeesEarnedMicro }

/-- The amounts of a ticket are within range. -/
structure ServiceTicket.Priceable (t : ServiceTicket) (store : Holdings) (fallback : ℕ) :
    Prop where
  bps_le : t.bps fallback ≤ 10000
  price_lt : t.price < 2 ^ 64
  due_lt : t.due store fallback < 2 ^ 64
  piece_lt : ∀ piece ∈ t.pieces store, piece.1 ≠ t.consumer →
    priceMicro t.fields.rateMicroPerMb piece.2 * max (t.bps fallback) 1 < 2 ^ 64

section

variable {store : Holdings} {o : Object} {h : o.id ∉ store.objects.map Object.id} {rate : Rate}
  {me : Did} {t : ServiceTicket} {fallback : ℕ}

variable {s r : Tally} {m : Std.ExtTreeMap String ℕ} {ts : List ServiceTicket} {k : String × Bytes}
  {s' : Tally}

lemma exists_addTo {k : String} {v : ℕ}
    (hfits : total id m + v < 2 ^ 64) : ∃ m', addTo m k v = .ok m' := by
  have hle : m[k]?.getD 0 ≤ total id m := by
    have herase := total_erase id m k
    cases hk : m[k]? with
    | none => exact Nat.zero_le _
    | some w =>
      simp only [hk, Option.elim_some, id] at herase
      exact le_of_add_le_right herase.le
  exact ⟨_, bind_ok.mpr ⟨_, checkedAdd_ok.mpr ⟨by omega, rfl⟩, rfl⟩⟩

lemma exists_credited {bps : ℕ} {pieces : List (Did × ℕ)}
    (hpiece : ∀ piece ∈ pieces, piece.1 ≠ t.consumer →
      priceMicro t.fields.rateMicroPerMb piece.2 * max bps 1 < 2 ^ 64)
    (hfits : total id m + (pieces.map (t.shareOf bps)).sum < 2 ^ 64) :
    ∃ m', pieces.foldlM (t.credit bps) m = .ok m' := by
  induction pieces generalizing m with
  | nil => exact ⟨m, rfl⟩
  | cons piece pieces ih =>
    obtain ⟨hhead, htail⟩ := forall_mem_cons.mp hpiece
    rw [map_cons, sum_cons, ServiceTicket.shareOf] at hfits
    simp only [foldlM_cons, ServiceTicket.credit]
    split_ifs at hfits ⊢ with hself
    · exact ih htail (by simpa using hfits)
    · obtain ⟨mid, hmid⟩ := exists_addTo (k := piece.1.asStr) (lt_of_le_of_lt
        (Nat.add_le_add_left (Nat.le_add_right _ _) _) hfits)
      obtain ⟨m', hm'⟩ := ih htail (m := mid) (by rw [total_addTo hmid]; omega)
      refine ⟨m', bind_ok.mpr ⟨mid, bind_ok.mpr ⟨_, priceAt_ok.mpr ⟨rfl, ?_⟩, ?_⟩, hm'⟩⟩
      · exact lt_of_le_of_lt (Nat.le_mul_of_pos_right _ (by simp)) (hhead hself)
      · refine failIf_bind_ok.mpr ⟨not_le.mpr (lt_of_le_of_lt ?_ (hhead hself)), hmid⟩
        exact Nat.mul_le_mul_left _ (le_max_left _ _)

lemma exists_splitTicket (hp : t.Priceable store fallback) :
    ∃ s, splitTicket store t fallback = .ok s := by
  have hfits : total id (∅ : Std.ExtTreeMap String ℕ) +
      ((t.pieces store).map (t.shareOf (t.bps fallback))).sum < 2 ^ 64 := by
    rw [total_empty, zero_add]
    exact hp.due_lt
  obtain ⟨m, hm⟩ := exists_credited hp.piece_lt hfits
  exact ⟨_, failIf_bind_ok.mpr ⟨not_lt.mpr hp.bps_le, bind_ok.mpr ⟨m, hm,
    bind_ok.mpr ⟨_, priceAt_ok.mpr ⟨rfl, hp.price_lt⟩, rfl⟩⟩⟩⟩

/-- A ticket among what a device holds changes the division of those only that list it as
served: it is no manifest. -/
lemma splitTicket_add (htype : o.objectType = ticketType)
    (hunlisted : o.id ∉ t.fields.served.map Listed.object) :
    splitTicket (store.add o h) t fallback = splitTicket store t fallback := by
  have hmedia : ∀ l, ServiceTicket.mediaAuthor (store.add o h) l =
      ServiceTicket.mediaAuthor store l := by
    intro l
    rw [ServiceTicket.mediaAuthor, ServiceTicket.mediaAuthor]
    by_cases hl : l.object = o.id
    · have hmanifest : Media.readManifest o = .error .badManifest := by
        rw [Media.readManifest, htype]
        rfl
      simp [hl, Holdings.get_add_self, Holdings.get_none (h := h), hmanifest, Except.isOk,
        Except.toBool]
    · rw [Holdings.get_add_of_ne hl]
  have hserved : ∀ l ∈ t.fields.served, (store.add o h).get l.object = store.get l.object :=
    fun l hl => Holdings.get_add_of_ne fun heq => hunlisted (heq ▸ mem_map_of_mem hl)
  have hpieces : t.pieces (store.add o h) = t.pieces store := by
    rw [ServiceTicket.pieces, ServiceTicket.pieces]
    simp only [hmedia]
    congr 1
    exact filterMap_congr fun l hl => by rw [hserved l hl]
  rw [splitTicket, splitTicket, hpieces]

/-- A ticket that concerns others only leaves a ledger as it is. -/
lemma Ledger.add_of_stranger (hp : t.Priceable store rate.creatorBps) (hconsumer : t.consumer ≠ me)
    (hprovider : t.fields.provider ≠ me) (hauthors : ∀ piece ∈ t.pieces store, piece.1 ≠ me)
    (l : Ledger) : l.add store rate me t = .ok l := by
  obtain ⟨s, hs⟩ := exists_splitTicket hp
  have hnone := getElem?_creatorMicro hs fun piece hpiece heq => absurd heq (hauthors piece hpiece)
  refine bind_ok.mpr ⟨s, hs, ?_⟩
  simp [hconsumer, Ledger.host, Ledger.create, Ledger.note, hprovider, hnone]

/-- The same ledger, with one key more seen. -/
def Tally.Beside (k : String × Bytes) (s s' : Tally) : Prop :=
  s'.ledger = s.ledger ∧ ∀ k', k' ∈ s'.seen ↔ k' = k ∨ k' ∈ s.seen

lemma Tally.Beside.visit (hs : Beside k s s') (hk : t.key ≠ k)
    (hr : s.visit store rate me t = .ok r) :
    ∃ r', s'.visit store rate me t = .ok r' ∧ Beside k r r' := by
  obtain ⟨hledger, hseen⟩ := hs
  have hiff : t.key ∈ s'.seen ↔ t.key ∈ s.seen := by simp [hseen, hk]
  rw [Tally.visit] at hr
  rw [Tally.visit, hledger]
  simp only [hiff]
  split_ifs at hr ⊢ with hdup
  · cases hr
    exact ⟨_, rfl, by simp, hseen⟩
  · obtain ⟨l, hl, hr⟩ := bind_ok.mp hr
    cases hr
    refine ⟨_, bind_ok.mpr ⟨l, hl, rfl⟩, rfl, fun k' => ?_⟩
    simp only [mem_cons, hseen]
    exact or_left_comm

lemma Tally.Beside.foldlM (hs : Beside k s s') (hk : ∀ t ∈ ts, t.key ≠ k)
    (hr : ts.foldlM (Tally.visit store rate me) s = .ok r) :
    ∃ r', ts.foldlM (Tally.visit store rate me) s' = .ok r' ∧ Beside k r r' := by
  induction ts generalizing s s' with
  | nil =>
    cases hr
    exact ⟨s', rfl, hs⟩
  | cons t ts ih =>
    obtain ⟨hhead, htail⟩ := forall_mem_cons.mp hk
    obtain ⟨mid, hmid, hr⟩ := bind_ok.mp hr
    obtain ⟨mid', hmid', hbeside⟩ := hs.visit hhead hmid
    obtain ⟨r', hr', hrel⟩ := ih hbeside htail hr
    exact ⟨r', bind_ok.mpr ⟨mid', hmid', hr'⟩, hrel⟩

/-- What has been seen are keys of tickets. -/
lemma Tally.forall_seen {P : String × Bytes → Prop}
    (hs : ∀ k ∈ s.seen, P k) (hts : ∀ t ∈ ts, P t.key)
    (hr : ts.foldlM (Tally.visit store rate me) s = .ok r) : ∀ k ∈ r.seen, P k := by
  refine foldlM_invariant (P := fun s => ∀ k ∈ s.seen, P k) (fun s t ht s' hs hv => ?_) hs hr
  rw [Tally.visit] at hv
  split_ifs at hv
  · cases hv
    exact hs
  · obtain ⟨l, -, hv⟩ := bind_ok.mp hv
    cases hv
    exact forall_mem_cons.mpr ⟨hts t ht, hs⟩

end

section

variable [KeyPrimitives]

/-- What keeps a ticket out of the way of the others: it can be priced, no other has its consumer
and nonce, and none lists it as served. -/
structure Harmless (store : Holdings) (rate : Rate) (o : Object)
    (h : o.id ∉ store.objects.map Object.id) (t : ServiceTicket) : Prop where
  priceable : t.Priceable (store.add o h) rate.creatorBps
  key_ne : ∀ t' ∈ store.tickets, t'.key ≠ t.key
  unlisted : ∀ t' ∈ store.tickets, o.id ∉ t'.fields.served.map Listed.object

/-- Going through the tickets with one more that is harmless and a stranger's. -/
lemma foldlM_visit_add {store : Holdings} {me : Did} {rate : Rate} {o : Object}
    {h : o.id ∉ store.objects.map Object.id} {t : ServiceTicket} {ts : List ServiceTicket}
    {s r : Tally} (hread : readTicket o = .ok t) (hseen : s.seen = [])
    (hharmless : Harmless store rate o h t) (hts : ∀ t' ∈ ts, t' ∈ store.tickets)
    (hadd : ∀ l : Ledger, l.add (store.add o h) rate me t = .ok l)
    (hr : ts.foldlM (Tally.visit store rate me) s = .ok r) :
    ∃ r', (ts.orderedInsert ServiceTicket.Earlier t).foldlM
      (Tally.visit (store.add o h) rate me) s = .ok r' ∧ r'.ledger = r.ledger := by
  have hsame : ∀ t' ∈ ts, ∀ s,
      Tally.visit (store.add o h) rate me s t' = Tally.visit store rate me s t' := by
    intro t' ht' s
    rw [Tally.visit, Tally.visit, Ledger.add, Ledger.add,
      splitTicket_add (readTicket_ok hread).1 (hharmless.unlisted t' (hts t' ht'))]
  rw [← foldlM_congr hsame] at hr
  -- the ticket comes somewhere between those before it and those after it
  rw [orderedInsert_eq_take_drop]
  generalize hearly : ts.takeWhile _ = early
  generalize hlate : ts.dropWhile _ = late
  obtain rfl : early ++ late = ts := hearly ▸ hlate ▸ takeWhile_append_dropWhile
  rw [foldlM_append] at hr ⊢
  obtain ⟨mid, hmid, hr⟩ := bind_ok.mp hr
  have hkeys : ∀ t' ∈ early ++ late, t'.key ≠ t.key := fun t' ht' =>
    hharmless.key_ne t' (hts t' ht')
  have hnew : t.key ∉ mid.seen := fun hmem =>
    Tally.forall_seen (P := (· ≠ t.key)) (by simp [hseen])
      (fun t' ht' => hkeys t' (mem_append_left _ ht')) hmid _ hmem rfl
  have hvisit : mid.visit (store.add o h) rate me t =
      .ok ⟨mid.ledger, mid.deduped ++ [t], t.key :: mid.seen⟩ := by
    rw [Tally.visit, if_neg hnew, hadd]
    rfl
  have hbeside : Tally.Beside t.key mid ⟨mid.ledger, mid.deduped ++ [t], t.key :: mid.seen⟩ :=
    ⟨rfl, fun _ => mem_cons⟩
  obtain ⟨r', hr', hledger, -⟩ := hbeside.foldlM
    (fun t' ht' => hkeys t' (mem_append_right _ ht')) hr
  exact ⟨r', bind_ok.mpr ⟨mid, hmid, bind_ok.mpr ⟨_, hvisit, hr'⟩⟩, hledger⟩

end

/-- A device that holds nothing yet. -/
def sampleHoldings : Holdings := ⟨[], nodup_nil⟩

end Mininet.Ticket
