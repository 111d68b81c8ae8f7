import Mininet.Crypto

/-!
# Deferred transport

A node admits parcels, hands them out by deficit round robin and forgets them at their deadline. The
queues, the table of entries, the index of application ids and the byte total agree in every run
(`Sound`), and whatever leaves a queue leaves through `leave`. A parcel that is already known is
answered with the id of its entry, whatever became of that entry: after a cancellation or an expiry
the answer is `ok` and nothing is queued.
-/

namespace Mininet.Dtn

open Codec List

/-! ### Parcels -/

def maxParcelBytes : ℕ := 1048576

def maxControlParcelBytes : ℕ := 65536

def deferredIdDomain : Bytes := utf8 "mini-dtn/deferred-id/v1"

inductive DtnError where
  | parcelTooLarge
  | controlParcelTooLarge
  | queueFull
  | unknownParcel
  deriving DecidableEq, Repr

/-- A route capability: neither empty nor longer than 256 bytes. -/
structure EndpointId where
  id : String
  wf : id ≠ "" ∧ (utf8 id).length ≤ 256
  deriving DecidableEq

inductive Priority where
  | p0 | p1 | p2 | p3
  deriving DecidableEq, Repr

namespace Priority

instance : Fintype Priority := ⟨{p0, p1, p2, p3}, fun p => by cases p <;> decide⟩

def all : List Priority := [p0, p1, p2, p3]

def drrWeight : Priority → ℕ
  | p0 => 4
  | p1 => 3
  | p2 => 2
  | p3 => 1

def isControlClass (p : Priority) : Bool := p = p0 ∨ p = p1

def tag : Priority → UInt8
  | p0 => 0
  | p1 => 1
  | p2 => 2
  | p3 => 3

end Priority

inductive LifetimeClass where
  | ephemeral | short | standard | archival | deepSpace
  deriving DecidableEq, Repr

namespace LifetimeClass

def durationMs : LifetimeClass → ℕ
  | ephemeral => 3600000
  | short     => 86400000
  | standard  => 30 * 86400000
  | archival  => 180 * 86400000
  | deepSpace => 365 * 86400000

def tag : LifetimeClass → UInt8
  | ephemeral => 0
  | short     => 1
  | standard  => 2
  | archival  => 3
  | deepSpace => 4

end LifetimeClass

abbrev DeferredId := Hash

structure DeferredParcel where
  destination : EndpointId
  payload : Bytes
  priority : Priority
  lifetime : LifetimeClass
  semanticId : Option Hash

namespace DeferredParcel

/-- The bytes a parcel's transport identity is the digest of. -/
def message (parcel : DeferredParcel) : Bytes :=
  deferredIdDomain ++ (beBytes 4 (utf8 parcel.destination.id).length ++
    (utf8 parcel.destination.id ++ (beBytes 4 parcel.payload.length ++ (parcel.payload ++
      (parcel.priority.tag :: parcel.lifetime.tag ::
        (parcel.semanticId.elim [0] fun id => 1 :: id.bytes))))))

def transportId [Primitives] (parcel : DeferredParcel) : DeferredId := blake3 parcel.message

lemma destination_eq_of_message_eq {a b : DeferredParcel} (h : a.message = b.message) :
    a.destination = b.destination := by
  have hlen := (append_inj (append_cancel_left h) (by simp))
  have hsize : (utf8 a.destination.id).length = (utf8 b.destination.id).length :=
    beBytes_inj (by have := a.destination.wf.2; omega) (by have := b.destination.wf.2; omega) hlen.1
  have hid := utf8_injective (append_inj hlen.2 hsize).1
  obtain ⟨⟨_, _⟩, _⟩ := a
  obtain ⟨⟨_, _⟩, _⟩ := b
  simpa using hid

end DeferredParcel

/-! ### The scheduler -/

inductive DeferredStatus where
  | queuedLocal | bundleDelivered | expiredTransport | cancelled
  deriving DecidableEq, Repr

structure Entry where
  parcel : DeferredParcel
  id : DeferredId
  deadlineMs : ℕ
  status : DeferredStatus

structure DeliveredParcel where
  id : DeferredId
  destination : EndpointId
  payload : Bytes

structure Transport where
  queues : Priority → List DeferredId
  entries : DeferredId → Option Entry
  semanticIndex : EndpointId × Hash → Option DeferredId
  totalBytes : ℕ
  maxEntriesPerPriority : ℕ
  maxTotalBytes : ℕ
  drrDeficit : Priority → ℕ
  drrCursor : ℕ

/-- An entry at its end: only its metadata is kept. -/
def Entry.closed (status : DeferredStatus) (entry : Entry) : Entry :=
  { entry with status, parcel := { entry.parcel with payload := [] } }

namespace Transport

def new (maxEntriesPerPriority maxTotalBytes : ℕ) : Transport :=
  ⟨fun _ => [], fun _ => none, fun _ => none, 0, maxEntriesPerPriority, maxTotalBytes,
    fun _ => 0, 0⟩

/-- The payload bytes kept under an id. -/
def size (s : Transport) (id : DeferredId) : ℕ := (s.entries id).elim 0 (·.parcel.payload.length)

/-- An entry reaches a terminal status and gives its payload back. -/
def finish (status : DeferredStatus) (s : Transport) (id : DeferredId) : Transport :=
  { s with
    entries := Function.update s.entries id ((s.entries id).map (·.closed status))
    totalBytes := s.totalBytes - s.size id }

/-- The ids `gone` leave a queue, of which `rest` remains. -/
def leave (status : DeferredStatus) (s : Transport) (p : Priority) (gone rest : List DeferredId) :
    Transport :=
  { gone.foldl (finish status) s with queues := Function.update s.queues p rest }

def admitCheapChecks (parcel : DeferredParcel) : Except DtnError Unit :=
  if maxParcelBytes < parcel.payload.length then .error .parcelTooLarge
  else if parcel.priority.isControlClass ∧ maxControlParcelBytes < parcel.payload.length then
    .error .controlParcelTooLarge
  else .ok ()

def expired (s : Transport) (nowMs : ℕ) (id : DeferredId) : Bool :=
  (s.entries id).any fun entry => entry.deadlineMs ≤ nowMs

def reapClass (nowMs : ℕ) (s : Transport) (p : Priority) : Transport :=
  s.leave .expiredTransport p ((s.queues p).filter fun id => s.expired nowMs id)
    ((s.queues p).filter fun id => !s.expired nowMs id)

def reapExpired (s : Transport) (nowMs : ℕ) : Transport := Priority.all.foldl (reapClass nowMs) s

/-- A new parcel is entered and queued. -/
def keep [Primitives] (s : Transport) (parcel : DeferredParcel) (nowMs : ℕ) : Transport :=
  let id := parcel.transportId
  { s with
    queues := Function.update s.queues parcel.priority (s.queues parcel.priority ++ [id])
    entries := Function.update s.entries id (some
      ⟨parcel, id, min (nowMs + parcel.lifetime.durationMs) (2 ^ 64 - 1), .queuedLocal⟩)
    semanticIndex := parcel.semanticId.elim s.semanticIndex fun semanticId =>
      Function.update s.semanticIndex (parcel.destination, semanticId) (some id)
    totalBytes := s.totalBytes + parcel.payload.length }

def enqueue [Primitives] (s : Transport) (parcel : DeferredParcel) (nowMs : ℕ) :
    Except DtnError DeferredId × Transport :=
  match admitCheapChecks parcel with
  | .error e => (.error e, s)
  | .ok () =>
    if (s.entries parcel.transportId).isSome then (.ok parcel.transportId, s)
    else match parcel.semanticId.bind fun id => s.semanticIndex (parcel.destination, id) with
      | some existing => (.ok existing, s)
      | none =>
        if s.maxEntriesPerPriority ≤ (s.queues parcel.priority).length then (.error .queueFull, s)
        else if s.maxTotalBytes < s.totalBytes + parcel.payload.length then (.error .queueFull, s)
        else (.ok parcel.transportId, s.keep parcel nowMs)

/-- Hand out parcels of one class, one per unit of deficit; returns the deficit that is left. -/
def serve (p : Priority) (limit : ℕ) :
    ℕ → Transport → List DeliveredParcel → ℕ × Transport × List DeliveredParcel
  | 0, s, delivered => (0, s, delivered)
  | deficit + 1, s, delivered =>
    if limit ≤ delivered.length then (deficit + 1, s, delivered)
    else match s.queues p with
      | []         => (deficit + 1, s, delivered)
      | id :: rest =>
        serve p limit deficit (s.leave .bundleDelivered p [id] rest)
          (delivered ++ (s.entries id).toList.map fun entry =>
            ⟨entry.id, entry.parcel.destination, entry.parcel.payload⟩)

/-- A round of the scheduler on its way through the classes. -/
structure Scan where
  transport : Transport
  delivered : List DeliveredParcel
  nextCursor : ℕ
  madeProgress : Bool

def visit (limit : ℕ) (scan : Scan) (idx : ℕ) : Scan :=
  let s := scan.transport
  let p := Priority.all.getD idx .p0
  if limit ≤ scan.delivered.length then scan
  else if s.queues p = [] then { scan with nextCursor := (idx + 1) % 4 }
  else
    let deficit := (s.drrDeficit p + p.drrWeight) % 2 ^ 32
    let (left, s', delivered) := serve p limit deficit s scan.delivered
    { transport := { s' with drrDeficit := Function.update s'.drrDeficit p left }
      delivered
      nextCursor := (idx + 1) % 4
      madeProgress := scan.madeProgress || decide (0 < deficit) }

/-- The rounds of a poll. A round that makes progress shortens a queue, so that the number of queued
ids bounds how many there are. -/
def rounds (limit : ℕ) : ℕ → ℕ → Transport → List DeliveredParcel →
    List DeliveredParcel × Transport
  | 0, cursor, s, delivered => (delivered, { s with drrCursor := cursor })
  | fuel + 1, cursor, s, delivered =>
    if limit ≤ delivered.length ∨ ∀ p, s.queues p = [] then
      (delivered, { s with drrCursor := cursor })
    else
      let scan := (List.range 4).foldl (fun scan step => visit limit scan ((cursor + step) % 4))
        ⟨s, delivered, cursor, false⟩
      if scan.madeProgress then rounds limit fuel scan.nextCursor scan.transport scan.delivered
      else (scan.delivered, { scan.transport with drrCursor := scan.nextCursor })

def pollDelivered (s : Transport) (limit nowMs : ℕ) : List DeliveredParcel × Transport :=
  let s := s.reapExpired nowMs
  if limit = 0 then ([], s)
  else rounds limit (∑ p, (s.queues p).length + 1) (s.drrCursor % 4) s []

def status (s : Transport) (id : DeferredId) : Except DtnError DeferredStatus :=
  (s.entries id).elim (.error .unknownParcel) (.ok ·.status)

def cancelLocal (s : Transport) (id : DeferredId) : Except DtnError Unit × Transport :=
  match s.entries id with
  | none => (.error .unknownParcel, s)
  | some entry =>
    if entry.status ≠ .queuedLocal then (.error .unknownParcel, s)
    else (.ok (), s.leave .cancelled entry.parcel.priority [id]
      ((s.queues entry.parcel.priority).filter (· != id)))

/-! ### What leaving a queue does -/

section Leave

variable (status : DeferredStatus) (s : Transport) (p : Priority) (gone rest : List DeferredId)

lemma entries_foldl_finish (id : DeferredId) : (gone.foldl (finish status) s).entries id =
    if id ∈ gone then (s.entries id).map (·.closed status) else s.entries id := by
  induction gone generalizing s with
  | nil => simp
  | cons x gone ih =>
    rw [foldl_cons, ih]
    rcases eq_or_ne id x with rfl | hne
    · by_cases hmem : id ∈ gone <;> simp [finish, hmem, Entry.closed, Function.comp_def]
    · simp [finish, hne]

lemma entries_leave (id : DeferredId) : (s.leave status p gone rest).entries id =
    if id ∈ gone then (s.entries id).map (·.closed status) else s.entries id :=
  entries_foldl_finish status s gone id

lemma queues_leave (q : Priority) :
    (s.leave status p gone rest).queues q = if q = p then rest else s.queues q :=
  Function.update_apply _ _ _ _

lemma semanticIndex_leave : (s.leave status p gone rest).semanticIndex = s.semanticIndex :=
  List.foldlRecOn gone (finish status) (motive := fun t : Transport =>
    t.semanticIndex = s.semanticIndex) rfl fun _ ht _ _ => ht

lemma counters_leave : (s.leave status p gone rest).drrDeficit = s.drrDeficit ∧
    (s.leave status p gone rest).drrCursor = s.drrCursor :=
  List.foldlRecOn gone (finish status) (motive := fun t : Transport =>
    t.drrDeficit = s.drrDeficit ∧ t.drrCursor = s.drrCursor) ⟨rfl, rfl⟩ fun _ ht _ _ => ht

/-- Deadlines stay as they are. -/
lemma expired_leave (nowMs : ℕ) (id : DeferredId) :
    (s.leave status p gone rest).expired nowMs id = s.expired nowMs id := by
  rw [expired, entries_leave]
  split
  · simp [expired, Option.any_map, Entry.closed]
  · rfl

lemma size_leave_of_not_mem {id : DeferredId} (h : id ∉ gone) :
    (s.leave status p gone rest).size id = s.size id := by
  rw [size, entries_leave, if_neg h, size]

lemma totalBytes_foldl_finish (hnodup : gone.Nodup) :
    (gone.foldl (finish status) s).totalBytes = s.totalBytes - (gone.map s.size).sum := by
  induction gone generalizing s with
  | nil => simp
  | cons x gone ih =>
    obtain ⟨hx, hnodup⟩ := nodup_cons.mp hnodup
    have hsize : gone.map (finish status s x).size = gone.map s.size :=
      map_congr_left fun y hy => by
        have hne : y ≠ x := fun heq => hx (heq ▸ hy)
        simp [size, finish, hne]
    rw [foldl_cons, ih _ hnodup, hsize, map_cons, sum_cons, ← Nat.sub_sub]
    rfl

end Leave

/-! ### Runs -/

variable [Primitives] {parcels : Set DeferredParcel} {s : Transport}
  {log : List (DeliveredParcel × ℕ)} {nowMs limit : ℕ} {p : Priority}

/-- The queues, the entries, the index and the byte total agree, and every entry comes from one of
the `parcels`. -/
structure Sound (parcels : Set DeferredParcel) (s : Transport) : Prop where
  nodup : ∀ p, (s.queues p).Nodup
  mem_queues : ∀ p id, id ∈ s.queues p ↔
    ∃ entry, s.entries id = some entry ∧ entry.status = .queuedLocal ∧ entry.parcel.priority = p
  totalBytes : s.totalBytes = ∑ p, ((s.queues p).map s.size).sum
  semanticIndex : ∀ key id, s.semanticIndex key = some id →
    ∃ entry, s.entries id = some entry ∧ entry.parcel.destination = key.1
  origin : ∀ id entry, s.entries id = some entry → entry.id = id ∧
    ∃ parcel ∈ parcels, parcel.transportId = id ∧ entry.parcel.destination = parcel.destination

/-- What was handed out was handed out once, to its destination and before its deadline. -/
structure Logged (s : Transport) (log : List (DeliveredParcel × ℕ)) : Prop where
  nodup : (log.map (·.1.id)).Nodup
  delivered : ∀ d ∈ log, ∃ entry, s.entries d.1.id = some entry ∧
    entry.status = .bundleDelivered ∧ d.2 < entry.deadlineMs ∧
    d.1.destination = entry.parcel.destination

variable {rest : List DeferredId} {delivered : List DeliveredParcel} {id : DeferredId}
  {status : DeferredStatus} {gone : List DeferredId}

lemma sound_new (n b : ℕ) : Sound parcels (new n b) := by
  constructor <;> simp [new]

lemma sound_leave (h : Sound parcels s)
    (hperm : (s.queues p).Perm (gone ++ rest)) (hstatus : status ≠ .queuedLocal) :
    Sound parcels (s.leave status p gone rest) := by
  obtain ⟨hgone, hrest, hdisjoint⟩ := nodup_append'.mp (hperm.nodup_iff.mp (h.nodup p))
  have hqueued : ∀ id ∈ gone, id ∈ s.queues p := fun id hid => hperm.symm.subset (by simp [hid])
  have hother : ∀ q id, q ≠ p → id ∈ s.queues q → id ∉ gone := fun q id hq hid hg => by
    obtain ⟨e, he, -, rfl⟩ := (h.mem_queues q id).mp hid
    obtain ⟨e', he', -, rfl⟩ := (h.mem_queues p id).mp (hqueued id hg)
    cases he.symm.trans he'
    exact hq rfl
  refine ⟨fun q => ?_, fun q id => ?_, ?_, fun key id hid => ?_, fun id entry hentry => ?_⟩
  · rw [queues_leave]
    split
    · exact hrest
    · exact h.nodup q
  · rw [entries_leave, queues_leave]
    by_cases hg : id ∈ gone
    · refine iff_of_false ?_ ?_
      · split
        · exact hdisjoint hg
        next hq => exact fun hid => hother q id hq hid hg
      rw [if_pos hg]
      rintro ⟨_, he, hst, -⟩
      obtain ⟨e, -, rfl⟩ := Option.map_eq_some_iff.mp he
      exact hstatus hst
    · rw [if_neg hg, ← h.mem_queues]
      split
      next hq => simp [hq, hperm.mem_iff, hg]
      · rfl
  · have hp : ((s.queues p).map s.size).sum = (gone.map s.size).sum + (rest.map s.size).sum := by
      rw [(hperm.map _).sum_eq, map_append, sum_append]
    have hnew : ∀ q, (((s.leave status p gone rest).queues q).map
        (s.leave status p gone rest).size).sum =
        if q = p then (rest.map s.size).sum else ((s.queues q).map s.size).sum := by
      intro q
      rw [queues_leave]
      split
      next hq =>
        exact congrArg List.sum (map_congr_left fun id hid =>
          size_leave_of_not_mem _ _ _ _ _ fun hg => hdisjoint hg hid)
      next hq =>
        exact congrArg List.sum (map_congr_left fun id hid =>
          size_leave_of_not_mem _ _ _ _ _ (hother q id hq hid))
    have hsum : ∑ q, ((s.queues q).map s.size).sum =
        (gone.map s.size).sum + ∑ q, if q = p then (rest.map s.size).sum
          else ((s.queues q).map s.size).sum := by
      rw [← Finset.add_sum_erase _ _ (Finset.mem_univ p), ← Finset.add_sum_erase _
        (fun q => if q = p then _ else _) (Finset.mem_univ p), if_pos rfl, hp, add_assoc]
      congr 2
      exact Finset.sum_congr rfl fun q hq => (if_neg (Finset.ne_of_mem_erase hq)).symm
    simp only [hnew]
    have htotal := totalBytes_foldl_finish status s gone hgone
    have := h.totalBytes
    change (gone.foldl (finish status) s).totalBytes = _
    omega
  · rw [semanticIndex_leave] at hid
    obtain ⟨e, he, hdest⟩ := h.semanticIndex key id hid
    rw [entries_leave, he]
    split
    · exact ⟨_, rfl, hdest⟩
    · exact ⟨e, rfl, hdest⟩
  · rw [entries_leave] at hentry
    split at hentry
    · obtain ⟨e, he, rfl⟩ := Option.map_eq_some_iff.mp hentry
      exact h.origin id e he
    · exact h.origin id entry hentry

/-- An id that leaves a queue had not been handed out. -/
lemma logged_leave (hsound : Sound parcels s) (h : Logged s log) (hgone : ∀ id ∈ gone, id ∈ s.queues p) :
    Logged (s.leave status p gone rest) log := by
  refine ⟨h.nodup, fun d hd => ?_⟩
  obtain ⟨e, he, hst, hrest⟩ := h.delivered d hd
  have hnot : d.1.id ∉ gone := fun hg => by
    obtain ⟨e', he', hst', -⟩ := (hsound.mem_queues p _).mp (hgone _ hg)
    cases he.symm.trans he'
    cases hst.symm.trans hst'
  exact ⟨e, by rw [entries_leave, if_neg hnot, he], hst, hrest⟩

/-- Where a poll stands: nothing expired is queued, and what it has handed out is in order. -/
structure Polling (parcels : Set DeferredParcel) (log : List (DeliveredParcel × ℕ)) (nowMs : ℕ)
    (s : Transport) (delivered : List DeliveredParcel) : Prop where
  sound : Sound parcels s
  fresh : ∀ p, ∀ id ∈ s.queues p, s.expired nowMs id = false
  logged : Logged s (log ++ delivered.map (·, nowMs))

lemma polling_pop (h : Polling parcels log nowMs s delivered) (hq : s.queues p = id :: rest) :
    Polling parcels log nowMs (s.leave .bundleDelivered p [id] rest)
      (delivered ++ (s.entries id).toList.map fun entry =>
        ⟨entry.id, entry.parcel.destination, entry.parcel.payload⟩) := by
  have hid : id ∈ s.queues p := hq ▸ mem_cons_self
  obtain ⟨e, he, hst, -⟩ := (h.sound.mem_queues p id).mp hid
  obtain ⟨heid, -⟩ := h.sound.origin id e he
  have hfresh : nowMs < e.deadlineMs := by simpa [expired, he] using h.fresh p id hid
  have hlogged : Logged (s.leave .bundleDelivered p [id] rest) (log ++ delivered.map (·, nowMs)) :=
    logged_leave h.sound h.logged (by simpa using hid)
  refine ⟨sound_leave h.sound (by simp [hq]) (by simp), fun q x hx => ?_, ?_⟩
  · rw [expired_leave]
    refine h.fresh q x ?_
    rw [queues_leave] at hx
    split at hx
    next heq => exact heq ▸ hq ▸ mem_cons_of_mem _ hx
    · exact hx
  · simp only [he, Option.toList_some, map_cons, map_nil, map_append, ← append_assoc]
    refine ⟨?_, fun d hd => ?_⟩
    · rw [map_append, nodup_append']
      refine ⟨hlogged.nodup, by simp, ?_⟩
      simp only [map_cons, map_nil, disjoint_singleton, heid]
      intro hmem
      obtain ⟨d, hd, hdid⟩ := mem_map.mp hmem
      obtain ⟨e', he', hst', -⟩ := h.logged.delivered d hd
      cases (hdid ▸ he').symm.trans he
      cases hst'.symm.trans hst
    · rcases mem_append.mp hd with hd | hd
      · exact hlogged.delivered d hd
      · obtain rfl := mem_singleton.mp hd
        exact ⟨e.closed .bundleDelivered, by simp [entries_leave, heid, he], rfl, hfresh, rfl⟩

lemma polling_serve (n : ℕ) (h : Polling parcels log nowMs s delivered) :
    Polling parcels log nowMs (serve p limit n s delivered).2.1 (serve p limit n s delivered).2.2 := by
  induction n generalizing s delivered with
  | zero => exact h
  | succ n ih =>
    rw [serve]
    split
    · exact h
    split
    · exact h
    next hq => exact ih (polling_pop h hq)

/-- The scheduler's own counters are not part of what its tables agree on. -/
lemma Sound.counters (h : Sound parcels s) (deficit : Priority → ℕ) (cursor : ℕ) :
    Sound parcels { s with drrDeficit := deficit, drrCursor := cursor } :=
  ⟨h.nodup, h.mem_queues, h.totalBytes, h.semanticIndex, h.origin⟩

lemma Polling.counters (h : Polling parcels log nowMs s delivered) (deficit : Priority → ℕ)
    (cursor : ℕ) :
    Polling parcels log nowMs { s with drrDeficit := deficit, drrCursor := cursor } delivered :=
  ⟨h.sound.counters _ _, h.fresh, h.logged.nodup, h.logged.delivered⟩

lemma polling_visit {scan : Scan} (h : Polling parcels log nowMs scan.transport scan.delivered)
    (idx : ℕ) :
    Polling parcels log nowMs (visit limit scan idx).transport (visit limit scan idx).delivered := by
  unfold visit
  dsimp only
  split
  · exact h
  split
  · exact h
  · exact (polling_serve _ h).counters _ _

lemma polling_rounds (fuel cursor : ℕ) (h : Polling parcels log nowMs s delivered) :
    Polling parcels log nowMs (rounds limit fuel cursor s delivered).2
      (rounds limit fuel cursor s delivered).1 := by
  induction fuel generalizing cursor s delivered with
  | zero => exact h.counters _ _
  | succ fuel ih =>
    have hscan : ∀ steps : List ℕ, ∀ scan : Scan,
        Polling parcels log nowMs scan.transport scan.delivered →
        Polling parcels log nowMs
          (steps.foldl (fun scan step => visit limit scan ((cursor + step) % 4)) scan).transport
          (steps.foldl (fun scan step => visit limit scan ((cursor + step) % 4)) scan).delivered := by
      intro steps
      induction steps with
      | nil => exact fun _ h => h
      | cons step steps ih => exact fun scan h => ih _ (polling_visit h _)
    rw [rounds]
    split
    · exact h.counters _ _
    dsimp only
    split
    · exact ih _ (hscan _ _ h)
    · exact (hscan _ _ h).counters _ _

/-- After the reaping a class holds nothing expired, and the other classes hold what they held. -/
lemma reapClass_sound (h : Sound parcels s) (hlog : Logged s log) :
    Sound parcels (reapClass nowMs s p) ∧ Logged (reapClass nowMs s p) log :=
  ⟨sound_leave h (filter_append_perm _ _).symm (by simp),
    logged_leave h hlog fun _ hid => (mem_filter.mp hid).1⟩

omit [Primitives] in
lemma expired_of_mem_reapClass {q : Priority} (hid : id ∈ (reapClass nowMs s p).queues q) :
    id ∈ s.queues q ∧ (q = p → s.expired nowMs id = false) := by
  rw [reapClass, queues_leave] at hid
  split at hid
  next hq => simpa [hq] using hid
  next hq => exact ⟨hid, fun h => absurd h hq⟩

lemma polling_reapExpired (h : Sound parcels s) (hlog : Logged s log) :
    Polling parcels log nowMs (s.reapExpired nowMs) [] := by
  -- over the classes still to be reaped
  have hall : ∀ (todo : List Priority) (t : Transport), Sound parcels t → Logged t log →
      (∀ q, q ∉ todo → ∀ id ∈ t.queues q, t.expired nowMs id = false) →
      Polling parcels log nowMs (todo.foldl (reapClass nowMs) t) [] := by
    intro todo
    induction todo with
    | nil => exact fun t ht hl hf => ⟨ht, fun q => hf q (by simp), by simpa using hl⟩
    | cons p todo ih =>
      intro t ht hl hf
      have hreap : Sound parcels (reapClass nowMs t p) ∧ Logged (reapClass nowMs t p) log :=
        reapClass_sound ht hl
      refine ih _ hreap.1 hreap.2 fun q hq id hid => ?_
      obtain ⟨hold, hnew⟩ := expired_of_mem_reapClass hid
      rw [reapClass, expired_leave]
      by_cases hqp : q = p
      · exact hnew hqp
      · exact hf q (by simp [hqp, hq]) id hold
  exact hall Priority.all s h hlog fun q hq => absurd (by cases q <;> decide) hq

/-- An id without an entry is in no queue. -/
lemma Sound.not_mem_queues (h : Sound parcels s) (hnew : s.entries id = none) :
    id ∉ s.queues p := fun hid => by
  obtain ⟨e, he, -⟩ := (h.mem_queues p id).mp hid
  cases hnew.symm.trans he

lemma sound_keep (h : Sound parcels s) {parcel : DeferredParcel} (hparcel : parcel ∈ parcels)
    (hnew : s.entries parcel.transportId = none) : Sound parcels (s.keep parcel nowMs) := by
  have hqueues : ∀ q, (s.keep parcel nowMs).queues q =
      if q = parcel.priority then s.queues q ++ [parcel.transportId] else s.queues q := by
    intro q
    simp only [keep, Function.update_apply]
    split <;> simp_all
  have hentries : ∀ id, id ≠ parcel.transportId →
      (s.keep parcel nowMs).entries id = s.entries id := fun id hne => by simp [keep, hne]
  refine ⟨fun q => ?_, fun q id => ?_, ?_, fun key id hid => ?_, fun id entry hentry => ?_⟩
  · rw [hqueues]
    split
    · simp [nodup_append', h.nodup, h.not_mem_queues hnew]
    · exact h.nodup q
  · rcases eq_or_ne id parcel.transportId with rfl | hne
    · by_cases hq : q = parcel.priority
      · simp [hq, keep]
      · simp [hq, keep, h.not_mem_queues hnew, Ne.symm hq]
    · rw [hentries id hne, ← h.mem_queues, hqueues]
      split <;> simp [hne]
  · have hsum : ∀ q, (((s.keep parcel nowMs).queues q).map (s.keep parcel nowMs).size).sum =
        ((s.queues q).map s.size).sum + if q = parcel.priority then parcel.payload.length else 0 := by
      intro q
      have hold : (s.queues q).map (s.keep parcel nowMs).size = (s.queues q).map s.size :=
        map_congr_left fun id hid => by
          have hne : id ≠ parcel.transportId := fun heq => h.not_mem_queues hnew (heq ▸ hid)
          rw [size, hentries id hne, size]
      have hsize : (s.keep parcel nowMs).size parcel.transportId = parcel.payload.length := by
        simp [size, keep]
      rw [hqueues]
      split
      · rw [map_append, hold, sum_append, map_singleton, hsize, sum_singleton]
      · rw [hold, add_zero]
    rw [Finset.sum_congr rfl fun q _ => hsum q, Finset.sum_add_distrib, ← h.totalBytes]
    simp [keep]
  · have hcase : s.semanticIndex key = some id ∨
        id = parcel.transportId ∧ key.1 = parcel.destination := by
      simp only [keep] at hid
      cases hsem : parcel.semanticId with
      | none => exact .inl (by simpa [hsem] using hid)
      | some sem =>
        simp only [hsem, Option.elim_some, Function.update_apply] at hid
        split at hid
        next hkey => exact .inr ⟨(Option.some.inj hid).symm, by rw [hkey]⟩
        · exact .inl hid
    rcases hcase with hold | ⟨rfl, hkey⟩
    · obtain ⟨e, he, hdest⟩ := h.semanticIndex key id hold
      have hne : id ≠ parcel.transportId := fun heq => by simp [← heq, he] at hnew
      exact ⟨e, (hentries id hne).trans he, hdest⟩
    · exact ⟨_, Function.update_self _ _ _, hkey.symm⟩
  · rcases eq_or_ne id parcel.transportId with rfl | hne
    · simp only [keep, Function.update_self, Option.some.injEq] at hentry
      subst hentry
      exact ⟨rfl, parcel, hparcel, rfl, rfl⟩
    · exact h.origin id entry ((hentries id hne).symm.trans hentry)

/-- A parcel is refused, or known, or new and admitted. -/
lemma enqueue_cases (s : Transport) (parcel : DeferredParcel) (nowMs : ℕ) :
    ((s.enqueue parcel nowMs).2 = s ∧ ∀ id, (s.enqueue parcel nowMs).1 = .ok id →
      id = parcel.transportId ∧ (s.entries id).isSome ∨ s.entries parcel.transportId = none ∧
        (parcel.semanticId.bind fun sem => s.semanticIndex (parcel.destination, sem)) = some id) ∨
    s.entries parcel.transportId = none ∧
      (parcel.semanticId.bind fun sem => s.semanticIndex (parcel.destination, sem)) = none ∧
      s.enqueue parcel nowMs = (.ok parcel.transportId, s.keep parcel nowMs) := by
  unfold enqueue
  split
  · exact .inl ⟨rfl, by simp⟩
  split
  next hsome => exact .inl ⟨rfl, fun id hid => .inl (by cases hid; exact ⟨rfl, hsome⟩)⟩
  next hnone =>
    rw [Bool.not_eq_true, Option.isSome_eq_false_iff, Option.isNone_iff_eq_none] at hnone
    split
    next existing hsem =>
      exact .inl ⟨rfl, fun id hid => .inr ⟨hnone, by cases hid; exact hsem⟩⟩
    next hsem =>
      split
      · exact .inl ⟨rfl, by simp⟩
      split
      · exact .inl ⟨rfl, by simp⟩
      · exact .inr ⟨hnone, hsem, rfl⟩

/-- The states of a scheduler into which only the `parcels` are put, with what it handed out and
when. -/
inductive Reaches (parcels : Set DeferredParcel) (maxEntries maxBytes : ℕ) :
    Transport → List (DeliveredParcel × ℕ) → Prop
  | new : Reaches parcels maxEntries maxBytes (Transport.new maxEntries maxBytes) []
  | enqueue {s : Transport} {log : List (DeliveredParcel × ℕ)} {parcel : DeferredParcel} (t : ℕ) :
      Reaches parcels maxEntries maxBytes s log → parcel ∈ parcels →
      Reaches parcels maxEntries maxBytes (s.enqueue parcel t).2 log
  | pollDelivered {s : Transport} {log : List (DeliveredParcel × ℕ)} (n t : ℕ) :
      Reaches parcels maxEntries maxBytes s log →
      Reaches parcels maxEntries maxBytes (s.pollDelivered n t).2
        (log ++ (s.pollDelivered n t).1.map (·, t))
  | cancelLocal {s : Transport} {log : List (DeliveredParcel × ℕ)} (id : DeferredId) :
      Reaches parcels maxEntries maxBytes s log →
      Reaches parcels maxEntries maxBytes (s.cancelLocal id).2 log

lemma Reaches.sound {n b : ℕ} (h : Reaches parcels n b s log) : Sound parcels s ∧ Logged s log := by
  induction h with
  | new => exact ⟨sound_new n b, by simp, by simp⟩
  | @enqueue s log parcel nowMs _ hparcel ih =>
    rcases s.enqueue_cases parcel nowMs with ⟨heq, -⟩ | ⟨hnew, -, heq⟩
    · rwa [heq]
    · rw [heq]
      refine ⟨sound_keep ih.1 hparcel hnew, ih.2.nodup, fun d hd => ?_⟩
      obtain ⟨e, he, hrest⟩ := ih.2.delivered d hd
      have hne : d.1.id ≠ parcel.transportId := fun heq => by simp [← heq, he] at hnew
      exact ⟨e, by simpa [keep, hne] using he, hrest⟩
  | @pollDelivered s log limit nowMs _ ih =>
    have hreap : Polling parcels log nowMs (s.reapExpired nowMs) [] :=
      polling_reapExpired ih.1 ih.2
    have hpoll : Polling parcels log nowMs (s.pollDelivered limit nowMs).2
        (s.pollDelivered limit nowMs).1 := by
      unfold Transport.pollDelivered
      dsimp only
      split
      · exact hreap
      · exact polling_rounds _ _ hreap
    exact ⟨hpoll.sound, hpoll.logged⟩
  | @cancelLocal s log id _ ih =>
    unfold Transport.cancelLocal
    split
    · exact ih
    next entry hentry =>
      split
      · exact ih
      next hst =>
        have hqueued : id ∈ s.queues entry.parcel.priority :=
          (ih.1.mem_queues _ _).mpr ⟨entry, hentry, not_not.mp hst, rfl⟩
        have hfilter : (s.queues entry.parcel.priority).filter (· != id) =
            (s.queues entry.parcel.priority).erase id :=
          ((ih.1.nodup _).erase_eq_filter id).symm
        rw [hfilter]
        exact ⟨sound_leave ih.1 (perm_cons_erase hqueued) (by simp),
          logged_leave ih.1 ih.2 (by simpa using hqueued)⟩

/-- The entry a parcel is taken for a duplicate of. -/
def prior (s : Transport) (parcel : DeferredParcel) : Option Entry :=
  (s.entries parcel.transportId).or
    ((parcel.semanticId.bind fun id => s.semanticIndex (parcel.destination, id)).bind s.entries)

/-- The parcel of an answered id waits in a queue or was handed out to its destination. -/
def Taken (s : Transport) (id : DeferredId) (parcel : DeferredParcel) : Prop :=
  ∃ entry, s.entries id = some entry ∧ (entry.status = .queuedLocal ∨
    entry.status = .bundleDelivered ∧ entry.parcel.destination = parcel.destination)

/-- In every run the scheduler's tables agree and nothing is handed out twice or late; and a parcel
that is answered with an id is taken just when it is not a duplicate of an expired or cancelled
one. -/
theorem enqueue_taken_iff (parcels : Set DeferredParcel)
    (hinj : Set.InjOn blake3 (DeferredParcel.message '' parcels)) {n b : ℕ} {s : Transport}
    {log : List (DeliveredParcel × ℕ)} (h : Reaches parcels n b s log) :
    Sound parcels s ∧ Logged s log ∧
    ∀ parcel ∈ parcels, ∀ nowMs id s', s.enqueue parcel nowMs = (.ok id, s') →
      (s'.Taken id parcel ↔ ∀ entry, s.prior parcel = some entry →
        entry.status ≠ .expiredTransport ∧ entry.status ≠ .cancelled) := by
  obtain ⟨hsound, hlog⟩ := h.sound
  refine ⟨hsound, hlog, fun parcel hparcel nowMs id s' henq => ?_⟩
  -- a known entry goes to the same destination
  have hknown : ∀ entry, s.entries id = some entry → s.prior parcel = some entry →
      entry.parcel.destination = parcel.destination → s' = s →
      (s'.Taken id parcel ↔ ∀ entry, s.prior parcel = some entry →
        entry.status ≠ .expiredTransport ∧ entry.status ≠ .cancelled) := by
    rintro entry hentry hprior hdest rfl
    simp only [Taken, hentry, hprior, Option.some.injEq, exists_eq_left', forall_eq', hdest, and_true]
    cases entry.status <;> simp
  rcases s.enqueue_cases parcel nowMs with ⟨hs, hid⟩ | ⟨hnone, hsem, heq⟩
  · rw [henq] at hs hid
    rcases hid id rfl with ⟨rfl, hsome⟩ | ⟨hnone, hsem⟩
    · obtain ⟨entry, hentry⟩ := Option.isSome_iff_exists.mp hsome
      obtain ⟨-, origin, horigin, hsame, hdest⟩ := hsound.origin _ entry hentry
      have hmessage := hinj (Set.mem_image_of_mem _ horigin) (Set.mem_image_of_mem _ hparcel) hsame
      exact hknown entry hentry (by simp [prior, hentry])
        (hdest.trans (DeferredParcel.destination_eq_of_message_eq hmessage)) hs
    · obtain ⟨sem, -, hindex⟩ := Option.bind_eq_some_iff.mp hsem
      obtain ⟨entry, hentry, hdest⟩ := hsound.semanticIndex _ _ hindex
      exact hknown entry hentry (by simp [prior, hnone, hsem, hentry]) hdest hs
  · cases henq.symm.trans heq
    have hprior : s.prior parcel = none := by simp [prior, hnone, hsem]
    simp [Taken, keep, hprior]

end Transport

/-- A parcel to evaluate the model with. -/
def sampleParcel : DeferredParcel :=
  ⟨⟨"a", by decide +kernel⟩, [7], .p2, .short, none⟩

open Transport

theorem sample_enqueue_taken :
    letI := Primitives.sample
    ((Transport.new 8 8).enqueue sampleParcel 0).2.Taken sampleParcel.transportId sampleParcel := by
  let := Primitives.sample
  have hnew : Reaches {sampleParcel} 8 8 (Transport.new 8 8) [] := .new
  have h := enqueue_taken_iff {sampleParcel} (by simp) hnew
  exact (h.2.2 _ rfl 0 _ _ rfl).mpr nofun

/-- Enqueued, cancelled and enqueued again: the answer is the same id, and nothing is queued. -/
theorem sample_cancelled_answered :
    letI := Primitives.sample
    let id := sampleParcel.transportId
    let s := (((Transport.new 8 8).enqueue sampleParcel 0).2.cancelLocal id).2
    (s.enqueue sampleParcel 1).1.toOption = some id ∧
      ((s.enqueue sampleParcel 1).2.status id).toOption = some .cancelled ∧
      ∀ p, (s.enqueue sampleParcel 1).2.queues p = [] := by
  decide +kernel

end Mininet.Dtn
