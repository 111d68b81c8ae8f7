import Mininet.Store.Operations
import Mininet.Sync.KelCache

/-!
# Verified ingest

What a peer sends is decoded, what was not asked for is dropped, and the rest is judged by the cache
of logs: carriers first, then content, then again the carriers whose authors were not known at their
turn. What passes is stored and indexed under the author that it names.
-/

namespace Mininet.Sync

open Codec Fallible Stateful Identity Objects List

inductive SyncError where
  | store (e : StoreError)
  | object (e : ObjectError)
  | protocol
  | limitExceeded
  | privateRouteMismatch
  | retrievalIncomplete
  deriving DecidableEq

/-- The carriers that are looked at in one pull. -/
def pullKelCarrierBudget : ℕ := 512

structure IngestReport where
  complete : Bool := true
  received : ℕ := 0
  accepted : ℕ := 0
  carriers : ℕ := 0
  unknownAuthor : ℕ := 0
  invalid : ℕ := 0
  unsolicited : ℕ := 0

/-- An object that was handed to the store, and the cache that it was judged by. -/
structure Handed where
  object : Object
  cache : KelCache

/-- What a node keeps. The objects that it has handed to its store are a history: no operation reads
it. -/
structure Node where
  store : Store
  cache : KelCache
  handed : List Handed

/-- What the first pass over a batch has counted and put off. -/
structure Pass where
  report : IngestReport
  deferred : List Object := []
  carriersSeen : ℕ := 0

namespace Node

def new : Node := ⟨.new, .new, []⟩

section

variable [KeyPrimitives]

/-- Judge an object, and take the log of a carrier. -/
def check (o : Object) : InPlace Node SyncError IngestOutcome := do
  let n ← MonadState.get
  set { n with cache := (Ingest.check n.cache o).2 }
  return (Ingest.check n.cache o).1

/-- Hand an object to the store. -/
def hand (o : Object) (x : InPlace Store StoreError Unit) : InPlace Node SyncError Unit := do
  modify fun n => { n with handed := n.handed ++ [⟨o, n.cache⟩] }
  zoom Node.store (fun s n => { n with store := s }) .store x

/-- Store content. Heads have slots. -/
def storeContent (o : Object) : InPlace Store StoreError Unit :=
  if o.objectType = .head then (fun _ => ()) <$> Store.applyHead o else Store.insert o

/-- Count an object that was judged, and store it if it passed. -/
def act (p : Pass) (o : Object) : IngestOutcome → InPlace Node SyncError Pass
  | .acceptedCarrier => do
    hand o (Store.insert o)
    return { p with report := { p.report with carriers := p.report.carriers + 1 } }
  | .acceptedKelOnly =>
    -- the log is of use, but whose object this is may only be known later in the batch
    return { p with
      report := { p.report with carriers := p.report.carriers + 1 }
      deferred := p.deferred ++ [o] }
  | .accepted => do
    hand o (storeContent o)
    return { p with report := { p.report with accepted := p.report.accepted + 1 } }
  | .unknownAuthor =>
    return { p with report := { p.report with unknownAuthor := p.report.unknownAuthor + 1 } }
  | .invalid =>
    return { p with report := { p.report with invalid := p.report.invalid + 1 } }

/-- Count a carrier. -/
def count (p : Pass) (o : Object) : Pass :=
  if o.objectType = kelCarrierType then { p with carriersSeen := p.carriersSeen + 1 } else p

/-- One object in the first pass. -/
def firstPass (p : Pass) (o : Object) : InPlace Node SyncError Pass := do
  let p := count p o
  if o.objectType = kelCarrierType ∧ pullKelCarrierBudget < p.carriersSeen then
    return { p with report := { p.report with invalid := p.report.invalid + 1 } }
  else
    act p o (← check o)

/-- A carrier that was put off has one more chance. -/
def secondPass (o : Object) : InPlace Node SyncError Unit := do
  match ← check o with
  | .acceptedCarrier => hand o (Store.insert o)
  | _                => return ()

/-- Decode what was received, and drop what was not asked for. -/
def sortOut (requested : List String) (acc : List Object × IngestReport) (bytes : Bytes) :
    List Object × IngestReport :=
  match Object.fromBytes bytes with
  | .ok o    =>
    if o.id.asStr ∈ requested then (acc.1 ++ [o], acc.2)
    else (acc.1, { acc.2 with unsolicited := acc.2.unsolicited + 1 })
  | .error _ => (acc.1, { acc.2 with invalid := acc.2.invalid + 1 })

/-- Carriers, then everything else. -/
def carriersFirst (os : List Object) : List Object :=
  os.filter (fun o => o.objectType = kelCarrierType) ++
    os.filter (fun o => o.objectType ≠ kelCarrierType)

def ingestObjects (received : List Bytes) (requested : List String) :
    InPlace Node SyncError IngestReport := do
  let (decoded, report) := received.foldl (sortOut requested) ([], { received := received.length })
  let p ← (carriersFirst decoded).foldlM firstPass { report }
  p.deferred.foldlM (fun _ o => secondPass o) ()
  return p.report

/-! ### What one object does -/

/-- What storing an object can do to a store, whether it succeeds or not. -/
inductive Stored (s : Store) (o : Object) : Store → Prop
  | same : Stored s o s
  | put : Stored s o (s.put o)
  | head (subject : String) : Stored s o ((s.put o).setHead o subject)

variable {o : Object} {kel : Kel} {cache cache' : KelCache} {n : Node} {p : Pass} {os : List Object}
  {P : Node → Prop}

lemma stored_storeContent (s : Store) (o : Object) : Stored s o ((storeContent o).on s).2 := by
  rw [storeContent]
  split
  · rw [snd_on_map]
    generalize hout : (Store.applyHead o).on s = out
    obtain ⟨r, s'⟩ := out
    rcases Store.applyHead_on hout with ⟨-, rfl | ⟨-, rfl⟩⟩ |
      ⟨subject, -, -, ⟨-, -, rfl⟩ | ⟨-, -, rfl⟩⟩
    · exact .same
    · exact .put
    · exact .put
    · exact .head subject
  · generalize hout : (Store.insert o).on s = out
    obtain ⟨r, s'⟩ := out
    rcases Store.insert_on hout with ⟨-, rfl⟩ | ⟨-, -, rfl⟩
    · exact .same
    · exact .put

omit [KeyPrimitives] in
lemma on_hand (o : Object) (x : InPlace Store StoreError Unit) (n : Node) :
    (hand o x).on n = ((x.on n.store).1.mapError .store,
      ⟨(x.on n.store).2, n.cache, n.handed ++ [⟨o, n.cache⟩]⟩) := rfl

lemma on_check (o : Object) (n : Node) : (check o).on n =
    (.ok (Ingest.check n.cache o).1, { n with cache := (Ingest.check n.cache o).2 }) := by
  rw [check, on_get_bind, on_set_bind]
  rfl

lemma on_check_bind {α : Type} (o : Object) (f : IngestOutcome → InPlace Node SyncError α)
    (n : Node) : (check o >>= f).on n =
      (f (Ingest.check n.cache o).1).on { n with cache := (Ingest.check n.cache o).2 } := by
  rw [on_bind, on_check]

/-- The store takes a carrier that could be read. -/
lemma admits_of_carries (hportable : o.Portable) (h : Carries o kel) (s : Store) : s.Admits o where
  id_eq := hportable.id_eq
  checked := by simp [Store.checkPrivate, h.isPublic]

lemma on_insert_of_carries (hportable : o.Portable) (h : Carries o kel) (n : Node) :
    (hand o (Store.insert o)).on n =
      (.ok (), ⟨n.store.put o, n.cache, n.handed ++ [⟨o, n.cache⟩]⟩) := by
  rw [on_hand, (admits_of_carries hportable h n.store).insert_on]
  rfl

/-- What one object of a batch can do to a node. -/
inductive Stepped (n : Node) (o : Object) : Node → Prop
  | passed : Stepped n o n
  | judged {outcome : IngestOutcome} {cache : KelCache}
      (checked : n.cache.Checked o (outcome, cache)) : Stepped n o { n with cache }
  | carrier {cache : KelCache} (checked : n.cache.Checked o (.acceptedCarrier, cache)) :
      Stepped n o ⟨n.store.put o, cache, n.handed ++ [⟨o, cache⟩]⟩
  | content {cache : KelCache} {s' : Store} (checked : n.cache.Checked o (.accepted, cache))
      (stored : Stored n.store o s') : Stepped n o ⟨s', cache, n.handed ++ [⟨o, cache⟩]⟩

/-- A carrier that is accepted carries a log. -/
lemma exists_carries (h : cache.Checked o (.acceptedCarrier, cache')) : ∃ kel, Carries o kel := by
  cases h with
  | own carries | root carries => exact ⟨_, carries⟩
  | rejected _ _ outcome_eq =>
    rcases outcome_eq with heq | heq
    all_goals cases heq

lemma stepped_act (hportable : o.Portable) : Stepped n o ((act p o (Ingest.check n.cache o).1).on
      { n with cache := (Ingest.check n.cache o).2 }).2 := by
  have hchecked := n.cache.checked o
  generalize Ingest.check n.cache o = out at hchecked ⊢
  obtain ⟨outcome, cache⟩ := out
  cases outcome with
  | acceptedCarrier =>
    obtain ⟨kel, hkel⟩ := exists_carries hchecked
    rw [act, on_bind, on_insert_of_carries hportable hkel]
    exact .carrier hchecked
  | accepted =>
    rw [act, on_bind, on_hand]
    have hstored := stored_storeContent n.store o
    generalize (storeContent o).on n.store = out at hstored ⊢
    obtain ⟨_ | _, s'⟩ := out
    · exact .content hchecked hstored
    · exact .content hchecked hstored
  | acceptedKelOnly | unknownAuthor | invalid => exact .judged hchecked

lemma stepped_firstPass (hportable : o.Portable) : Stepped n o ((firstPass p o).on n).2 := by
  rw [firstPass]
  split
  · exact .passed
  · rw [on_check_bind]
    exact stepped_act hportable

lemma stepped_secondPass (hportable : o.Portable) : Stepped n o ((secondPass o).on n).2 := by
  rw [secondPass, on_check_bind]
  have hchecked := n.cache.checked o
  generalize Ingest.check n.cache o = out at hchecked ⊢
  obtain ⟨outcome, cache⟩ := out
  cases outcome with
  | acceptedCarrier =>
    obtain ⟨kel, hkel⟩ := exists_carries hchecked
    simp only [on_insert_of_carries hportable hkel]
    exact .carrier hchecked
  | accepted | acceptedKelOnly | unknownAuthor | invalid => exact .judged hchecked

/-- What is put off is from the batch. -/
lemma deferred_of_firstPass {p' : Pass} (h : ((firstPass p o).on n).1 = .ok p') :
    ∀ x ∈ p'.deferred, x ∈ p.deferred ∨ x = o := by
  have hcount : (count p o).deferred = p.deferred := by
    rw [count]
    split <;> rfl
  rw [firstPass] at h
  split at h
  · cases h
    exact fun x hx => .inl (hcount ▸ hx)
  · rw [on_check_bind] at h
    have hsame : ∀ (q : Pass) (x : InPlace Node SyncError Unit) (m : Node),
        ((x >>= fun _ => pure q : InPlace Node SyncError Pass).on m).1 = .ok p' → p' = q := by
      intro q x m hq
      rw [on_bind] at hq
      generalize x.on m = out at hq
      obtain ⟨_ | _, m'⟩ := out
      · cases hq
      · exact (Except.ok.inj hq).symm
    generalize (Ingest.check n.cache o).1 = outcome at h
    cases outcome with
    | acceptedCarrier =>
      rw [hsame _ _ _ h]
      exact fun x hx => .inl (hcount ▸ hx)
    | accepted =>
      rw [hsame _ _ _ h]
      exact fun x hx => .inl (hcount ▸ hx)
    | acceptedKelOnly =>
      cases h
      rw [hcount]
      exact fun x hx => (mem_append.mp hx).imp_right mem_singleton.mp
    | unknownAuthor =>
      cases h
      exact fun x hx => .inl (hcount ▸ hx)
    | invalid =>
      cases h
      exact fun x hx => .inl (hcount ▸ hx)

/-! ### Whole batches -/

/-- The object in some bytes, if it can be read and was asked for. -/
def wanted (requested : List String) (bytes : Bytes) : Option Object :=
  match Object.fromBytes bytes with
  | .ok o    => if o.id.asStr ∈ requested then some o else none
  | .error _ => none

lemma sortOut_fst (received : List Bytes) (requested : List String)
    (acc : List Object × IngestReport) :
    (received.foldl (sortOut requested) acc).1 =
      acc.1 ++ received.filterMap (wanted requested) := by
  induction received generalizing acc with
  | nil => simp
  | cons bytes received ih =>
    rw [foldl_cons, ih, filterMap_cons, sortOut, wanted]
    cases Object.fromBytes bytes with
    | error e => rfl
    | ok o =>
      by_cases hasked : o.id.asStr ∈ requested
      · simp [hasked]
      · simp [hasked]

lemma wanted_some {requested : List String} {bytes : Bytes} : wanted requested bytes = some o ↔
      bytes = o.toBytes ∧ o.Portable ∧ o.id.asStr ∈ requested := by
  rw [wanted, ← and_assoc, ← Object.fromBytes_ok]
  cases Object.fromBytes bytes with
  | error e => simp
  | ok o' =>
    by_cases hasked : o'.id.asStr ∈ requested
    · simp only [hasked, if_true, Option.some.injEq, Except.ok.injEq]
      exact ⟨fun h => ⟨h, h ▸ hasked⟩, fun h => h.1⟩
    · simp only [hasked, if_false, Except.ok.injEq]
      constructor
      · intro h
        cases h
      · rintro ⟨rfl, h⟩
        exact absurd h hasked

omit [KeyPrimitives] in
lemma mem_carriersFirst : o ∈ carriersFirst os ↔ o ∈ os := by
  simp only [carriersFirst, mem_append, mem_filter, decide_eq_true_eq, ← and_or_left]
  exact and_iff_left (em _)

/-- The rest of a first pass, and the second one over what it put off. -/
def passes (os : List Object) (p : Pass) : InPlace Node SyncError IngestReport := do
  let p ← os.foldlM firstPass p
  p.deferred.foldlM (fun _ o => secondPass o) ()
  return p.report

def ingestAll (os : List Object) (p : Pass) : InPlace Node SyncError IngestReport :=
  passes (carriersFirst os) p

lemma ingestObjects_eq (received : List Bytes) (requested : List String) :
    ∃ report, ingestObjects received requested =
      ingestAll (received.filterMap (wanted requested)) { report } := by
  have hdecoded := sortOut_fst received requested ([], { received := received.length })
  rw [nil_append] at hdecoded
  refine ⟨(received.foldl (sortOut requested) ([], { received := received.length })).2, ?_⟩
  rw [← hdecoded]
  rfl

/-- What every object of a batch keeps, the passes keep, however they end. -/
lemma passes_invariant {batch : List Object}
    (hstep : ∀ n, ∀ o ∈ batch, ∀ n', P n → Stepped n o n' → P n')
    (hportable : ∀ o ∈ batch, o.Portable) (hos : os ⊆ batch) (hp : p.deferred ⊆ batch) (hn : P n) :
    P ((passes os p).on n).2 := by
  have hfirst : P ((os.foldlM firstPass p).on n).2 ∧
      ∀ p', ((os.foldlM firstPass p).on n).1 = .ok p' → p'.deferred ⊆ batch := by
    refine on_foldlM_invariant (Q := fun p : Pass => p.deferred ⊆ batch)
      (fun q o ho m hq hm => ?_) hp hn
    refine ⟨hstep m o (hos ho) _ hm (stepped_firstPass (hportable o (hos ho))),
      fun p' hp' x hx => ?_⟩
    rcases deferred_of_firstPass hp' x hx with hx | rfl
    · exact hq hx
    · exact hos ho
  rw [passes, on_bind]
  generalize (os.foldlM firstPass p).on n = out at hfirst ⊢
  obtain ⟨hnode, hdeferred⟩ := hfirst
  obtain ⟨e | p', m⟩ := out
  · exact hnode
  · have hsecond := on_foldlM_invariant (f := fun (_ : Unit) o => secondPass o) (P := P)
      (Q := fun _ => True) (b := ()) (fun _ o (ho : o ∈ p'.deferred) m _ hm => by
        have ho := hdeferred p' rfl ho
        exact ⟨hstep m o ho _ hm (stepped_secondPass (hportable o ho)), fun _ _ => trivial⟩)
      trivial hnode
    simp only [on_bind]
    generalize (p'.deferred.foldlM (fun (_ : Unit) o => secondPass o) ()).on m = out at hsecond ⊢
    obtain ⟨e | _, m'⟩ := out
    · exact hsecond.1
    · exact hsecond.1

lemma ingestAll_invariant
    (hstep : ∀ n, ∀ o ∈ os, ∀ n', P n → Stepped n o n' → P n') (hportable : ∀ o ∈ os, o.Portable)
    (hn : P n) (report : IngestReport) : P ((ingestAll os { report }).on n).2 :=
  passes_invariant hstep hportable (fun _ ho => mem_carriersFirst.mp ho) (nil_subset _) hn

/-- Whatever a peer sends, and wherever an ingest ends, the store loses nothing, and what is new in
it was received and asked for. -/
theorem ingestObjects_requested (received : List Bytes) (requested : List String) (n : Node)
    (id : ObjectId) :
    let s := ((ingestObjects received requested).on n).2.store
    s.blobs id = n.store.blobs id ∨ id.asStr ∈ requested ∧
      ∃ o, o.id = id ∧ o.toBytes ∈ received ∧ s.blobs id = some (.object o) := by
  let Kept (s : Store) := s.blobs id = n.store.blobs id ∨ id.asStr ∈ requested ∧
    ∃ o, o.id = id ∧ o.toBytes ∈ received ∧ s.blobs id = some (.object o)
  obtain ⟨report, heq⟩ := ingestObjects_eq received requested
  have hwanted : ∀ o ∈ received.filterMap (wanted requested),
      o.toBytes ∈ received ∧ o.Portable ∧ o.id.asStr ∈ requested := by
    intro o ho
    obtain ⟨bytes, hbytes, ho⟩ := mem_filterMap.mp ho
    obtain ⟨rfl, hasked⟩ := wanted_some.mp ho
    exact ⟨hbytes, hasked⟩
  rw [heq]
  refine ingestAll_invariant (P := fun m => Kept m.store) (fun m o ho m' hm hstep => ?_)
    (fun o ho => (hwanted o ho).2.1) (.inl rfl) report
  have hput : Kept (m.store.put o) := by
    by_cases hid : o.id = id
    · subst hid
      exact .inr ⟨(hwanted o ho).2.2, o, rfl, (hwanted o ho).1, by simp [Store.put]⟩
    · simpa [Kept, Store.put, Function.update_of_ne (Ne.symm hid)] using hm
  cases hstep with
  | passed | judged => exact hm
  | carrier => exact hput
  | content _ stored =>
    cases stored
    exacts [hm, hput, hput]

/-! ### The author index -/

/-- A carrier of the log of the device that signed it. -/
def OwnCarrier (o : Object) : Prop := ∃ kel, Carries o kel ∧ kel.did = o.authorDevice

/-- An object that its author authorised, by the logs that the node had cached when it handed the
object to its store. -/
def Authorised (p : Handed) : Prop :=
  ∃ root device caps, p.cache.get p.object.authorHuman = some root ∧
    p.cache.get p.object.authorDevice = some device ∧
    verifyProvenance p.object root device = .ok caps

/-- An object that is listed under an author. -/
def Names (p : Handed) (human : Did) (id : ObjectId) : Prop :=
  p.object.authorHuman = human ∧ p.object.id = id

/-- What the author index says about what was handed to the store. -/
structure Indexed (n : Node) : Prop where
  listed : ∀ human id, (human, id) ∈ n.store.authors → ∃ p ∈ n.handed, Names p human id
  carriers : ∀ p ∈ n.handed, OwnCarrier p.object →
    (p.object.authorHuman, p.object.id) ∈ n.store.authors
  authorised : ∀ p ∈ n.handed, Authorised p ∨ OwnCarrier p.object

lemma authorised_of_checked {outcome : IngestOutcome} (h : cache.Checked o (outcome, cache'))
    (hpassed : outcome = .accepted ∨ outcome = .acceptedCarrier) :
    Authorised ⟨o, cache'⟩ ∨ OwnCarrier o := by
  cases h with
  | own carries welcome own => exact .inr ⟨_, carries, own⟩
  | root carries welcome foreign proven
  | accepted content proven => exact .inl (KelCache.proves_true.mp proven)
  | kelOnly | refused => simp at hpassed
  | rejected content unproven outcome_eq => rcases outcome_eq with rfl | rfl <;> simp at hpassed

/-- What is stored as content is not a carrier. -/
lemma not_ownCarrier_of_accepted (h : cache.Checked o (.accepted, cache')) : ¬ OwnCarrier o := by
  rintro ⟨kel, hkel, -⟩
  cases h with
  | accepted content | rejected content => exact content hkel.objectType

omit [KeyPrimitives] in
lemma Stored.authors_subset {s s' : Store} (h : Stored s o s') :
    s.authors ⊆ s'.authors ∧ ∀ row ∈ s'.authors, row ∈ s.authors ∨ row = (o.authorHuman, o.id) := by
  cases h with
  | same => exact ⟨Finset.Subset.refl _, fun row hrow => .inl hrow⟩
  | put => exact ⟨Finset.subset_insert _ _, fun row hrow => (Finset.mem_insert.mp hrow).symm⟩
  | head subject =>
    exact ⟨Finset.subset_insert _ _, fun row hrow => (Finset.mem_insert.mp hrow).symm⟩

/-- Handing one more object to the store. -/
lemma Indexed.hand (h : Indexed n) {s' : Store} (hstored : Stored n.store o s')
    (hown : OwnCarrier o → s' = n.store.put o) (hauthorised : Authorised ⟨o, cache⟩ ∨ OwnCarrier o) :
    Indexed ⟨s', cache, n.handed ++ [⟨o, cache⟩]⟩ := by
  obtain ⟨hold, hnew⟩ := hstored.authors_subset
  refine ⟨fun human id hrow => ?_, fun p hp hcarrier => ?_, fun p hp => ?_⟩
  · rcases hnew _ hrow with hrow | hrow
    · obtain ⟨p, hp, hnames⟩ := h.listed human id hrow
      exact ⟨p, mem_append_left _ hp, hnames⟩
    · obtain ⟨rfl, rfl⟩ := Prod.mk.inj hrow
      exact ⟨⟨o, cache⟩, by simp, rfl, rfl⟩
  · rcases mem_append.mp hp with hp | hp
    · exact hold (h.carriers p hp hcarrier)
    · obtain rfl := mem_singleton.mp hp
      change _ ∈ s'.authors
      rw [hown hcarrier]
      exact Finset.mem_insert_self _ _
  · rcases mem_append.mp hp with hp | hp
    · exact h.authorised p hp
    · obtain rfl := mem_singleton.mp hp
      exact hauthorised

lemma Indexed.stepped {n' : Node} (h : Indexed n) (hstep : Stepped n o n') : Indexed n' := by
  cases hstep with
  | passed => exact h
  | judged checked => exact ⟨h.listed, h.carriers, h.authorised⟩
  | carrier checked =>
    exact h.hand .put (fun _ => rfl) (authorised_of_checked checked (.inr rfl))
  | content checked stored =>
    exact h.hand stored (fun hown => absurd hown (not_ownCarrier_of_accepted checked))
      (authorised_of_checked checked (.inl rfl))

/-- A batch of what a peer sent, and what was asked for. -/
structure Batch where
  received : List Bytes
  requested : List String

/-- The node after some batches. -/
def after (batches : List Batch) : Node :=
  batches.foldl (fun n b => ((ingestObjects b.received b.requested).on n).2) new

lemma indexed_after (batches : List Batch) : Indexed (after batches) := by
  induction batches using List.reverseRecOn with
  | nil => exact ⟨by simp [after, new, Store.new], by simp [after, new], by simp [after, new]⟩
  | append_singleton batches b ih =>
    rw [after, foldl_append]
    obtain ⟨report, hreport⟩ := ingestObjects_eq b.received b.requested
    simp only [foldl_cons, foldl_nil, hreport]
    refine ingestAll_invariant (fun n o _ n' hn hstep => hn.stepped hstep) (fun o ho => ?_) ih report
    obtain ⟨bytes, -, hbytes⟩ := mem_filterMap.mp ho
    exact (wanted_some.mp hbytes).2.1

/-- In every run, what is listed under an author was authorised by it exactly when the carriers that
devices send of their own logs were. -/
theorem listed_authorised_iff (batches : List Batch) :
    (∀ human, ∀ id ∈ (after batches).store.byAuthor human,
      (∃ p ∈ (after batches).handed, Names p human id) ∧
        ∀ p ∈ (after batches).handed, Names p human id → Authorised p) ↔
      ∀ p ∈ (after batches).handed, OwnCarrier p.object → Authorised p := by
  have h := indexed_after batches
  constructor
  · intro hlisted p hp hown
    have hrow : p.object.id ∈ (after batches).store.byAuthor p.object.authorHuman :=
      Store.mem_idsUnder.mpr (h.carriers p hp hown)
    exact (hlisted _ _ hrow).2 p hp ⟨rfl, rfl⟩
  · intro hown human id hid
    refine ⟨h.listed human id (Store.mem_idsUnder.mp hid), fun p hp _ => ?_⟩
    exact (h.authorised p hp).elim (fun hp => hp) (hown p hp)

end

/-- A node that knows a victim and lists something under it, and was handed nothing proven. -/
def listsUnproven [KeyPrimitives] (victim : Controller) (attack : Object) (n : Node) : Bool :=
  decide (n.cache.get victim.did = some victim.kel) &&
    decide ((victim.did, attack.id) ∈ n.store.authors) &&
    n.handed.all fun p => !p.cache.proves p.object

/-- Two carriers, each of the log of the identity that signs it. -/
lemma sample_listsUnproven :
    letI := KeyPrimitives.sums
    (sampleCarriers fun c _ m => ((c.kel, c), m.kel, m)).any (fun (c, _, m, own, attack) =>
      decide (m.did ≠ c.did) && listsUnproven c attack
        (after [⟨[own.toBytes], [own.id.asStr]⟩, ⟨[attack.toBytes], [attack.id.asStr]⟩])) = true := by
  decide +kernel

/-- A stranger signs a carrier of its own log in the name of an author that is known. It is stored
and listed under the author, who never delegated the stranger's device. -/
theorem sample_listed_unauthorised :
    ∃ (victim stranger : Controller) (own attack : Object), stranger.did ≠ victim.did ∧
      @kelCarrier .sums victim.kel victim.did victim = .ok own ∧
      @kelCarrier .sums stranger.kel victim.did stranger = .ok attack ∧
      let n := @after .sums [⟨[own.toBytes], [own.id.asStr]⟩, ⟨[attack.toBytes], [attack.id.asStr]⟩]
      n.cache.get victim.did = some victim.kel ∧ attack.id ∈ n.store.byAuthor victim.did ∧
        ∀ p ∈ n.handed, Names p victim.did attack.id → ¬ @Authorised .sums p := by
  let := KeyPrimitives.sums
  obtain ⟨c, -, m, own, attack, htest, hown, hattack⟩ := exists_sample_carriers
    (fun c _ m => ((c.kel, c), m.kel, m)) (fun c _ m own attack =>
      decide (m.did ≠ c.did) && listsUnproven c attack
        (after [⟨[own.toBytes], [own.id.asStr]⟩, ⟨[attack.toBytes], [attack.id.asStr]⟩]))
    sample_listsUnproven
  simp only [listsUnproven, Bool.and_eq_true, decide_eq_true_eq, all_eq_true,
    Bool.not_eq_true'] at htest
  obtain ⟨hne, ⟨hcached, hlisted⟩, hunproven⟩ := htest
  refine ⟨c, m, own, attack, hne, hown, hattack, ?_⟩
  generalize after [⟨[own.toBytes], [own.id.asStr]⟩, ⟨[attack.toBytes], [attack.id.asStr]⟩] = n at *
  refine ⟨hcached, Store.mem_idsUnder.mpr hlisted, ?_⟩
  intro p hp _ hauthorised
  have hproven := KelCache.proves_true.mpr hauthorised
  rw [hunproven p hp] at hproven
  cases hproven

end Node

end Mininet.Sync
