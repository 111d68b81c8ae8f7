import Mininet.Forge.Governance

/-!
# The walk along a chain

Resolving a project, as a relation between the states it goes through and the entries it applies.
-/

namespace Mininet.Forge

open Codec Fallible Identity Objects List

variable [KeyPrimitives] {valid : List Object}

/-! ### Valid entries -/

/-- An entry that is valid after a tip, under the policy there. -/
structure ValidAt (s : Store) (oracle : IdentityOracle) (projectId : ObjectId) (policy : Policy)
    (tip : ObjectId) (e : Object) : Prop where
  get_eq : s.get e.id = .ok e
  linking : e.id ∈ s.linkingTo tip
  after : isEntryAfter oracle projectId policy tip e = true
  valid : entryIsValid s oracle projectId e policy = .ok true

/-- What makes an object an entry after a tip. -/
structure EntryAfter (oracle : IdentityOracle) (projectId : ObjectId) (policy : Policy)
    (tip : ObjectId) (e : Object) : Prop where
  objectType : e.objectType = .custom chainType
  prev : ⟨"prev", tip⟩ ∈ e.links
  project : ⟨"project", projectId⟩ ∈ e.links
  recorder : e.authorHuman ∈ policy.maintainers
  verified : authorVerified oracle e = true

omit [KeyPrimitives] in
lemma any_link_iff {links : List Link} {rel : String} {target : ObjectId} :
    links.any (fun l => l.rel = rel && l.target = target) = true ↔ ⟨rel, target⟩ ∈ links := by
  simp only [any_eq_true, Bool.and_eq_true, decide_eq_true_eq]
  constructor
  · rintro ⟨⟨rel', target'⟩, hl, rfl, rfl⟩
    exact hl
  · exact fun h => ⟨_, h, rfl, rfl⟩

section

variable {s : Store} {oracle : IdentityOracle} {projectId : ObjectId} {policy : Policy}
  {tip : ObjectId} {e : Object}

lemma isEntryAfter_iff :
    isEntryAfter oracle projectId policy tip e = true ↔
      EntryAfter oracle projectId policy tip e := by
  rw [isEntryAfter]
  simp only [Bool.and_eq_true, decide_eq_true_eq, any_link_iff, Policy.contains_iff]
  constructor
  · rintro ⟨⟨⟨⟨htype, hprev⟩, hproject⟩, hrecorder⟩, hverified⟩
    exact ⟨htype, hprev, hproject, hrecorder, hverified⟩
  · rintro ⟨htype, hprev, hproject, hrecorder, hverified⟩
    exact ⟨⟨⟨⟨htype, hprev⟩, hproject⟩, hrecorder⟩, hverified⟩

/-- Judging an entry does not fail: the policy of an amendment was checked when it was parsed. -/
lemma exists_entryIsValid (s : Store) (oracle : IdentityOracle) (projectId : ObjectId) (e : Object)
    (policy : Policy) : ∃ valid, entryIsValid s oracle projectId e policy = .ok valid := by
  rw [entryIsValid]
  split
  next => exact ⟨_, rfl⟩
  next => exact ⟨_, rfl⟩
  next newPolicy hparse =>
    rw [validPolicy_ok.mpr (parseChainEntry_eq_amend.mp hparse).2.1]
    exact ⟨_, rfl⟩

lemma candidate_some {id : ObjectId} :
    candidate s oracle projectId policy tip id = .ok (some e) ↔
      s.get id = .ok e ∧ isEntryAfter oracle projectId policy tip e = true ∧
        entryIsValid s oracle projectId e policy = .ok true := by
  rw [candidate]
  split
  next hget => simp [hget]
  next e' hget =>
    rw [hget, Except.ok.injEq]
    by_cases hafter : isEntryAfter oracle projectId policy tip e' = true
    · obtain ⟨valid, hvalid⟩ := exists_entryIsValid s oracle projectId e' policy
      rw [if_pos hafter, hvalid]
      cases valid with
      | true =>
        refine ⟨fun h => ?_, fun h => ?_⟩
        · cases h
          exact ⟨rfl, hafter, hvalid⟩
        · rw [h.1]
          rfl
      | false =>
        refine ⟨nofun, ?_⟩
        rintro ⟨rfl, -, hvalid'⟩
        cases hvalid.symm.trans hvalid'
    · rw [if_neg hafter]
      refine ⟨nofun, ?_⟩
      rintro ⟨rfl, hafter', -⟩
      exact absurd hafter' hafter

lemma exists_candidate (id : ObjectId) :
    ∃ found, candidate s oracle projectId policy tip id = .ok found := by
  rw [candidate]
  split
  next => exact ⟨_, rfl⟩
  next e _ =>
    split_ifs
    · obtain ⟨valid, hvalid⟩ := exists_entryIsValid s oracle projectId e policy
      rw [hvalid]
      exact ⟨_, rfl⟩
    · exact ⟨_, rfl⟩

/-- The entries found at a tip are the valid ones, each once. -/
lemma exists_validEntries (s : Store) (oracle : IdentityOracle) (projectId : ObjectId)
    (policy : Policy) (tip : ObjectId) :
    ∃ valid, validEntries s oracle projectId policy tip = .ok valid ∧ valid.Nodup ∧
      ∀ e, e ∈ valid ↔ ValidAt s oracle projectId policy tip e := by
  have hcandidate : ∀ id, ∃ found, candidate s oracle projectId policy tip id = .ok found :=
    exists_candidate
  choose found hfound using hcandidate
  have hmapM : (s.linkingTo tip).mapM (candidate s oracle projectId policy tip) =
      .ok ((s.linkingTo tip).map found) := by
    rw [funext hfound]
    exact mapM_pure
  refine ⟨((s.linkingTo tip).map found).filterMap id, ?_, ?_, fun e => ?_⟩
  · rw [validEntries, hmapM]
    rfl
  · rw [filterMap_map]
    refine List.Nodup.filterMap (fun id id' e he he' => ?_) (s.nodup_linkingTo tip)
    obtain ⟨hget, -⟩ := candidate_some.mp ((hfound id).trans (congrArg Except.ok he))
    obtain ⟨hget', -⟩ := candidate_some.mp ((hfound id').trans (congrArg Except.ok he'))
    rw [← Store.id_of_get hget, Store.id_of_get hget']
  · rw [mem_filterMap]
    constructor
    · rintro ⟨_, hmem, rfl⟩
      obtain ⟨id, hid, heq⟩ := mem_map.mp hmem
      obtain ⟨hget, hafter, hvalid⟩ :=
        candidate_some.mp ((hfound id).trans (congrArg Except.ok heq))
      obtain rfl := Store.id_of_get hget
      exact ⟨hget, hid, hafter, hvalid⟩
    · intro h
      refine ⟨some e, mem_map.mpr ⟨e.id, h.linking, ?_⟩, rfl⟩
      have hsome := candidate_some.mpr ⟨h.get_eq, h.after, h.valid⟩
      exact Except.ok.inj ((hfound e.id).symm.trans hsome)

end

omit [KeyPrimitives] in
lemma winner_none : winner valid = none ↔ valid = [] := by
  rw [winner, List.getLast?_eq_none_iff, ← length_eq_zero_iff, length_insertionSort,
    length_eq_zero_iff]

omit [KeyPrimitives] in
lemma winner_some {e : Object} (h : winner valid = some e) :
    e ∈ valid ∧ ∀ e' ∈ valid, e'.id ≤ e.id := by
  have htotal : Std.Total fun a b : Object => a.id ≤ b.id := ⟨fun a b => le_total a.id b.id⟩
  have htrans : IsTrans Object fun a b => a.id ≤ b.id := ⟨fun _ _ _ => le_trans⟩
  have hsorted := pairwise_insertionSort (fun a b : Object => a.id ≤ b.id) valid
  have hperm := perm_insertionSort (fun a b : Object => a.id ≤ b.id) valid
  obtain ⟨before, hlast⟩ := List.getLast?_eq_some_iff.mp h
  rw [hlast] at hsorted hperm
  refine ⟨hperm.mem_iff.mp (by simp), fun e' he' => ?_⟩
  rcases mem_append.mp (hperm.mem_iff.mpr he') with hbefore | hsame
  · exact (pairwise_append.mp hsorted).2.2 e' hbefore e (mem_singleton_self e)
  · rw [mem_singleton.mp hsame]

/-! ### Steps -/

/-- The walk goes on from a state to the next over an entry. -/
structure Advances (s : Store) (oracle : IdentityOracle) (projectId : ObjectId) (st : ProjectState)
    (e : Object) (st' : ProjectState) : Prop where
  valid : ValidAt s oracle projectId st.policy st.tip e
  greatest : ∀ e', ValidAt s oracle projectId st.policy st.tip e' → e'.id ≤ e.id
  applied : applyEntry s e st.policy st.branches = .ok (st'.policy, st'.branches)
  name_eq : st'.name = st.name
  tip_eq : st'.tip = e.id
  entries_eq : st'.entries = st.entries + 1
  forks_iff : st'.forksDetected = true ↔
    st.forksDetected = true ∨ ∃ e', ValidAt s oracle projectId st.policy st.tip e' ∧ e' ≠ e

section

variable {s : Store} {oracle : IdentityOracle} {projectId : ObjectId}

omit [KeyPrimitives] in
/-- A list without repetitions that has an element has another when it is longer. -/
lemma one_lt_length_iff {valid : List Object} {e : Object} (hnodup : valid.Nodup) (he : e ∈ valid) :
    1 < valid.length ↔ ∃ e' ∈ valid, e' ≠ e := by
  constructor
  · intro hlength
    match valid, hlength, hnodup with
    | a :: b :: rest, _, hnodup =>
      have hne : a ≠ b := fun h => (nodup_cons.mp hnodup).1 (h ▸ mem_cons_self)
      by_cases hae : a = e
      · exact ⟨b, by simp, fun hb => hne (hae.trans hb.symm)⟩
      · exact ⟨a, by simp, hae⟩
  · rintro ⟨e', he', hne⟩
    match valid, he, he' with
    | [a], he, he' =>
      rw [mem_singleton.mp he, mem_singleton.mp he'] at hne
      exact absurd rfl hne
    | a :: b :: rest, _, _ => simp

lemma step_none {st : ProjectState} :
    step s oracle projectId st = .ok none ↔
      ∀ e, ¬ ValidAt s oracle projectId st.policy st.tip e := by
  obtain ⟨valid, hvalid, hnodup, hmem⟩ :=
    exists_validEntries s oracle projectId st.policy st.tip
  simp only [← hmem, ← eq_nil_iff_forall_not_mem]
  rw [step, hvalid, ok_bind, ← winner_none]
  cases hwinner : winner valid with
  | none => exact ⟨fun _ => rfl, fun _ => rfl⟩
  | some e =>
    refine ⟨fun h => ?_, by rintro ⟨⟩⟩
    obtain ⟨_, -, h⟩ := bind_ok.mp h
    cases h

lemma step_some {st st' : ProjectState} :
    step s oracle projectId st = .ok (some st') ↔ ∃ e, Advances s oracle projectId st e st' := by
  obtain ⟨valid, hvalid, hnodup, hmem⟩ :=
    exists_validEntries s oracle projectId st.policy st.tip
  rw [step, hvalid, ok_bind]
  have hforks : ∀ e ∈ valid, ((st.forksDetected || decide (1 < valid.length)) = true ↔
      st.forksDetected = true ∨
        ∃ e', ValidAt s oracle projectId st.policy st.tip e' ∧ e' ≠ e) := by
    intro e he
    rw [Bool.or_eq_true, decide_eq_true_eq, one_lt_length_iff hnodup he]
    simp only [hmem]
  constructor
  · intro h
    cases hwinner : winner valid with
    | none =>
      rw [hwinner] at h
      cases h
    | some e =>
      rw [hwinner] at h
      obtain ⟨⟨policy, branches⟩, happlied, h⟩ := bind_ok.mp h
      cases h
      obtain ⟨he, hgreatest⟩ := winner_some hwinner
      exact ⟨e, (hmem e).mp he, fun e' he' => hgreatest e' ((hmem e').mpr he'), happlied, rfl, rfl,
        rfl, hforks e he⟩
  · rintro ⟨e, h⟩
    have he := (hmem e).mpr h.valid
    cases hwinner : winner valid with
    | none =>
      rw [winner_none.mp hwinner] at he
      cases he
    | some e' =>
      obtain ⟨he', hgreatest⟩ := winner_some hwinner
      have hid := le_antisymm (hgreatest e he) (h.greatest e' ((hmem e').mp he'))
      have hget := ((hmem e').mp he').get_eq
      rw [← hid] at hget
      obtain rfl : e = e' := Except.ok.inj (h.valid.get_eq.symm.trans hget)
      refine bind_ok.mpr ⟨_, h.applied, ?_⟩
      obtain ⟨name, policy, branches, tip, entries, forks⟩ := st'
      obtain rfl : name = st.name := h.name_eq
      obtain rfl : tip = e.id := h.tip_eq
      obtain rfl : entries = st.entries + 1 := h.entries_eq
      obtain rfl : forks = (st.forksDetected || decide (1 < valid.length)) := by
        rw [Bool.eq_iff_iff, hforks e he]
        exact h.forks_iff
      rfl

end

/-! ### Walks -/

/-- The walk goes from a state to another over some entries. -/
inductive Walk (s : Store) (oracle : IdentityOracle) (projectId : ObjectId) :
    ProjectState → List Object → ProjectState → Prop
  | nil (st : ProjectState) : Walk s oracle projectId st [] st
  | cons {st st' st'' : ProjectState} {e : Object} {es : List Object}
      (advances : Advances s oracle projectId st e st') (rest : Walk s oracle projectId st' es st'') :
      Walk s oracle projectId st (e :: es) st''

section

variable {s : Store} {oracle : IdentityOracle} {projectId : ObjectId}

variable {st fin : ProjectState} {es : List Object}

lemma resolveFrom_ok {rounds : ℕ} : resolveFrom s oracle projectId rounds st = .ok fin ↔
      ∃ es, Walk s oracle projectId st es fin ∧ es.length < rounds ∧
        ∀ e, ¬ ValidAt s oracle projectId fin.policy fin.tip e := by
  induction rounds generalizing st with
  | zero =>
    refine ⟨nofun, ?_⟩
    rintro ⟨es, -, hlength, -⟩
    exact absurd hlength (Nat.not_lt_zero _)
  | succ rounds ih =>
    rw [resolveFrom, bind_ok]
    constructor
    · rintro ⟨_ | st', hstep, h⟩
      · cases h
        exact ⟨[], .nil _, Nat.succ_pos _, step_none.mp hstep⟩
      · obtain ⟨e, hadvances⟩ := step_some.mp hstep
        obtain ⟨es, hwalk, hlength, hend⟩ := ih.mp h
        exact ⟨e :: es, .cons hadvances hwalk, Nat.succ_lt_succ hlength, hend⟩
    · rintro ⟨es, hwalk, hlength, hend⟩
      cases hwalk with
      | nil => exact ⟨none, step_none.mpr hend, rfl⟩
      | cons hadvances hrest =>
        exact ⟨some _, step_some.mpr ⟨_, hadvances⟩,
          ih.mpr ⟨_, hrest, Nat.lt_of_succ_lt_succ hlength, hend⟩⟩

/-- What a project resolves to is where a walk from its genesis ends. -/
lemma resolveProject_ok : resolveProject s oracle projectId = .ok fin ↔
      ∃ start es, genesisState s oracle projectId = .ok start ∧
        Walk s oracle projectId start es fin ∧ es.length ≤ maxChainLen ∧
        ∀ e, ¬ ValidAt s oracle projectId fin.policy fin.tip e := by
  rw [resolveProject, bind_ok]
  simp only [resolveFrom_ok, Nat.lt_succ_iff]
  exact ⟨fun ⟨start, hstart, es, h⟩ => ⟨start, es, hstart, h⟩,
    fun ⟨start, es, hstart, h⟩ => ⟨start, hstart, es, h⟩⟩

/-- The policies of a walk are valid when the first is. -/
lemma Advances.policy_valid {st' : ProjectState} {e : Object}
    (h : Advances s oracle projectId st e st') (hvalid : st.policy.Valid) : st'.policy.Valid := by
  obtain ⟨entry, hentry, happlied⟩ := bind_ok.mp h.applied
  cases entry with
  | merge =>
    simp only [bind_ok] at happlied
    obtain ⟨prId, -, pr, -, payload, -, head, -, happlied⟩ := happlied
    obtain ⟨hpolicy, -⟩ := Prod.mk.inj (Except.ok.inj happlied)
    rwa [← hpolicy]
  | amend policy =>
    obtain ⟨hpolicy, -⟩ := Prod.mk.inj (Except.ok.inj happlied)
    rw [← hpolicy]
    exact (parseChainEntry_eq_amend.mp (okOr_ok.mp hentry)).2.1

lemma Walk.policy_valid (h : Walk s oracle projectId st es fin)
    (hvalid : st.policy.Valid) : fin.policy.Valid := by
  induction h with
  | nil st => exact hvalid
  | cons hadvances _ ih => exact ih (hadvances.policy_valid hvalid)

/-- A fork that was seen is not forgotten. -/
lemma Walk.forksDetected (h : Walk s oracle projectId st es fin)
    (hforks : st.forksDetected = true) : fin.forksDetected = true := by
  induction h with
  | nil st => exact hforks
  | cons hadvances _ ih => exact ih (hadvances.forks_iff.mpr (.inl hforks))

/-- What a project declares. -/
lemma genesisState_ok {start : ProjectState} :
    genesisState s oracle projectId = .ok start ↔
      ∃ genesis, s.get projectId = .ok genesis ∧ genesis.objectType = .custom projectType ∧
        authorVerified oracle genesis = true ∧
        genesis.payload = .pub (framed UInt32 (utf8 start.name) ++ encodePolicy start.policy) ∧
        validName start.name = true ∧ start.policy.Valid ∧
        (∀ m ∈ start.policy.maintainers, m.Valid ∧ (utf8 m.asStr).length ≤ 4096) ∧
        start = ⟨start.name, start.policy, [], projectId, 0, false⟩ := by
  rw [genesisState]
  simp only [bind_ok, mapError_ok, failIf_ok, not_not, pure_ok, ne_eq,
    decodes_genesisPayload.whole_ok, Prod.exists]
  constructor
  · rintro ⟨genesis, hget, ⟨⟩, htype, ⟨⟩, hverified, bytes, hbytes, name, policy,
      ⟨rfl, hname, hvalid, hmaintainers⟩, rfl⟩
    exact ⟨genesis, hget, htype, hverified, publicBytes_ok.mp hbytes, hname, hvalid,
      hmaintainers, rfl⟩
  · rintro ⟨genesis, hget, htype, hverified, hpayload, hname, hvalid, hmaintainers, hstart⟩
    exact ⟨genesis, hget, (), htype, (), hverified, _, publicBytes_ok.mpr hpayload, _, _,
      ⟨rfl, hname, hvalid, hmaintainers⟩, hstart.symm⟩

end

end Mininet.Forge
