import Mininet.Crypto
import Mininet.Lib.Merkle

/-!
# The standing of a replica

A registered replica answers challenges window after window. `ReplicaLifecycle` keeps the last
window that was proven and the highest it has heard of, and its state is brought up to date by every
call. In every run the state is what these two windows say, unless the grace allowance is the
greatest that fits: missed windows are counted up to that number, which never exceeds it.

Windows are compared and subtracted without going below zero, so naturals stand for the `u64`s.
-/

namespace Mininet.StorageFraud

open Codec Merkle

/-! ### Challenges -/

/-- What a quorum audited. A seal without nodes does not pass the audit. -/
structure SealCommitment where
  replicaId : Hash
  numLayers : UInt32
  nodeCount : ℕ
  dataRoot : Hash
  layerRoots : List Hash
  replicaRoot : Hash
  nodeCount_pos : 0 < nodeCount

structure WindowPolicy where
  windowMs : ℕ
  challengesPerWindow : ℕ
  graceWindows : ℕ
  wf : windowMs ≠ 0 ∧ challengesPerWindow ≠ 0 ∧ challengesPerWindow ≤ 1024 ∧ graceWindows < 2 ^ 32
  deriving DecidableEq

def WindowPolicy.windowAt (policy : WindowPolicy) (genesisMs nowMs : ℕ) : ℕ :=
  (nowMs - genesisMs) / policy.windowMs

structure MerkleProof where
  leafIndex : ℕ
  siblings : List (Option Hash)

structure StorageChallengeResponse where
  leafIndex : ℕ
  blockBytes : Bytes
  proof : MerkleProof

def nodeSize : ℕ := 32

/-- The bytes that a seal commits to. -/
def SealCommitment.committedBytes (s : SealCommitment) : ℕ :=
  min (s.nodeCount * nodeSize) (2 ^ 64 - 1)

section

variable [Primitives]

def sealCommitmentDigest (s : SealCommitment) : Hash :=
  blake3 (utf8 "mininet/mini-storage-fraud/seal-commitment/v1" ++ [1] ++ s.replicaId.bytes ++
    toBeBytes s.numLayers ++ countBytes UInt64 s.nodeCount ++ s.dataRoot.bytes ++
    countBytes UInt64 s.layerRoots.length ++ s.layerRoots.flatMap Hash.bytes ++ s.replicaRoot.bytes)

/-- The leaf to be shown as the `index`th of a window. -/
def challenge (s : SealCommitment) (window : ℕ) (beacon : Bytes) (index : ℕ) : ℕ :=
  let drawn := blake3 (utf8 "mininet/mini-storage-fraud/window-challenge/v1" ++
    (sealCommitmentDigest s).bytes ++ countBytes UInt64 window ++ framed UInt32 beacon ++
    countBytes UInt32 index)
  ofBeBytes (drawn.bytes.take 8) % s.nodeCount

def MerkleProof.verify (p : MerkleProof) (leafData : Bytes) (root : Hash) (leafCount : ℕ) : Bool :=
  if leafCount ≤ p.leafIndex then false
  else if p.siblings.length ≠ depth leafCount leafCount then false
  else climb (fun l r : Hash => blake3 (0x01 :: (l.bytes ++ r.bytes))) p.leafIndex p.siblings
    (blake3 (0x00 :: leafData)) = root

def verifyStorageChallenge (s : SealCommitment) (leafIndex : ℕ)
    (response : StorageChallengeResponse) : Bool :=
  leafIndex = response.leafIndex && response.leafIndex = response.proof.leafIndex &&
    response.blockBytes.length = nodeSize &&
    response.proof.verify response.blockBytes s.replicaRoot s.nodeCount

end

/-! ### The lifecycle -/

inductive FraudError where
  | invalidPolicy
  | windowAlreadyProven
  | auditFailed
  | replicaNotProving
  deriving DecidableEq

inductive ReplicaState where
  | active
  | degraded (missedWindows : ℕ)
  | suspended
  | retired
  deriving DecidableEq

structure ReplicaLifecycle where
  sealed : SealCommitment
  windowPolicy : WindowPolicy
  state : ReplicaState
  obligatedFrom : ℕ
  lastProvenWindow : Option ℕ
  highestWindowSeen : ℕ

structure ProvenCapacity where
  units : ℕ
  committedBytes : ℕ

namespace ReplicaLifecycle

/-- A replica is not active before its first answered window. -/
def begin (sealed : SealCommitment) (genesisMs registeredAtMs : ℕ) (policy : WindowPolicy) :
    ReplicaLifecycle :=
  let window := policy.windowAt genesisMs registeredAtMs
  ⟨sealed, policy, .degraded 0, window, none, window⟩

/-- The last window that counts as satisfied. -/
def satisfied (r : ReplicaLifecycle) : ℕ := r.lastProvenWindow.getD r.obligatedFrom

/-- The windows missed when a window begins. -/
def missedAt (r : ReplicaLifecycle) (window : ℕ) : ℕ := window - r.satisfied - 1

def advanceTo (r : ReplicaLifecycle) (window : ℕ) : ReplicaLifecycle :=
  if window ≤ r.highestWindowSeen then r
  else if r.state = .retired ∨ r.state = .suspended then { r with highestWindowSeen := window }
  else
    -- the count is a `u32` and stays at the greatest
    let missed := min (r.missedAt window) (2 ^ 32 - 1)
    { r with
      highestWindowSeen := window
      state :=
        if missed = 0 then r.state
        else if r.windowPolicy.graceWindows < missed then .suspended
        else .degraded missed }

def retire (r : ReplicaLifecycle) : ReplicaLifecycle := { r with state := .retired }

def provenCapacity (r : ReplicaLifecycle) (bytesPerUnit : ℕ) : ProvenCapacity :=
  if r.state = .active then
    ⟨r.sealed.committedBytes / bytesPerUnit, r.sealed.committedBytes⟩
  else ⟨0, 0⟩

/-! ### What the windows say -/

/-- The state that the windows say, given whether the replica lapsed. -/
def standing (r : ReplicaLifecycle) (lapsed : Bool) : ReplicaState :=
  if lapsed then .suspended
  else if r.lastProvenWindow.isSome ∧ r.highestWindowSeen ≤ r.satisfied + 1 then .active
  else .degraded (r.missedAt r.highestWindowSeen)

/-- The same state with missed windows counted in 32 bits. -/
def counted (r : ReplicaLifecycle) (lapsed : Bool) : ReplicaState :=
  if lapsed ∧ r.windowPolicy.graceWindows < 2 ^ 32 - 1 then .suspended
  else if r.lastProvenWindow.isSome ∧ r.highestWindowSeen ≤ r.satisfied + 1 then .active
  else .degraded (min (r.missedAt r.highestWindowSeen) (2 ^ 32 - 1))

/-- What holds of a replica after every call. -/
structure Tracks (r : ReplicaLifecycle) (lapsed : Bool) : Prop where
  le : r.satisfied ≤ r.highestWindowSeen
  grace : lapsed = false → r.missedAt r.highestWindowSeen ≤ r.windowPolicy.graceWindows
  state : r.state = .retired ∨ r.state = r.counted lapsed

variable {r : ReplicaLifecycle} {lapsed : Bool}

lemma advanceTo_eq (r : ReplicaLifecycle) (window : ℕ) :
    ∃ state, r.advanceTo window =
        { r with highestWindowSeen := max r.highestWindowSeen window, state } ∧
      (state = .retired → r.state = .retired) := by
  unfold advanceTo
  split_ifs with hle hstate
  · exact ⟨r.state, by rw [max_eq_left hle], id⟩
  · exact ⟨r.state, by rw [max_eq_right (not_le.mp hle).le], id⟩
  · refine ⟨_, by rw [max_eq_right (not_le.mp hle).le], ?_⟩
    split_ifs <;> simp

/-- No window that was heard of before makes a replica lapse. -/
lemma Tracks.lapsed_eq (h : Tracks r lapsed) : (lapsed ||
    decide (r.windowPolicy.graceWindows < r.missedAt r.highestWindowSeen)) = lapsed := by
  cases lapsed with
  | true => rfl
  | false => simpa using h.grace rfl

lemma Tracks.advanceTo (h : Tracks r lapsed) (window : ℕ) : Tracks (r.advanceTo window) (lapsed ||
    decide (r.windowPolicy.graceWindows < r.missedAt (r.advanceTo window).highestWindowSeen)) := by
  rcases le_or_gt window r.highestWindowSeen with hold | hnew
  · rw [ReplicaLifecycle.advanceTo, if_pos hold, h.lapsed_eq]
    exact h
  have hle : r.satisfied ≤ window := h.le.trans hnew.le
  have hgrace : (lapsed || decide (r.windowPolicy.graceWindows < r.missedAt window)) = false →
      r.missedAt window ≤ r.windowPolicy.graceWindows := by simp
  have hstate := h.state
  rw [ReplicaLifecycle.advanceTo, if_neg (not_le.mpr hnew)]
  -- a window that is missed is beyond the one after the last that counts
  split_ifs
  · exact ⟨hle, hgrace, by grind [counted]⟩
  · exact ⟨hle, hgrace, by grind [counted, missedAt, satisfied]⟩

/-- How often a replica is polled does not matter, only the highest window it is polled with. -/
lemma advanceTo_advanceTo (r : ReplicaLifecycle) (w w' : ℕ) :
    (r.advanceTo w).advanceTo w' = r.advanceTo (max w w') := by
  unfold advanceTo
  grind [missedAt, satisfied]

lemma Tracks.state_eq_standing_iff (h : Tracks r lapsed) :
    (r.state = .retired ∨ r.state = r.standing lapsed) ↔
      r.state = .retired ∨ r.windowPolicy.graceWindows < 2 ^ 32 - 1 ∨ lapsed = false := by
  have hlimit := r.windowPolicy.wf.2.2.2
  have hgrace := h.grace
  rcases h.state with hretired | hstate
  · simp [hretired]
  rw [hstate]
  grind [counted, standing]

/-- A window counts as proven. -/
def prove (r : ReplicaLifecycle) (window : ℕ) : ReplicaLifecycle :=
  { r with lastProvenWindow := some window, state := .active }

lemma Tracks.prove {window : ℕ} (h : Tracks r lapsed) (hhighest : r.highestWindowSeen = window)
    (hretired : r.state ≠ .retired) (hsuspended : r.state ≠ .suspended) :
    Tracks (r.prove window) lapsed := by
  have hstate := h.state
  subst hhighest
  exact ⟨le_rfl, fun _ => by simp [missedAt, satisfied, ReplicaLifecycle.prove],
    by grind [counted, satisfied, ReplicaLifecycle.prove]⟩

variable [Primitives] (window : ℕ) (beacon : Bytes) (responses : List StorageChallengeResponse)
  (policy : WindowPolicy)

def challengesFor (r : ReplicaLifecycle) : List ℕ :=
  if policy ≠ r.windowPolicy then []
  else (List.range policy.challengesPerWindow).map (challenge r.sealed window beacon)

def recordProvenWindow (r : ReplicaLifecycle) : Except FraudError Unit × ReplicaLifecycle :=
  let challenges := r.challengesFor window beacon policy
  if policy ≠ r.windowPolicy then (.error .invalidPolicy, r)
  else if window < r.highestWindowSeen then (.error .windowAlreadyProven, r)
  else if responses.length ≠ challenges.length ∨
      ¬ (challenges.zip responses).all fun (c, a) => verifyStorageChallenge r.sealed c a then
    (.error .auditFailed, r)
  else if r.state = .retired ∨ r.state = .suspended then (.error .replicaNotProving, r)
  else if ∃ last ∈ r.lastProvenWindow, window ≤ last then (.error .windowAlreadyProven, r)
  else
    let r := r.advanceTo window
    if r.state = .suspended then (.error .replicaNotProving, r)
    else (.ok (), r.prove window)

/-- One accepted response for each challenge of a window. -/
def Answered (s : SealCommitment) : Prop :=
  responses.length = policy.challengesPerWindow ∧
    ∀ pair ∈ ((List.range policy.challengesPerWindow).map (challenge s window beacon)).zip
      responses, verifyStorageChallenge s pair.1 pair.2 = true

/-- What recording a window does: nothing, or the window is heard of and perhaps counts. -/
lemma record_cases (r : ReplicaLifecycle) {r' : ReplicaLifecycle}
    (h : (r.recordProvenWindow window beacon responses policy).2 = r') :
    r' = r ∨ policy = r.windowPolicy ∧ r.highestWindowSeen ≤ window ∧ r.state ≠ .retired ∧
      Answered window beacon responses policy r.sealed ∧
      (r' = r.advanceTo window ∨
        (r.advanceTo window).state ≠ .suspended ∧ r' = (r.advanceTo window).prove window) := by
  unfold recordProvenWindow challengesFor at h
  dsimp only at h
  split_ifs at h with hpolicy hwindow haudit hstate hlast hsuspended
  all_goals try exact .inl h.symm
  all_goals
    rw [not_or, not_not, not_not, List.length_map, List.length_range, List.all_eq_true] at haudit
    refine .inr ⟨not_not.mp hpolicy, not_lt.mp hwindow, (not_or.mp hstate).1, haudit, ?_⟩
  · exact .inl h.symm
  · exact .inr ⟨hsuspended, h.symm⟩

/-! ### Runs -/

inductive Call where
  | advanceTo (window : ℕ)
  | record (window : ℕ) (beacon : Bytes) (responses : List StorageChallengeResponse)
      (policy : WindowPolicy)
  | retire

def Call.on (r : ReplicaLifecycle) : Call → ReplicaLifecycle
  | .advanceTo window                       => r.advanceTo window
  | .record window beacon responses policy =>
    (r.recordProvenWindow window beacon responses policy).2
  | .retire                                 => r.retire

/-- A call, and whether at some point so far the windows missed exceeded the grace allowance. A
window is heard of before it counts as proven. -/
def track (t : ReplicaLifecycle × Bool) (call : Call) : ReplicaLifecycle × Bool :=
  let r' := call.on t.1
  (r', t.2 || decide (t.1.windowPolicy.graceWindows < t.1.missedAt r'.highestWindowSeen))

def after (r : ReplicaLifecycle) (calls : List Call) : ReplicaLifecycle × Bool :=
  calls.foldl track (r, false)

/-- What holds after the calls of a run. -/
structure Ran (sealed : SealCommitment) (calls : List Call) (t : ReplicaLifecycle × Bool) :
    Prop where
  sealed_eq : t.1.sealed = sealed
  policy_eq : t.1.windowPolicy = policy
  tracks : Tracks t.1 t.2
  proven : ∀ window ∈ t.1.lastProvenWindow, ∃ beacon responses,
    Call.record window beacon responses policy ∈ calls ∧
      Answered window beacon responses policy sealed

variable {policy} {sealed : SealCommitment} {calls : List Call}

lemma Ran.track {t : ReplicaLifecycle × Bool} (h : Ran policy sealed calls t) (call : Call) :
    Ran policy sealed (calls ++ [call]) (track t call) := by
  obtain ⟨r, lapsed⟩ := t
  obtain ⟨rfl, rfl, htracks, hproven⟩ := h
  have hkept : ∀ window ∈ r.lastProvenWindow, ∃ beacon responses,
      Call.record window beacon responses r.windowPolicy ∈ calls ++ [call] ∧
        Answered window beacon responses r.windowPolicy r.sealed := fun window hwindow => by
    obtain ⟨beacon, responses, hmem, hanswered⟩ := hproven window hwindow
    exact ⟨beacon, responses, List.mem_append_left _ hmem, hanswered⟩
  have hadvance : ∀ window, Ran r.windowPolicy r.sealed (calls ++ [call])
      (ReplicaLifecycle.track (r, lapsed) (.advanceTo window)) := by
    intro window
    obtain ⟨state, heq, -⟩ := r.advanceTo_eq window
    have ht := htracks.advanceTo window
    rw [ReplicaLifecycle.track, Call.on, heq] at *
    exact ⟨rfl, rfl, ht, hkept⟩
  cases call with
  | advanceTo window => exact hadvance window
  | retire =>
    refine ⟨rfl, rfl, ⟨htracks.le, fun hlapsed => ?_, .inl rfl⟩, hkept⟩
    exact htracks.grace (htracks.lapsed_eq.symm.trans hlapsed)
  | record window beacon responses policy =>
    rw [ReplicaLifecycle.track, Call.on]
    rcases record_cases window beacon responses policy r rfl with
      heq | ⟨rfl, hwindow, hstate, hanswered, heq | ⟨hsuspended, heq⟩⟩
    · rw [heq, htracks.lapsed_eq]
      exact ⟨rfl, rfl, htracks, hkept⟩
    · rw [heq]
      exact hadvance window
    · obtain ⟨state, hadvanced, hretired⟩ := r.advanceTo_eq window
      have ht : (r.advanceTo window).highestWindowSeen = window → _ :=
        (htracks.advanceTo window).prove
      rw [heq]
      rw [hadvanced] at ht hsuspended ⊢
      refine ⟨rfl, rfl, ht (max_eq_right hwindow) (mt hretired hstate) hsuspended, ?_⟩
      rintro _ ⟨⟩
      exact ⟨beacon, responses, by simp, hanswered⟩

lemma ran_after (genesisMs registeredAtMs : ℕ) : Ran policy sealed calls
    ((begin sealed genesisMs registeredAtMs policy).after calls) := by
  induction calls using List.reverseRecOn with
  | nil => exact ⟨rfl, rfl, ⟨le_rfl, fun _ => by simp [begin, after, missedAt, satisfied],
      .inr (by simp [begin, after, counted, missedAt, satisfied])⟩, nofun⟩
  | append_singleton calls call ih =>
    rw [after, List.foldl_append]
    exact ih.track call

end ReplicaLifecycle

end Mininet.StorageFraud
