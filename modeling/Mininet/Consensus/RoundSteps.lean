import Mininet.Consensus.Round

/-!
# What the round driver can do

`Fires` has one constructor for each effect a rule or a timer can have on the state, with what the
code has checked by then. Every event of the driver is some of these effects after at most one
change to what it has heard (`Hears`), so an invariant is proved once per constructor and holds of
every event. The second half shows that `evaluate` always stops at a pass that emits nothing.
-/

namespace Mininet

open List

namespace Round

/-! ### Effects -/

/-- What allows a prevote for a block: the round's valid proposal, either fresh and compatible with
the lock, or stamped with a round whose prevotes are a quorum and that the lock does not outrank. -/
def MayPrevote (s : Round) (target : Hash) : Prop :=
  ∃ p, s.proposals[s.round]? = some p ∧ p.valid = true ∧ p.id = target ∧
    ((p.validRound = -1 ∧ (s.lockedRound = -1 ∨ s.lockedValue = some target)) ∨
      (0 ≤ p.validRound ∧ i64AsRound p.validRound < s.round ∧
        s.quorum ≤ s.prevoteCount (i64AsRound p.validRound) target ∧
        (s.lockedRound ≤ p.validRound ∨ s.lockedValue = some target)))

/-- The round's valid proposal has a quorum of prevotes. -/
def HasPolka (s : Round) (id : Hash) : Prop :=
  ∃ p, s.proposals[s.round]? = some p ∧ p.valid = true ∧ p.id = id ∧
    s.quorum ≤ s.prevoteCount s.round id

/-- The state on entering a round. -/
def entered (s : Round) (r : UInt32) : Round :=
  { s with startedRounds := insert r s.startedRounds, round := r, step := .propose }

/-- What is emitted on entering a round. -/
def entryAction (s : Round) (r : UInt32) : Action :=
  if s.isLocalProposer r then
    .propose r s.validValue (s.validValue.elim (-1) fun _ => s.validRound)
  else .scheduleTimeout .propose r

/-- The state after a quorum of prevotes for the round's proposal was seen. -/
def observed (s : Round) (id : Hash) : Round :=
  { s with
    prevoteQuorumSeen := insert s.round s.prevoteQuorumSeen
    validValue := some id
    validRound := roundAsI64 s.round }

/-- The state after locking the observed value. -/
def locked (s : Round) (id : Hash) : Round :=
  ({ s.observed id with lockedValue := some id, lockedRound := roundAsI64 s.round }).precommit
    s.round

/-- The effects of rules and timers. -/
inductive Fires : Round → List Action → Round → Prop
  | prevote {s} (target : Hash) (live : s.decided = false) (step : s.step = .propose)
      (allowed : target = nil ∨ s.MayPrevote target) :
      Fires s [.signPrevote s.round target] (s.prevote s.round)
  | armPrevote {s} (live : s.decided = false) :
      Fires s [.scheduleTimeout .prevote s.round]
        { s with prevoteTimeoutArmed := insert s.round s.prevoteTimeoutArmed }
  | observe {s} (id : Hash) (live : s.decided = false) (step : s.step ≠ .propose)
      (polka : s.HasPolka id) : Fires s [] (s.observed id)
  | lock {s} (id : Hash) (live : s.decided = false) (step : s.step = .prevote)
      (polka : s.HasPolka id) : Fires s [.signPrecommit s.round id] (s.locked id)
  | precommitNil {s} (live : s.decided = false) (step : s.step = .prevote) :
      Fires s [.signPrecommit s.round nil] (s.precommit s.round)
  | armPrecommit {s} (live : s.decided = false) :
      Fires s [.scheduleTimeout .precommit s.round]
        { s with precommitTimeoutArmed := insert s.round s.precommitTimeoutArmed }
  | decide {s} (r : UInt32) (p : ProposalInfo) (live : s.decided = false)
      (proposal : s.proposals[r]? = some p) (valid : p.valid = true)
      (quorum : s.quorum ≤ s.precommitCount r p.id) :
      Fires s [.decided (s.certificate r p.id)] { s with decided := true }
  | enter {s} (r : UInt32) (live : s.decided = false) (fresh : r ∉ s.startedRounds)
      (later : s.round < r ∨ r = s.round + 1) : Fires s [s.entryAction r] (s.entered r)
  | accuse {s} (evidence : EquivocationEvidence) : Fires s [.equivocation evidence] s

section

variable {s s' : Round} {a : List Action} {f g : Rule} {r : UInt32}

/-- No effect changes the height, the validators, the proposals or the tallies. -/
lemma Fires.same (hf : Fires s a s') :
    s'.height = s.height ∧ s'.validators = s.validators ∧ s'.proposals = s.proposals ∧
      s'.votes = s.votes := by
  cases hf <;> exact ⟨rfl, rfl, rfl, rfl⟩

/-- Finitely many effects, with the actions emitted on the way. -/
inductive Steps : Round → List Action → Round → Prop
  | refl (s : Round) : Steps s [] s
  | head {s s' s'' : Round} {a b : List Action} (h : Fires s a s') (t : Steps s' b s'') :
      Steps s (a ++ b) s''

namespace Steps

lemma single (h : Fires s a s') : Steps s a s' := by
  simpa using head h (refl s')

lemma trans {s s' s'' : Round} {a b : List Action} (h : Steps s a s') (t : Steps s' b s'') :
    Steps s (a ++ b) s'' := by
  induction h with
  | refl s => exact t
  | head h _ ih =>
    rw [append_assoc]
    exact head h (ih t)

end Steps

/-! ### The rules have these effects -/

lemma enterRoundCore_of_fresh (hlive : s.decided = false)
    (hnew : r ∉ s.startedRounds) : s.enterRoundCore r = (s.entered r, [s.entryAction r]) := by
  unfold enterRoundCore entryAction entered
  simp only [hlive, hnew, Bool.false_or, decide_false, Bool.false_eq_true, if_false]
  split_ifs
  · cases s.validValue <;> rfl
  · rfl

lemma enterRoundCore_of_not
    (h : ¬ (s.decided = false ∧ r ∉ s.startedRounds)) : s.enterRoundCore r = (s, []) := by
  unfold enterRoundCore
  rw [if_pos]
  cases hd : s.decided <;> simp_all

lemma enterRoundCore_steps (s : Round) (r : UInt32) (hr : s.round < r ∨ r = s.round + 1) :
    Steps s (s.enterRoundCore r).2 (s.enterRoundCore r).1 := by
  by_cases h : s.decided = false ∧ r ∉ s.startedRounds
  · rw [enterRoundCore_of_fresh h.1 h.2]
    exact .single (.enter r h.1 h.2 hr)
  · rw [enterRoundCore_of_not h]
    exact .refl s

/-- The result of a rule that fired at most some effects and did not decide. -/
def Outcome (s : Round) (x : Round × List Action) : Prop :=
  Steps s x.2 x.1 ∧ x.1.decided = false

section Rules

variable {s : Round} (hlive : s.decided = false)

include hlive

lemma Outcome.stay : Outcome s (s, []) := ⟨.refl s, hlive⟩

lemma ruleProposeFresh_outcome : Outcome s (ruleProposeFresh s) := by
  unfold ruleProposeFresh
  dsimp only
  split
  · exact .stay hlive
  · next hguard =>
    have hstep := not_not.mp (not_or.mp hguard).1
    split
    · exact .stay hlive
    · next p hp =>
      split
      · exact .stay hlive
      · next hvr =>
        refine ⟨.single ?_, hlive⟩
        split
        · next ht =>
          exact .prevote p.id hlive hstep (.inr ⟨p, hp, ht.1, rfl, .inl ⟨not_not.mp hvr, ht.2⟩⟩)
        · exact .prevote nil hlive hstep (.inl rfl)

lemma ruleProposePolc_outcome : Outcome s (ruleProposePolc s) := by
  unfold ruleProposePolc
  dsimp only
  split
  · exact .stay hlive
  · next hguard =>
    have hstep := not_not.mp (not_or.mp hguard).1
    split
    · exact .stay hlive
    · next p hp =>
      split
      · exact .stay hlive
      · next hvr =>
        obtain ⟨hpos, hlt⟩ := not_not.mp hvr
        split
        · exact .stay hlive
        · next hpolc =>
          refine ⟨.single ?_, hlive⟩
          split
          · next ht =>
            exact .prevote p.id hlive hstep
              (.inr ⟨p, hp, ht.1, rfl, .inr ⟨hpos, hlt, not_lt.mp hpolc, ht.2⟩⟩)
          · exact .prevote nil hlive hstep (.inl rfl)

lemma rulePrevoteTimeout_outcome : Outcome s (rulePrevoteTimeout s) := by
  unfold rulePrevoteTimeout
  dsimp only
  split
  · exact .stay hlive
  · split
    · exact ⟨.single (.armPrevote hlive), hlive⟩
    · exact .stay hlive

lemma rulePrevoteQuorum_outcome : Outcome s (rulePrevoteQuorum s) := by
  unfold rulePrevoteQuorum
  dsimp only
  split
  · exact .stay hlive
  · next hguard =>
    split
    · exact .stay hlive
    · next p hp =>
      split
      · exact .stay hlive
      · next hvalid =>
        split
        · exact .stay hlive
        · next hcount =>
          have hpolka : s.HasPolka p.id :=
            ⟨p, hp, Bool.not_eq_false _ ▸ hvalid, rfl, not_lt.mp hcount⟩
          split
          · next hlock => exact ⟨.single (.lock p.id hlive hlock.1 hpolka), hlive⟩
          · refine ⟨.single (.observe p.id hlive (fun hstep => hguard (.inl ?_)) hpolka), hlive⟩
            simp [hstep, Step.index]

lemma rulePrevoteNil_outcome : Outcome s (rulePrevoteNil s) := by
  unfold rulePrevoteNil
  dsimp only
  split
  · exact .stay hlive
  · next hguard =>
    split
    · exact ⟨.single (.precommitNil hlive (not_not.mp (not_or.mp hguard).1)), hlive⟩
    · exact .stay hlive

lemma rulePrecommitTimeout_outcome : Outcome s (rulePrecommitTimeout s) := by
  unfold rulePrecommitTimeout
  dsimp only
  split
  · exact .stay hlive
  · split
    · exact ⟨.single (.armPrecommit hlive), hlive⟩
    · exact .stay hlive

/-- A decision comes from a recorded valid proposal, whatever the iteration order. -/
lemma ruleDecide_steps : Steps s (ruleDecide s).2 (ruleDecide s).1 := by
  unfold ruleDecide
  split
  · exact .refl s
  · next hfind =>
    obtain ⟨⟨r, p⟩, hmem, hcand⟩ := exists_of_findSome?_eq_some hfind
    have hp : s.proposals[r]? = some p := Std.ExtTreeMap.mem_toList_iff_getElem?_eq_some.mp
      ((s.proposalOrder.perm _).mem_iff.mp hmem)
    unfold decisionCandidate at hcand
    dsimp only at hcand
    split_ifs at hcand with hvalid hq
    obtain ⟨rfl, rfl⟩ := Prod.mk.inj (Option.some.inj hcand)
    exact .single (.decide r p hlive hp (Bool.not_eq_false _ ▸ hvalid) hq)

end Rules

lemma lt_of_skipTarget (h : s.skipTarget = some r) : s.round < r ∧ r ∈ s.votes := by
  have hmem := List.min?_mem h
  obtain ⟨⟨k, t⟩, he, rfl⟩ := mem_map.mp hmem
  obtain ⟨hkt, hlt⟩ := mem_filter.mp he
  refine ⟨(of_decide_eq_true hlt).1, ?_⟩
  rw [Std.ExtTreeMap.mem_toList_iff_getElem?_eq_some] at hkt
  exact Std.ExtTreeMap.mem_iff_isSome_getElem?.mpr (by simp [hkt])

lemma ruleSkipRound_steps (s : Round) : Steps s (ruleSkipRound s).2 (ruleSkipRound s).1 := by
  unfold ruleSkipRound
  split
  · exact .refl s
  · next r hr => exact enterRoundCore_steps s r (.inl (lt_of_skipTarget hr).1)

/-- A rule that fires effects from every live state. -/
def Rule.Sound (f : Rule) : Prop := ∀ s, s.decided = false → Steps s (f s).2 (f s).1

lemma Rule.Sound.andThen (hf : ∀ s, s.decided = false → Outcome s (f s))
    (hg : g.Sound) : (f.andThen g).Sound := fun s hlive =>
  (hf s hlive).1.trans (hg _ (hf s hlive).2)

lemma pass_sound : pass.Sound := by
  have hlast : (ruleDecide.andThen ruleSkipRound).Sound := fun s hlive =>
    (ruleDecide_steps hlive).trans (ruleSkipRound_steps _)
  exact .andThen @ruleProposeFresh_outcome <| .andThen @ruleProposePolc_outcome <|
    .andThen @rulePrevoteTimeout_outcome <| .andThen @rulePrevoteQuorum_outcome <|
    .andThen @rulePrevoteNil_outcome <| .andThen @rulePrecommitTimeout_outcome hlast

lemma evaluateLoop_succ (fuel : ℕ) (s : Round) :
    evaluateLoop (fuel + 1) s =
      if (pass s).1.decided || (pass s).2.isEmpty then pass s
      else ((evaluateLoop fuel (pass s).1).1, (pass s).2 ++ (evaluateLoop fuel (pass s).1).2) := rfl

lemma evaluateLoop_sound (fuel : ℕ) : (evaluateLoop fuel).Sound := by
  induction fuel with
  | zero => exact fun s _ => .refl s
  | succ fuel ih =>
    intro s hlive
    have hpass := pass_sound s hlive
    rw [evaluateLoop_succ]
    split
    · exact hpass
    · next hgo =>
      simp only [Bool.or_eq_true, not_or, Bool.not_eq_true] at hgo
      exact hpass.trans (ih _ hgo.1)

theorem evaluate_steps (s : Round) : Steps s (evaluate s).2 (evaluate s).1 := by
  unfold evaluate
  split_ifs with hd
  · exact .refl s
  · exact evaluateLoop_sound _ s (by simpa using hd)

/-! ### The loop stops -/

/-- The loop of `evaluate` as it is written: a pass that decides or emits nothing is the last. -/
inductive LoopsTo : Round → Round → List Action → Prop
  | stop {s : Round} (h : (pass s).1.decided = true ∨ (pass s).2 = []) :
      LoopsTo s (pass s).1 (pass s).2
  | again {s t : Round} {b : List Action} (h : ¬ ((pass s).1.decided = true ∨ (pass s).2 = []))
      (rest : LoopsTo (pass s).1 t b) : LoopsTo s t ((pass s).2 ++ b)

/-- A result that uses up part of `pending` for what it emits, unless it decides. -/
structure Spends (s : Round) (x : Round × List Action) : Prop where
  le : x.1.pending ≤ s.pending
  lt : x.2 ≠ [] → x.1.decided = true ∨ x.1.pending < s.pending
  decided : s.decided = true → x.1.decided = true

/-- One that moreover emits something whenever it changes something. -/
structure Steady (s : Round) (x : Round × List Action) : Prop extends Spends s x where
  quiet : x.2 = [] → x = (s, [])

lemma Steady.stay (s : Round) : Steady s (s, []) :=
  ⟨⟨le_rfl, fun h => absurd rfl h, id⟩, fun _ => rfl⟩

lemma Steady.emit {a : Action} (hlt : s'.pending < s.pending)
    (hdec : s'.decided = s.decided) : Steady s (s', [a]) :=
  ⟨⟨hlt.le, fun _ => .inr hlt, fun h => hdec.trans h⟩, fun h => by cases h⟩

lemma Spends.andThen (hf : Spends s (f s)) (hg : ∀ s, Spends s (g s)) :
    Spends s (f.andThen g s) where
  le := ((hg _).le).trans hf.le
  lt h := by
    have hlt := (hg (f s).1).lt
    have hle := (hg (f s).1).le
    by_cases hfirst : (f s).2 = []
    · have hsecond : (g (f s).1).2 ≠ [] := fun hnil => h (by simp [Rule.andThen, hfirst, hnil])
      exact (hlt hsecond).imp id fun hlt => hlt.trans_le hf.le
    · exact (hf.lt hfirst).imp (hg _).decided fun hlt => hle.trans_lt hlt
  decided h := (hg _).decided (hf.decided h)

/-- A rule that does nothing leaves the rest to what comes after it. -/
lemma Rule.andThen_of_quiet (h : f s = (s, [])) : f.andThen g s = g s := by
  simp [Rule.andThen, h]

lemma Steady.left (hf : Steady s (f s)) (h : (f.andThen g s).2 = []) :
    f s = (s, []) := hf.quiet (append_eq_nil_iff.mp h).1

lemma Steady.andThen (hf : Steady s (f s)) (hg : ∀ s, Steady s (g s)) :
    Steady s (f.andThen g s) where
  toSpends := hf.toSpends.andThen fun s => (hg s).toSpends
  quiet h := by
    have hleft := hf.left h
    rw [Rule.andThen_of_quiet hleft] at h ⊢
    exact (hg s).quiet h

lemma pending_prevote (h : s.round ∉ s.prevotedRounds) :
    (s.prevote s.round).pending < s.pending := by
  simp [pending, prevote, h]

lemma pending_precommit (h : s.round ∉ s.precommittedRounds) :
    (s.precommit s.round).pending < s.pending := by
  simp [pending, precommit, h]

lemma ruleProposeFresh_steady (s : Round) : Steady s (ruleProposeFresh s) := by
  unfold ruleProposeFresh
  dsimp only
  split
  · exact .stay s
  · next hguard =>
    split
    · exact .stay s
    · split
      · exact .stay s
      · exact .emit (pending_prevote (not_or.mp hguard).2) rfl

lemma ruleProposePolc_steady (s : Round) : Steady s (ruleProposePolc s) := by
  unfold ruleProposePolc
  dsimp only
  split
  · exact .stay s
  · next hguard =>
    split
    · exact .stay s
    · split
      · exact .stay s
      · split
        · exact .stay s
        · exact .emit (pending_prevote (not_or.mp hguard).2) rfl

lemma rulePrevoteTimeout_steady (s : Round) : Steady s (rulePrevoteTimeout s) := by
  unfold rulePrevoteTimeout
  dsimp only
  split
  · exact .stay s
  · next hguard =>
    split
    · exact .emit (by simp [pending, (not_or.mp hguard).2]) rfl
    · exact .stay s

/-- Observing a quorum is the one change that emits nothing, and is not made twice. -/
lemma rulePrevoteQuorum_spends (s : Round) : Spends s (rulePrevoteQuorum s) ∧
    ((rulePrevoteQuorum s).2 = [] → (rulePrevoteQuorum s).1 = s ∨
      ∃ id, (rulePrevoteQuorum s).1 = s.observed id) := by
  unfold rulePrevoteQuorum
  dsimp only
  split
  · exact ⟨(Steady.stay s).toSpends, fun _ => .inl rfl⟩
  · split
    · exact ⟨(Steady.stay s).toSpends, fun _ => .inl rfl⟩
    · next p hp =>
      split
      · exact ⟨(Steady.stay s).toSpends, fun _ => .inl rfl⟩
      · split
        · exact ⟨(Steady.stay s).toSpends, fun _ => .inl rfl⟩
        · split
          · next hlock =>
            have hlt : (s.locked p.id).pending < s.pending := by
              simp [pending, locked, observed, precommit, hlock.2]
            exact ⟨(Steady.emit hlt rfl).toSpends, fun h => by cases h⟩
          · exact ⟨⟨le_rfl, fun h => absurd rfl h, id⟩, fun _ => .inr ⟨p.id, rfl⟩⟩

lemma rulePrevoteNil_steady (s : Round) : Steady s (rulePrevoteNil s) := by
  unfold rulePrevoteNil
  dsimp only
  split
  · exact .stay s
  · next hguard =>
    split
    · exact .emit (pending_precommit (not_or.mp hguard).2) rfl
    · exact .stay s

lemma rulePrecommitTimeout_steady (s : Round) : Steady s (rulePrecommitTimeout s) := by
  unfold rulePrecommitTimeout
  dsimp only
  split
  · exact .stay s
  · next hguard =>
    split
    · exact .emit (by simp [pending, hguard]) rfl
    · exact .stay s

lemma ruleDecide_steady (s : Round) : Steady s (ruleDecide s) := by
  unfold ruleDecide
  split
  · exact .stay s
  · exact ⟨⟨le_rfl, fun _ => .inl rfl, fun _ => rfl⟩, fun h => by cases h⟩

/-- Entering a later round with votes leaves fewer such rounds ahead, which pays for the votes and
timers of the round entered. -/
lemma pending_entered (hlt : s.round < r) (hr : r ∈ s.votes) :
    (s.entered r).pending < s.pending := by
  have hsub : (s.votes.keys.filter fun k => decide (r < k)).length <
      (s.votes.keys.filter fun k => decide (s.round < k)).length := by
    have heq : (s.votes.keys.filter fun k => decide (r < k)) =
        (s.votes.keys.filter fun k => decide (s.round < k)).filter fun k => decide (r < k) := by
      rw [filter_filter]
      refine filter_congr fun k _ => ?_
      by_cases hk : r < k
      · simp [hk, UInt32.lt_trans hlt hk]
      · simp [hk]
    rw [heq]
    refine length_filter_lt_length_iff_exists.mpr ⟨r, ?_, by simp⟩
    simpa [hlt] using hr
  unfold pending entered
  dsimp only
  split_ifs <;> omega

lemma ruleSkipRound_steady (s : Round) : Steady s (ruleSkipRound s) := by
  unfold ruleSkipRound
  split
  · exact .stay s
  · next r hr =>
    obtain ⟨hlt, hmem⟩ := lt_of_skipTarget hr
    by_cases h : s.decided = false ∧ r ∉ s.startedRounds
    · rw [enterRoundCore_of_fresh h.1 h.2]
      exact .emit (pending_entered hlt hmem) rfl
    · rw [enterRoundCore_of_not h]
      exact .stay s

/-- The rules that come after the quorum of prevotes. -/
lemma afterQuorum_steady (s : Round) : Steady s ((rulePrevoteNil.andThen <|
    rulePrecommitTimeout.andThen <| ruleDecide.andThen ruleSkipRound) s) :=
  (rulePrevoteNil_steady s).andThen fun s => (rulePrecommitTimeout_steady s).andThen fun s =>
    (ruleDecide_steady s).andThen ruleSkipRound_steady

lemma pass_spends (s : Round) : Spends s (pass s) :=
  (ruleProposeFresh_steady s).toSpends.andThen fun s =>
    (ruleProposePolc_steady s).toSpends.andThen fun s =>
      (rulePrevoteTimeout_steady s).toSpends.andThen fun s =>
    (rulePrevoteQuorum_spends s).1.andThen fun s => (afterQuorum_steady s).toSpends

/-- With enough fuel the loop ends at its own exit. -/
lemma loopsTo_evaluateLoop (fuel : ℕ) (s : Round) (h : s.pending < fuel) :
    LoopsTo s (evaluateLoop fuel s).1 (evaluateLoop fuel s).2 := by
  induction fuel generalizing s with
  | zero => exact absurd h (Nat.not_lt_zero _)
  | succ fuel ih =>
    rw [evaluateLoop_succ]
    split
    · next hstop => exact .stop (by simpa using hstop)
    · next hgo =>
      have hgo' : ¬ ((pass s).1.decided = true ∨ (pass s).2 = []) := by simpa using hgo
      refine .again hgo' (ih _ ?_)
      have hlt := ((pass_spends s).lt (not_or.mp hgo').2).resolve_left (not_or.mp hgo').1
      omega

/-! ### Nothing is left to do -/

/-- A rule before the quorum of prevotes does not depend on what was observed. -/
def Rule.Unaware (f : Rule) : Prop :=
  ∀ s id, f (s.observed id) = ((f s).1.observed id, (f s).2)

lemma ruleProposeFresh_unaware : ruleProposeFresh.Unaware := by
  intro s id
  unfold ruleProposeFresh
  dsimp +instances only [observed]
  cases s.proposals[s.round]? <;> dsimp only <;> split_ifs <;> rfl

lemma ruleProposePolc_unaware : ruleProposePolc.Unaware := by
  intro s id
  unfold ruleProposePolc
  dsimp +instances only [observed, prevoteCount, quorum]
  cases s.proposals[s.round]? <;> dsimp only <;> split_ifs <;> rfl

lemma rulePrevoteTimeout_unaware : rulePrevoteTimeout.Unaware := by
  intro s id
  unfold rulePrevoteTimeout
  dsimp +instances only [observed, quorum]
  split_ifs <;> rfl

/-- Where a rule emits nothing, it has at most observed a quorum, and next time does nothing. -/
def Rule.Settles (f : Rule) (s : Round) : Prop :=
  (f s).2 = [] → f (f s).1 = ((f s).1, []) ∧ ((f s).1 = s ∨ ∃ id, (f s).1 = s.observed id)

lemma Rule.Settles.before (hf : Steady s (f s)) (hunaware : f.Unaware)
    (hg : g.Settles s) : (f.andThen g).Settles s := by
  intro h
  have hquiet := hf.left h
  rw [Rule.andThen_of_quiet hquiet] at h ⊢
  obtain ⟨hagain, hstate⟩ := hg h
  have hquiet' : f (g s).1 = ((g s).1, []) := by
    rcases hstate with hsame | ⟨id, hobserved⟩
    · rw [hsame]
      exact hquiet
    · rw [hobserved, hunaware s id, hquiet]
  exact ⟨(Rule.andThen_of_quiet hquiet').trans hagain, hstate⟩

lemma settles_prevoteQuorum {g : Rule} (hg : ∀ s, Steady s (g s)) (s : Round) :
    (rulePrevoteQuorum.andThen g).Settles s := by
  intro h
  obtain ⟨hquorum, hafter⟩ := append_eq_nil_iff.mp h
  have hafter := (hg _).quiet hafter
  have hstate : (g (rulePrevoteQuorum s).1).1 = (rulePrevoteQuorum s).1 := by
    rw [hafter]
  have hcases := (rulePrevoteQuorum_spends s).2 hquorum
  have hagain : rulePrevoteQuorum (rulePrevoteQuorum s).1 = ((rulePrevoteQuorum s).1, []) := by
    rcases hcases with hsame | ⟨id, hobserved⟩
    · rw [hsame]
      exact Prod.ext hsame hquorum
    · rw [hobserved]
      unfold rulePrevoteQuorum
      exact if_pos (.inr (Finset.mem_insert_self _ _))
  change (rulePrevoteQuorum.andThen g) (g _).1 = ((g _).1, []) ∧ ((g _).1 = s ∨ ∃ id, (g _).1 = _)
  rw [hstate]
  exact ⟨(Rule.andThen_of_quiet hagain).trans hafter, hcases⟩

lemma pass_settles (s : Round) : pass.Settles s :=
  .before (ruleProposeFresh_steady s) ruleProposeFresh_unaware <|
    .before (ruleProposePolc_steady s) ruleProposePolc_unaware <|
    .before (rulePrevoteTimeout_steady s) rulePrevoteTimeout_unaware <|
    settles_prevoteQuorum afterQuorum_steady s

lemma LoopsTo.settled {s t : Round} {b : List Action} (h : LoopsTo s t b) :
    t.decided = true ∨ pass t = (t, []) := by
  induction h with
  | @stop s h => exact h.imp id fun hquiet => (pass_settles s hquiet).1
  | again _ _ ih => exact ih

/-- From a state that has not decided the loop of `evaluate` runs to its exit, and evaluating again
emits nothing and changes nothing. -/
theorem evaluate_settles {s : Round} (hlive : s.decided = false) :
    LoopsTo s (evaluate s).1 (evaluate s).2 ∧
      evaluate (evaluate s).1 = ((evaluate s).1, []) := by
  have hloop : LoopsTo s (evaluate s).1 (evaluate s).2 := by
    simp only [evaluate, hlive, Bool.false_eq_true, if_false]
    exact loopsTo_evaluateLoop _ s (Nat.lt_succ_self _)
  refine ⟨hloop, ?_⟩
  generalize (evaluate s).1 = t at hloop
  unfold evaluate
  split_ifs with hdecided
  · rfl
  · have hpass := hloop.settled.resolve_left hdecided
    rw [evaluateLoop_succ, hpass]
    simp

theorem evaluate_settles_proposed :
    letI s : Round := { (new 0 .sample ⟨"a"⟩ ⟨id, fun l => .refl l⟩).entered 0 with
      proposals := (∅ : Std.ExtTreeMap UInt32 ProposalInfo).insert 0 ⟨nil, -1, true⟩ }
    s.decided = false ∧ LoopsTo s (evaluate s).1 (evaluate s).2 ∧
      evaluate (evaluate s).1 = ((evaluate s).1, []) :=
  ⟨rfl, evaluate_settles rfl⟩

end

/-! ### Events -/

/-- What a host tells the driver of, once it has started. -/
inductive Event where
  | proposal (round : UInt32) (id : Hash) (validRound : Int64) (valid : Bool)
  | vote (vote : Vote)
  | timeout (step : Step) (round : UInt32)

section Events

variable {Kel : Type} [KelOps Kel] (oracle : ValidatorOracle Kel)

def handle : Event → Rule
  | .proposal round id validRound valid => onProposal round id validRound valid
  | .vote vote                          => onVote vote oracle
  | .timeout step round                 => onTimeout step round

/-- How an event changes what the driver has heard. -/
inductive Hears : Event → Round → Round → Prop
  | nothing {s} (e : Event) : Hears e s s
  | proposal {s} (round : UInt32) (id : Hash) (validRound : Int64) (valid : Bool) :
      Hears (.proposal round id validRound valid) s
        { s with proposals := s.proposals.insertIfNew round ⟨id, validRound, valid⟩ }
  | joined {s} (vote : Vote) (accepted : s.acceptVote vote oracle = true) :
      Hears (.vote vote) s { s with votes := s.votes.insert vote.round (s.joined vote) }
  | tallied {s} (vote : Vote) (accepted : s.acceptVote vote oracle = true)
      (first : s.priorVote vote = none) :
      Hears (.vote vote) s { s with votes := s.votes.insert vote.round (s.tallied vote) }

variable {oracle}

lemma onVote_steps (vote : Vote) (s : Round) :
    ∃ s', Hears oracle (.vote vote) s s' ∧
      Steps s' (s.onVote vote oracle).2 (s.onVote vote oracle).1 := by
  unfold onVote
  split
  · exact ⟨s, .nothing _, .refl s⟩
  · next haccept =>
    simp only [Bool.not_eq_true', Bool.not_eq_false] at haccept
    split
    · refine ⟨_, .joined vote haccept, ?_⟩
      dsimp only
      split
      · exact .refl _
      · exact .single (.accuse _)
    · next hfirst => exact ⟨_, .tallied vote haccept hfirst, evaluate_steps _⟩

lemma onTimeout_steps (step : Step) (round : UInt32) (s : Round) :
    Steps s (s.onTimeout step round).2 (s.onTimeout step round).1 := by
  unfold onTimeout
  split
  · exact .refl s
  · next hstale =>
    simp only [Bool.or_eq_true, decide_eq_true_eq, not_or, not_not, Bool.not_eq_true] at hstale
    obtain ⟨hlive, rfl⟩ := hstale
    cases step with
    | propose =>
      dsimp only
      split
      · next hstep =>
        exact (Steps.single (.prevote nil hlive hstep (.inl rfl))).trans (evaluate_steps _)
      · exact .refl s
    | prevote =>
      dsimp only
      split
      · next hstep => exact (Steps.single (.precommitNil hlive hstep)).trans (evaluate_steps _)
      · exact .refl s
    | precommit => exact (enterRoundCore_steps s _ (.inr rfl)).trans (evaluate_steps _)

/-- An event is heard, and then some effects follow. -/
lemma handle_steps (oracle : ValidatorOracle Kel) (e : Event) (s : Round) :
    ∃ s', Hears oracle e s s' ∧ Steps s' (s.handle oracle e).2 (s.handle oracle e).1 := by
  cases e with
  | proposal round id validRound valid =>
    exact ⟨_, .proposal round id validRound valid, evaluate_steps _⟩
  | vote vote => exact onVote_steps vote s
  | timeout step round => exact ⟨s, .nothing _, onTimeout_steps step round s⟩

/-- Starting is entering round 0, and then some effects follow. -/
lemma start_steps (s : Round) (hlive : s.decided = false) (hnew : 0 ∉ s.startedRounds) :
    ∃ a, (start s).2 = s.entryAction 0 :: a ∧ Steps (s.entered 0) a (start s).1 := by
  refine ⟨(evaluate (s.entered 0)).2, ?_, ?_⟩
  · simp [start, Rule.andThen, enterRoundCore_of_fresh hlive hnew]
  · simpa [start, Rule.andThen, enterRoundCore_of_fresh hlive hnew] using
      evaluate_steps (s.entered 0)

/-! ### Induction over what the driver does -/

variable {I : Round → List Action → Prop} {s s' : Round} {a log : List Action}

/-- An invariant of the state and of everything emitted so far that each effect keeps is kept by
any number of them. -/
lemma Steps.invariant
    (h : Steps s a s') (hfires : ∀ {s a s'} {log}, Fires s a s' → I s log → I s' (log ++ a))
    (hI : I s log) : I s' (log ++ a) := by
  induction h generalizing log with
  | refl s => simpa using hI
  | head hfire _ ih =>
    rw [← append_assoc]
    exact ih (hfires hfire hI)

/-- The same for an event, given what hearing it does to the invariant. -/
lemma handle_invariant (oracle : ValidatorOracle Kel) (e : Event)
    (hfires : ∀ {s a s'} {log}, Fires s a s' → I s log → I s' (log ++ a))
    (hhears : ∀ {s'}, Hears oracle e s s' → I s log → I s' log) (hI : I s log) :
    I (s.handle oracle e).1 (log ++ (s.handle oracle e).2) := by
  obtain ⟨s', hheard, hsteps⟩ := handle_steps oracle e s
  exact hsteps.invariant hfires (hhears hheard hI)

/-- The same for starting a new driver. -/
lemma start_invariant (hlive : s.decided = false) (hnew : 0 ∉ s.startedRounds)
    (hfires : ∀ {s a s'} {log}, Fires s a s' → I s log → I s' (log ++ a))
    (hinit : I (s.entered 0) [s.entryAction 0]) : I (start s).1 (start s).2 := by
  obtain ⟨a, ha, hsteps⟩ := start_steps s hlive hnew
  rw [ha]
  exact hsteps.invariant hfires hinit

end Events

end Round

end Mininet
