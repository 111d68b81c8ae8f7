import Mininet.Identity
import Mininet.Lib.Fallible

/-!
# Audits of borderline scores

A case collects the verdicts of its panel until it is cleared, denied or lapses. The ledger keeps
for every identity root and action the last settled case it was told of, with the epoch that case
was opened in; a check for an epoch is decided by that case if the epochs agree.

Epochs are `u64`; the sum of an epoch and a lifetime wraps as in a release build.
-/

namespace Mininet.Uniqueness

open Fallible List

abbrev Epoch := UInt64

inductive GatedAction where
  | vote
  | monthlyPayment
  deriving DecidableEq

structure AuditParams where
  panelSize : UInt32
  approveAtLeast : UInt32
  caseLifetimeEpochs : UInt64

inductive AuditError where
  | notOnPanel
  | alreadyVoted
  | closed
  deriving DecidableEq

inductive Verdict where
  | confirm
  | doubt
  deriving DecidableEq

inductive AuditOutcome where
  | cleared
  | denied
  | pending
  | expired
  deriving DecidableEq

/-- One audit of one action in one epoch. -/
structure AuditCase where
  action : GatedAction
  openedEpoch : Epoch
  params : AuditParams
  panel : List Did
  votes : List (Did × Verdict)

namespace AuditCase

def outcome (c : AuditCase) (nowEpoch : Epoch) : AuditOutcome :=
  let confirms := UInt32.ofNat (c.votes.countP fun vote => vote.2 = .confirm)
  let doubts := UInt32.ofNat c.votes.length - confirms
  if c.params.approveAtLeast ≤ confirms then .cleared
  else if c.params.panelSize - c.params.approveAtLeast < doubts then .denied
  else if c.openedEpoch + c.params.caseLifetimeEpochs ≤ nowEpoch then .expired
  else .pending

def cast (c : AuditCase) (reviewer : Did) (verdict : Verdict) (nowEpoch : Epoch) :
    Except AuditError AuditCase := do
  failIf (c.outcome nowEpoch ≠ .pending) .closed
  failIf (reviewer ∉ c.panel) .notOnPanel
  failIf (reviewer ∈ c.votes.map Prod.fst) .alreadyVoted
  return { c with votes := (reviewer, verdict) :: c.votes }

variable {c : AuditCase} {now later : Epoch}

/-- An outcome other than pending is final. -/
lemma outcome_of_le (h : c.outcome now ≠ .pending) (hle : now ≤ later) :
    c.outcome later = c.outcome now := by
  by_cases hpast : c.openedEpoch + c.params.caseLifetimeEpochs ≤ now
  · simp only [outcome, if_pos hpast, if_pos (UInt64.le_trans hpast hle)]
  · simp only [outcome, if_neg hpast] at h ⊢
    split_ifs at h ⊢ <;> first | rfl | exact absurd rfl h

lemma cast_eq_closed (h : c.outcome now ≠ .pending) (reviewer : Did) (verdict : Verdict) :
    c.cast reviewer verdict now = .error .closed := by
  rw [cast, failIf, if_pos h]
  rfl

end AuditCase

/-! ### The ledger -/

inductive GateOutcome where
  | pass
  | needsAudit
  | insufficient
  deriving DecidableEq

structure AuditGate where
  minimum : UInt8
  band : UInt8

def AuditGate.evaluate (gate : AuditGate) (score : UInt8) : GateOutcome :=
  if gate.minimum ≤ score then .pass
  else if gate.minimum.toNat - gate.band.toNat ≤ score.toNat then .needsAudit
  else .insufficient

inductive Eligibility where
  | allowed
  | needsAudit
  | insufficient
  | deniedThisEpoch
  deriving DecidableEq

/-- The last settled case for each root and action: its epoch, and whether it cleared. -/
structure EligibilityLedger where
  settled : Did × GatedAction → Option (Epoch × Bool)

namespace EligibilityLedger

def new : EligibilityLedger := ⟨fun _ => none⟩

def insert (l : EligibilityLedger) (subject : Did) (c : AuditCase) (cleared : Bool) :
    EligibilityLedger :=
  ⟨Function.update l.settled (subject, c.action) (some (c.openedEpoch, cleared))⟩

def record (l : EligibilityLedger) (subject : Did) (c : AuditCase) (nowEpoch : Epoch) :
    EligibilityLedger :=
  match c.outcome nowEpoch with
  | .cleared => l.insert subject c true
  | .denied  => l.insert subject c false
  | _        => l

def check (l : EligibilityLedger) (subject : Did) (action : GatedAction) (epoch : Epoch)
    (score : UInt8) (gate : AuditGate) : Eligibility :=
  match gate.evaluate score with
  | .pass         => .allowed
  | .insufficient => .insufficient
  | .needsAudit   =>
    match l.settled (subject, action) with
    | some (e, true)  => if e = epoch then .allowed else .needsAudit
    | some (e, false) => if e = epoch then .deniedThisEpoch else .needsAudit
    | none            => .needsAudit

variable {l : EligibilityLedger} {subject : Did} {c : AuditCase} {now epoch : Epoch}
  {cleared : Bool}

/-- What a settled case decides. -/
def settles : Bool → AuditOutcome
  | true  => .cleared
  | false => .denied

def decides : Bool → Eligibility
  | true  => .allowed
  | false => .deniedThisEpoch

lemma record_of_settles (h : c.outcome now = settles cleared) :
    l.record subject c now = l.insert subject c cleared := by
  rw [record, h]
  cases cleared <;> rfl

lemma record_of_open (h : ∀ cleared, c.outcome now ≠ settles cleared) :
    l.record subject c now = l := by
  rw [record]
  split
  next heq => exact absurd heq (h true)
  next heq => exact absurd heq (h false)
  next => rfl

/-- Inside the audit band the ledger decides. -/
lemma check_eq_decides {action : GatedAction} {score : UInt8} {gate : AuditGate}
    (hband : gate.evaluate score = .needsAudit) :
    l.check subject action epoch score gate = decides cleared ↔
      l.settled (subject, action) = some (epoch, cleared) := by
  simp only [check, hband]
  rcases l.settled (subject, action) with _ | ⟨e, found⟩
  · cases cleared <;> simp [decides]
  · by_cases he : e = epoch <;> cases found <;> cases cleared <;> simp [he, decides]

end EligibilityLedger

/-! ### Runs -/

/-- Some cases and a ledger. -/
structure Audits where
  cases : ℕ → AuditCase
  ledger : EligibilityLedger

inductive AuditCall where
  | cast (i : ℕ) (reviewer : Did) (verdict : Verdict)
  | record (subject : Did) (i : ℕ)

open EligibilityLedger (settles decides)

namespace Audits

/-- A call in its epoch. A vote that is refused changes nothing. -/
def next (a : Audits) : Epoch × AuditCall → Audits
  | (now, .cast i reviewer verdict) =>
    match (a.cases i).cast reviewer verdict now with
    | .ok c    => { a with cases := Function.update a.cases i c }
    | .error _ => a
  | (now, .record subject i) => { a with ledger := a.ledger.record subject (a.cases i) now }

def after (a : Audits) (calls : List (Epoch × AuditCall)) : Audits := calls.foldl next a

variable {a : Audits} {i : ℕ} {now : Epoch} {calls : List (Epoch × AuditCall)}

/-- Only votes change a case, and never what it is about. -/
lemma next_cases (a : Audits) (call : Epoch × AuditCall) (i : ℕ) :
    ((a.next call).cases i).action = (a.cases i).action ∧
      ((a.next call).cases i).openedEpoch = (a.cases i).openedEpoch ∧
      ((a.cases i).outcome call.1 ≠ .pending → (a.next call).cases i = a.cases i) := by
  obtain ⟨now, ⟨j, reviewer, verdict⟩ | ⟨subject, j⟩⟩ := call
  · rw [next]
    split
    next c hcast =>
      obtain ⟨hopen, hcast⟩ := failIf_bind_ok.mp hcast
      obtain ⟨-, hcast⟩ := failIf_bind_ok.mp hcast
      obtain ⟨-, hcast⟩ := failIf_bind_ok.mp hcast
      cases hcast
      by_cases hij : i = j
      · subst hij
        simp only [Function.update_self, true_and]
        exact fun hclosed => absurd hclosed hopen
      · simp [Function.update_of_ne hij]
    next => exact ⟨rfl, rfl, fun _ => rfl⟩
  · exact ⟨rfl, rfl, fun _ => rfl⟩

/-- A closed case stays as it is. -/
lemma after_cases (h : (a.cases i).outcome now ≠ .pending) (hcalls : ∀ c ∈ calls, now ≤ c.1) :
    (a.after calls).cases i = a.cases i := by
  induction calls generalizing a with
  | nil => rfl
  | cons call calls ih =>
    obtain ⟨hcall, hrest⟩ := forall_mem_cons.mp hcalls
    have hclosed := AuditCase.outcome_of_le h hcall
    have hkept := (next_cases a call i).2.2 (hclosed ▸ h)
    rw [← hkept] at h ⊢
    exact ih h hrest

/-- No settled case of another epoch is recorded for this root and action. -/
def Undisturbed (subject : Did) (action : GatedAction) (epoch : Epoch) :
    Audits → List (Epoch × AuditCall) → Prop
  | _, []            => True
  | a, call :: calls => (∀ i, call.2 = .record subject i → (a.cases i).action = action →
      (∃ cleared, (a.cases i).outcome call.1 = settles cleared) →
      (a.cases i).openedEpoch = epoch) ∧ Undisturbed subject action epoch (a.next call) calls

/-- No other case of this epoch is recorded for this root and action. -/
def Alone (a : Audits) (subject : Did) (i : ℕ) (calls : List (Epoch × AuditCall)) : Prop :=
  ∀ now j, (now, .record subject j) ∈ calls → (a.cases j).action = (a.cases i).action →
    (a.cases j).openedEpoch = (a.cases i).openedEpoch → j = i

/-- The ledger decides by this case. -/
def Entered (a : Audits) (subject : Did) (i : ℕ) (cleared : Bool) : Prop :=
  a.ledger.settled (subject, (a.cases i).action) = some ((a.cases i).openedEpoch, cleared)

variable {subject : Did} {cleared : Bool} {call : Epoch × AuditCall}

lemma Alone.next (h : a.Alone subject i (call :: calls)) : (a.next call).Alone subject i calls := by
  intro now j hmem haction hepoch
  rw [(next_cases a call j).1, (next_cases a call i).1] at haction
  rw [(next_cases a call j).2.1, (next_cases a call i).2.1] at hepoch
  exact h now j (mem_cons_of_mem _ hmem) haction hepoch

/-- A call keeps the entry of a case unless it records a settled case of another epoch. -/
lemma entry_next_iff
    (hcase : (a.cases i).outcome call.1 = settles cleared) (halone : a.Alone subject i [call])
    (hentry : a.Entered subject i cleared) :
    (a.next call).ledger.settled (subject, (a.cases i).action) =
        some ((a.cases i).openedEpoch, cleared) ↔
      ∀ j, call.2 = .record subject j → (a.cases j).action = (a.cases i).action →
        (∃ cleared, (a.cases j).outcome call.1 = settles cleared) →
        (a.cases j).openedEpoch = (a.cases i).openedEpoch := by
  obtain ⟨now, ⟨j, reviewer, verdict⟩ | ⟨root, j⟩⟩ := call
  · have hledger : (a.next (now, .cast j reviewer verdict)).ledger = a.ledger := by
      rw [next]
      split <;> rfl
    rw [hledger]
    exact ⟨fun _ _ h => (by cases h), fun _ => hentry⟩
  by_cases hset : ∃ other, (a.cases j).outcome now = settles other
  · obtain ⟨other, hother⟩ := hset
    simp only [next, EligibilityLedger.record_of_settles hother, EligibilityLedger.insert]
    by_cases hkey : (subject, (a.cases i).action) = (root, (a.cases j).action)
    · obtain ⟨rfl, haction⟩ := Prod.mk.inj hkey
      rw [hkey, Function.update_self]
      constructor
      · rintro hsame _ ⟨⟩ - -
        exact (Prod.mk.inj (Option.some.inj hsame)).1
      · intro hepoch
        have hsame := hepoch j rfl haction.symm ⟨other, hother⟩
        obtain rfl := halone now j (by simp) haction.symm hsame
        have hdecided : other = cleared := by
          rw [hother] at hcase
          cases other <;> cases cleared <;> first | rfl | cases hcase
        rw [hdecided]
    · rw [Function.update_of_ne hkey]
      refine ⟨?_, fun _ => hentry⟩
      rintro - _ ⟨⟩ haction -
      exact absurd (by rw [haction]) hkey
  · simp only [next, EligibilityLedger.record_of_open fun other h => hset ⟨other, h⟩]
    refine ⟨?_, fun _ => hentry⟩
    rintro - _ ⟨⟩ - h
    exact absurd h hset

/-- The entry stays at every moment exactly when no settled case of another epoch comes. -/
lemma kept_iff (hcase : (a.cases i).outcome now = settles cleared)
    (hcalls : ∀ c ∈ calls, now ≤ c.1) (halone : a.Alone subject i calls)
    (hentry : a.Entered subject i cleared) :
    (∀ before, before <+: calls → (a.after before).ledger.settled (subject, (a.cases i).action) =
      some ((a.cases i).openedEpoch, cleared)) ↔
      Undisturbed subject (a.cases i).action (a.cases i).openedEpoch a calls := by
  induction calls generalizing a with
  | nil =>
    simp only [prefix_nil, forall_eq, Undisturbed, iff_true]
    exact hentry
  | cons call calls ih =>
    obtain ⟨hcall, hrest⟩ := forall_mem_cons.mp hcalls
    have hopen : (a.cases i).outcome now ≠ .pending := by
      rw [hcase]
      cases cleared <;> simp [settles]
    have hlater := (AuditCase.outcome_of_le hopen hcall).trans hcase
    have hsame := (next_cases a call i).2.2 (by rwa [AuditCase.outcome_of_le hopen hcall])
    have hfirst := entry_next_iff hlater (fun now j hj => halone now j (by simp_all)) hentry
    have hiff := ih (a := a.next call) (by rwa [hsame]) hrest halone.next
    rw [Entered, hsame] at hiff
    constructor
    · intro h
      have hone := hfirst.mp (h [call] (by simp))
      exact ⟨hone, (hiff (hfirst.mpr hone)).mp fun before hb =>
        h (call :: before) (cons_prefix_cons.mpr ⟨rfl, hb⟩)⟩
    · rintro ⟨hone, hall⟩ before hb
      rcases prefix_cons_iff.mp hb with rfl | ⟨rest, rfl, hb⟩
      · exact hentry
      · exact (hiff (hfirst.mpr hone)).mpr hall rest (cons_prefix_cons.mp hb).2

/-- A closed case keeps its outcome and takes no vote. A recorded result decides every later check
of its epoch exactly when no settled case of another epoch is recorded for its root and action. -/
theorem settled_kept_iff (a : Audits) (i : ℕ) (now : Epoch) :
    ((a.cases i).outcome now ≠ .pending →
      (∀ calls, (∀ c ∈ calls, now ≤ c.1) → (a.after calls).cases i = a.cases i) ∧
      ∀ later, now ≤ later → (a.cases i).outcome later = (a.cases i).outcome now ∧
        ∀ reviewer verdict, (a.cases i).cast reviewer verdict later = .error .closed) ∧
    ∀ subject cleared, (a.cases i).outcome now = settles cleared →
      ∀ calls, (∀ c ∈ calls, now ≤ c.1) → a.Alone subject i calls →
      ∀ score gate, AuditGate.evaluate gate score = .needsAudit →
        ((∀ before, before <+: calls → ((a.next (now, .record subject i)).after before).ledger.check
          subject (a.cases i).action (a.cases i).openedEpoch score gate = decides cleared) ↔
        Undisturbed subject (a.cases i).action (a.cases i).openedEpoch
          (a.next (now, .record subject i)) calls) := by
  constructor
  · intro h
    refine ⟨fun calls => after_cases h, fun later hle => ?_⟩
    have hfinal := AuditCase.outcome_of_le h hle
    exact ⟨hfinal, AuditCase.cast_eq_closed (by rwa [hfinal])⟩
  · intro subject cleared hcase calls hcalls halone score gate hband
    simp only [EligibilityLedger.check_eq_decides hband]
    refine kept_iff (a := a.next (now, .record subject i)) hcase hcalls halone ?_
    simp only [Entered, next, EligibilityLedger.record_of_settles hcase, EligibilityLedger.insert,
      Function.update_self]

/-- A panel of one reviewer. -/
def sampleCase (epoch : Epoch) : AuditCase := ⟨.vote, epoch, ⟨1, 1, 3⟩, [⟨"r"⟩], []⟩

def sampleAudits : Audits := ⟨fun i => sampleCase (UInt64.ofNat i), .new⟩

/-- A case of an earlier epoch that is settled late takes away what was cleared for this epoch. -/
theorem late_case_displaces :
    let a := sampleAudits.after [(2, .cast 2 ⟨"r"⟩ .confirm), (2, .record ⟨"s"⟩ 2),
      (2, .cast 1 ⟨"r"⟩ .confirm)]
    (a.cases 2).outcome 2 = .cleared ∧
      a.ledger.check ⟨"s"⟩ .vote 2 35 ⟨40, 10⟩ = .allowed ∧
      (a.next (2, .record ⟨"s"⟩ 1)).ledger.check ⟨"s"⟩ .vote 2 35 ⟨40, 10⟩ = .needsAudit := by
  decide +kernel

end Audits

end Mininet.Uniqueness
