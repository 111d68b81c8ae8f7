import Mininet.Economy.EpochWire

/-!
# The monetary ledger

Every finalized epoch adds vesting positions. What circulates is the genesis supply and what has
vested by the policy time, which is the sum of the finalized durations and no clock's reading.
-/

namespace Mininet

open Codec Fallible List

/-! ### Vesting -/

inductive VestingSubject where
  | humanSnapshot (snapshot : HumanSnapshot)
  | beneficiary (name : String)
  deriving DecidableEq

/-- One supply position created by finalized issuance. -/
structure VestingPosition where
  epoch : UInt64
  subject : VestingSubject
  channel : Channel
  amount : Amount
  startsAtPolicyMs : U128
  durationMs : UInt64
  deriving DecidableEq

namespace VestingPosition

/-- Policy time since the start, saturating at zero. -/
def elapsed (p : VestingPosition) (policyMs : U128) : U128 :=
  ⟨policyMs.val - p.startsAtPolicyMs.val, by omega⟩

/-- The vested part, linear in time. Quotient and remainder of the amount are scaled apart, so that
no product overflows. -/
def vestedAt (p : VestingPosition) (policyMs : U128) : Except EconomyError Amount :=
  if p.durationMs = 0 then .ok p.amount
  else if p.durationMs.toNat ≤ (p.elapsed policyMs).val then .ok p.amount
  else do
    let denominator : U128 := Fin.ofNat _ p.durationMs.toNat
    let whole ← okOr (checkedMul (p.amount / denominator) (p.elapsed policyMs)) .overflow
    let fractional ← okOr (checkedMul (p.amount % denominator) (p.elapsed policyMs)) .overflow
    okOr (checkedAdd whole (fractional / denominator)) .overflow

/-- The vested part over the natural numbers. -/
def vested (p : VestingPosition) (policyMs : ℕ) : ℕ :=
  if p.durationMs.toNat ≤ policyMs - p.startsAtPolicyMs.val then p.amount.val
  else p.amount.val * (policyMs - p.startsAtPolicyMs.val) / p.durationMs.toNat

lemma vested_le_amount (p : VestingPosition) (t : ℕ) : p.vested t ≤ p.amount.val := by
  unfold vested
  split_ifs with h
  · exact le_rfl
  · exact Nat.div_le_of_le_mul (by rw [mul_comm]; exact Nat.mul_le_mul_right _ (by omega))

lemma vested_mono (p : VestingPosition) {t u : ℕ} (h : t ≤ u) : p.vested t ≤ p.vested u := by
  by_cases hu : p.durationMs.toNat ≤ u - p.startsAtPolicyMs.val
  · rw [show p.vested u = p.amount.val from if_pos hu]
    exact p.vested_le_amount t
  · have ht : ¬ p.durationMs.toNat ≤ t - p.startsAtPolicyMs.val := by omega
    rw [vested, vested, if_neg ht, if_neg hu]
    gcongr

/-- Scaling quotient and remainder apart loses nothing. -/
lemma div_mul_add_mod_mul_div (a e : ℕ) {d : ℕ} (hd : 0 < d) :
    a / d * e + a % d * e / d = a * e / d := by
  have hsplit : a * e = d * (a / d * e) + a % d * e := by
    conv_lhs => rw [← Nat.div_add_mod a d]
    ring
  rw [hsplit, Nat.mul_add_div hd]

/-- Vesting never overflows, and rounds down once. -/
lemma vestedAt_ok {p : VestingPosition} {t : U128} {v : Amount} :
    p.vestedAt t = .ok v ↔ v.val = p.vested t.val := by
  have hdur := p.durationMs.toNat_lt
  have hvested := p.vested_le_amount t.val
  unfold vestedAt
  unfold vested at hvested ⊢
  by_cases hzero : p.durationMs = 0
  · simp [hzero, Fin.ext_iff, eq_comm]
  by_cases hdone : p.durationMs.toNat ≤ t.val - p.startsAtPolicyMs.val
  · rw [if_neg hzero, if_pos hdone, if_pos (by simpa [elapsed] using hdone)]
    simp [Fin.ext_iff, eq_comm]
  rw [if_neg hdone] at hvested
  rw [if_neg hzero, if_neg hdone, if_neg (by simpa [elapsed] using hdone)]
  have hpos : 0 < p.durationMs.toNat := Nat.pos_of_ne_zero fun h => hzero (UInt64.toNat_inj.mp h)
  have hden : (Fin.ofNat (2 ^ 128) p.durationMs.toNat).val = p.durationMs.toNat :=
    Nat.mod_eq_of_lt (hdur.trans (by decide))
  have hsplit := div_mul_add_mod_mul_div p.amount.val (t.val - p.startsAtPolicyMs.val) hpos
  have hfraction : p.amount.val % p.durationMs.toNat * (t.val - p.startsAtPolicyMs.val) < 2 ^ 128 :=
    calc _ < 2 ^ 64 * 2 ^ 64 := Nat.mul_lt_mul'' ((Nat.mod_lt _ hpos).trans hdur) (by omega)
      _ = 2 ^ 128 := by norm_num
  have hwhole : p.amount.val / p.durationMs.toNat * (t.val - p.startsAtPolicyMs.val) < 2 ^ 128 :=
    calc _ ≤ p.amount.val * (t.val - p.startsAtPolicyMs.val) / p.durationMs.toNat :=
          (Nat.le_add_right _ _).trans_eq hsplit
      _ ≤ p.amount.val := hvested
      _ < 2 ^ 128 := p.amount.isLt
  simp only [bind_ok, okOr_ok, checkedMul_some, checkedAdd_some, Fin.div_val,
    Fin.mod_val, hden, elapsed]
  constructor
  · rintro ⟨whole, rwhole, fractional, rfractional, hv⟩
    rw [← hv, ← rwhole, ← rfractional, hsplit]
  · intro hv
    exact ⟨⟨_, hwhole⟩, rfl, ⟨_, hfraction⟩, rfl, by rw [hv, ← hsplit]⟩

/-- What has vested is the floor of the exact quotient at every time, and never shrinks. -/
theorem vestedAt_exact (p : VestingPosition) :
    ∃ v : U128 → Amount, Monotone v ∧ ∀ t, p.vestedAt t = .ok (v t) ∧ v t ≤ p.amount ∧
      (v t).val =
        if p.durationMs = 0 ∨ p.durationMs.toNat ≤ t.val - p.startsAtPolicyMs.val then p.amount.val
        else p.amount.val * (t.val - p.startsAtPolicyMs.val) / p.durationMs.toNat := by
  have hlt : ∀ t : U128, p.vested t.val < 2 ^ 128 :=
    fun t => (p.vested_le_amount t.val).trans_lt p.amount.isLt
  refine ⟨fun t => ⟨p.vested t.val, hlt t⟩, fun t u h => p.vested_mono h, fun t =>
    ⟨vestedAt_ok.mpr rfl, p.vested_le_amount t.val, ?_⟩⟩
  by_cases hzero : p.durationMs = 0
  · have hdone : p.durationMs.toNat ≤ t.val - p.startsAtPolicyMs.val := by simp [hzero]
    rw [if_pos (.inl hzero)]
    exact if_pos hdone
  · simp only [hzero, false_or]
    rfl

end VestingPosition

/-! ### The ledger -/

/-- Aggregate supply and vesting state. -/
structure MonetaryLedger where
  genesisCirculating : Amount
  totalIssued : Amount
  policyTimeMs : U128
  lastEpoch : Option UInt64
  positions : List VestingPosition
  deriving DecidableEq

/-- The grants of one channel, as the allocations they were requested by. -/
def allocations (grants : List VestingGrant) (channel : Channel) : List Allocation :=
  (grants.filter fun g => g.channel = channel).map fun g => ⟨g.beneficiary, g.amount⟩

/-- A plan is valid when planning its own terms again gives the same plan. -/
def validatePlanShape (plan : ScalableEpochPlan) (policy : IssuancePolicy) :
    Except EconomyError Unit := do
  let expected ← planScalableEpoch {
    epoch := plan.epoch
    durationMs := plan.durationMs
    openingCirculating := plan.openingCirculating
    humanSnapshot := plan.human.snapshot
    service := allocations plan.optionalGrants .service
    treasury := allocations plan.optionalGrants .treasuryContribution } policy
  failIf (expected ≠ plan) .invalidEpochPlan

/-- The positions a plan creates, all starting at the end of its epoch. -/
def ScalableEpochPlan.positions (plan : ScalableEpochPlan) (stop : U128) : List VestingPosition :=
  { epoch := plan.epoch
    subject := .humanSnapshot plan.human.snapshot
    channel := .humanShare
    amount := plan.human.issued
    startsAtPolicyMs := stop
    durationMs := plan.human.vestingMs } ::
  plan.optionalGrants.map fun grant => {
    epoch := plan.epoch
    subject := .beneficiary grant.beneficiary
    channel := grant.channel
    amount := grant.amount
    startsAtPolicyMs := stop
    durationMs := grant.vestingMs }

namespace MonetaryLedger

def new (genesisCirculating : Amount) : MonetaryLedger where
  genesisCirculating := genesisCirculating
  totalIssued := Amount.zero
  policyTimeMs := 0
  lastEpoch := none
  positions := []

def totalSupply (l : MonetaryLedger) : Except EconomyError Amount :=
  l.genesisCirculating.checkedAdd l.totalIssued

def circulatingSupply (l : MonetaryLedger) : Except EconomyError Amount :=
  l.positions.foldlM (fun circulating position => do
    let vested ← position.vestedAt l.policyTimeMs
    circulating.checkedAdd vested) l.genesisCirculating

def lockedSupply (l : MonetaryLedger) : Except EconomyError Amount := do
  let total ← l.totalSupply
  let circulating ← l.circulatingSupply
  total.checkedSub circulating

/-- The number the next epoch must have. -/
def expectedEpoch (l : MonetaryLedger) : Except EconomyError UInt64 :=
  match l.lastEpoch with
  | none       => .ok 0
  | some epoch => if epoch.toNat + 1 < 2 ^ 64 then .ok (epoch + 1) else .error .unexpectedEpoch

/-- Validate and apply one next epoch. -/
def applyEpoch (l : MonetaryLedger) (plan : ScalableEpochPlan) (policy : IssuancePolicy) :
    Except EconomyError MonetaryLedger := do
  let expectedEpoch ← l.expectedEpoch
  failIf (plan.epoch ≠ expectedEpoch) .unexpectedEpoch
  failIf (plan.durationMs = 0 ∨ yearMs < plan.durationMs) .invalidDuration
  let circulating ← l.circulatingSupply
  failIf (plan.openingCirculating ≠ circulating) .openingSupplyMismatch
  validatePlanShape plan policy
  let stop ← okOr (checkedAdd l.policyTimeMs (Fin.ofNat _ plan.durationMs.toNat)) .overflow
  let totalIssued ← l.totalIssued.checkedAdd plan.totalIssued
  return { l with
    totalIssued := totalIssued
    policyTimeMs := stop
    lastEpoch := some plan.epoch
    positions := l.positions ++ plan.positions stop }

def subjectBytes : VestingSubject → Bytes
  | .humanSnapshot snapshot =>
    [0] ++ (snapshot.root.bytes ++ toBeBytes snapshot.eligibleCount)
  | .beneficiary name => [1] ++ framed UInt64 (utf8 name)

def lastEpochBytes : Option UInt64 → Bytes
  | some epoch => [1] ++ toBeBytes epoch
  | none       => [0]

/-- The bytes committed to: every field of the ledger. -/
def canonicalBytes (l : MonetaryLedger) : Bytes :=
  utf8 "mini-economy/monetary-ledger/v1" ++ toBeBytes l.genesisCirculating ++
    toBeBytes l.totalIssued ++ toBeBytes l.policyTimeMs ++ lastEpochBytes l.lastEpoch ++
    countBytes UInt64 l.positions.length ++
    l.positions.flatMap fun p => toBeBytes p.epoch ++ subjectBytes p.subject ++ [p.channel.tag] ++
      toBeBytes p.amount ++ toBeBytes p.startsAtPolicyMs ++ toBeBytes p.durationMs

def commitment [Primitives] (l : MonetaryLedger) : Bytes := multihash l.canonicalBytes

/-! ### Supply over the natural numbers -/

/-- What circulates. -/
def circulating (l : MonetaryLedger) : ℕ :=
  l.genesisCirculating.val + (l.positions.map fun p => p.vested l.policyTimeMs.val).sum

/-- What the positions were created with. -/
def granted (l : MonetaryLedger) : ℕ := (l.positions.map fun p => p.amount.val).sum

variable {l : MonetaryLedger} {plan : ScalableEpochPlan} {policy : IssuancePolicy}
  {l' : MonetaryLedger}

lemma circulating_le (l : MonetaryLedger) : l.circulating ≤ l.genesisCirculating.val + l.granted :=
  Nat.add_le_add_left (sum_le_sum fun p _ => p.vested_le_amount _) _

/-- A checked sum succeeds exactly when the sum fits. -/
lemma foldlM_checkedAdd_ok {α : Type} {f : α → Except EconomyError Amount} {g : α → ℕ}
    (hf : ∀ a v, f a = .ok v ↔ v.val = g a) {xs : List α} (hg : ∀ a ∈ xs, g a < 2 ^ 128)
    {start result : Amount} :
    xs.foldlM (fun total a => do let v ← f a; total.checkedAdd v) start = .ok result ↔
      result.val = start.val + (xs.map g).sum := by
  induction xs generalizing start with
  | nil =>
    rw [foldlM_nil, pure_ok]
    simp [Fin.ext_iff, eq_comm]
  | cons a xs ih =>
    obtain ⟨v, hv⟩ : ∃ v, f a = .ok v := ⟨⟨g a, hg a (by simp)⟩, (hf _ _).mpr rfl⟩
    have hva := (hf _ _).mp hv
    simp only [foldlM_cons, bind_ok, hv, Except.ok.injEq, exists_eq_left',
      Amount.checkedAdd_ok, ih fun b hb => hg b (by simp [hb]), map_cons, sum_cons]
    constructor
    · rintro ⟨mid, hmid, hresult⟩
      omega
    · intro hresult
      have hlt := result.isLt
      exact ⟨⟨start.val + v.val, by omega⟩, rfl, by simp only; omega⟩

lemma circulatingSupply_ok {c : Amount} : l.circulatingSupply = .ok c ↔ c.val = l.circulating :=
  foldlM_checkedAdd_ok (fun _ _ => VestingPosition.vestedAt_ok)
    fun p _ => (p.vested_le_amount _).trans_lt p.amount.isLt

/-! ### What an epoch changes -/

lemma lt_of_expectedEpoch {epoch last : UInt64} (h : l.expectedEpoch = .ok epoch)
    (hlast : l.lastEpoch = some last) : last < epoch := by
  simp only [expectedEpoch, hlast] at h
  split_ifs at h with hfit
  cases h
  rw [UInt64.lt_iff_toNat_lt, UInt64.toNat_add]
  have hone : (1 : UInt64).toNat = 1 := rfl
  omega

/-- An applied epoch follows the last one, was planned under the policy, and appends its positions
at the policy time it advances to. -/
lemma applyEpoch_ok (h : l.applyEpoch plan policy = .ok l') :
    (∀ last ∈ l.lastEpoch, last < plan.epoch) ∧ validatePlanShape plan policy = .ok () ∧
      ∃ stop totalIssued, l.policyTimeMs.val ≤ stop.val ∧
        l.totalIssued.val + plan.totalIssued.val = totalIssued.val ∧
        l' = { l with
          totalIssued := totalIssued
          policyTimeMs := stop
          lastEpoch := some plan.epoch
          positions := l.positions ++ plan.positions stop } := by
  unfold applyEpoch at h
  simp only [↓failIf_bind_ok, bind_ok] at h
  obtain ⟨epoch, hepoch, hnext, -, circulating, -, -, ⟨⟩, hshape, stop, hstop, totalIssued,
    htotal, hresult⟩ := h
  rw [okOr_ok, checkedAdd_some] at hstop
  rw [not_not] at hnext
  subst hnext
  cases hresult
  exact ⟨fun last hlast => lt_of_expectedEpoch hepoch hlast, hshape, stop, totalIssued, by omega,
    Amount.checkedAdd_ok.mp htotal, rfl⟩

/-- Supply that circulates keeps circulating. -/
lemma circulating_le_applyEpoch (h : l.applyEpoch plan policy = .ok l') :
    l.circulating ≤ l'.circulating := by
  obtain ⟨-, -, stop, totalIssued, hstop, -, rfl⟩ := applyEpoch_ok h
  have hold : (l.positions.map fun p => p.vested l.policyTimeMs.val).sum ≤
      (l.positions.map fun p => p.vested stop.val).sum :=
    sum_le_sum fun p _ => p.vested_mono hstop
  simp only [circulating, map_append, sum_append]
  omega

/-! ### Snapshots -/

/-- A snapshot has the fields of the ledger. -/
abbrev Snapshot := MonetaryLedger

def exportSnapshot (l : MonetaryLedger) : Snapshot := l

end MonetaryLedger

/-- Hard cap on the positions of one snapshot. -/
def maxVestingPositions : ℕ := 65536

/-- Longest beneficiary name a snapshot may carry. -/
def maxSnapshotBeneficiaryBytes : ℕ := 4096

def validatePosition (position : VestingPosition) (policyTimeMs : U128) :
    Except EconomyError Unit := do
  failIf (policyTimeMs < position.startsAtPolicyMs) .invalidSnapshot
  match position.subject with
  | .humanSnapshot snapshot =>
    failIf (snapshot.root = Hash.zero ∨ snapshot.eligibleCount = 0) .invalidSnapshot
  | .beneficiary name =>
    failIf (name = "" ∨ maxSnapshotBeneficiaryBytes < (utf8 name).length) .invalidSnapshot

/-- The greatest epoch of the positions, if there is one. -/
def greatestEpoch (positions : List VestingPosition) : Option UInt64 :=
  positions.foldl (fun greatest p => some (greatest.elim p.epoch (max · p.epoch))) none

namespace MonetaryLedger

def importSnapshot (snapshot : Snapshot) : Except EconomyError MonetaryLedger := do
  failIf (maxVestingPositions < snapshot.positions.length) .invalidSnapshot
  failIf (snapshot.lastEpoch = none ∧ (snapshot.totalIssued ≠ Amount.zero ∨
    snapshot.policyTimeMs ≠ 0 ∨ snapshot.positions ≠ [])) .invalidSnapshot
  let issued ← snapshot.positions.foldlM (fun total position => do
    validatePosition position snapshot.policyTimeMs
    total.checkedAdd position.amount) Amount.zero
  failIf (issued ≠ snapshot.totalIssued) .invalidSnapshot
  failIf (∃ greatest ∈ greatestEpoch snapshot.positions, ∃ last ∈ snapshot.lastEpoch,
    last < greatest) .invalidSnapshot
  let ledger : MonetaryLedger := snapshot
  let _ ← ledger.totalSupply
  let _ ← ledger.circulatingSupply
  let _ ← ledger.lockedSupply
  return ledger

/-- What every ledger that epochs were applied to satisfies, and every snapshot must. -/
structure WellFormed (l : MonetaryLedger) : Prop where
  /-- Before the first epoch nothing has been issued. -/
  fresh : l.lastEpoch = none → l.totalIssued = Amount.zero ∧ l.policyTimeMs = 0 ∧ l.positions = []
  issued : l.totalIssued.val = l.granted
  valid : ∀ p ∈ l.positions, validatePosition p l.policyTimeMs = .ok ()
  epoch_le : ∀ last ∈ l.lastEpoch, ∀ p ∈ l.positions, p.epoch ≤ last

variable {plan : ScalableEpochPlan} {policy : IssuancePolicy} {positions : List VestingPosition}
  {p : VestingPosition}

lemma wellFormed_new (genesis : Amount) : (new genesis).WellFormed where
  fresh _ := ⟨rfl, rfl, rfl⟩
  issued := rfl
  valid _ hp := by simp [new] at hp
  epoch_le _ _ _ hp := by simp [new] at hp

lemma validatePosition_mono {t u : U128} (htu : t.val ≤ u.val)
    (h : validatePosition p t = .ok ()) : validatePosition p u = .ok () := by
  obtain ⟨hstart, h⟩ := failIf_bind_ok.mp h
  refine failIf_bind_ok.mpr ⟨?_, h⟩
  rw [Fin.lt_def] at hstart ⊢
  omega

/-- The positions of a planned epoch are valid. -/
lemma validatePosition_of_plan {stop : U128} (hshape : validatePlanShape plan policy = .ok ())
    (hnames : ∀ g ∈ plan.optionalGrants, (utf8 g.beneficiary).length ≤ maxSnapshotBeneficiaryBytes)
    (hp : p ∈ plan.positions stop) : validatePosition p stop = .ok () := by
  obtain ⟨expected, hplan, hsame⟩ := bind_ok.mp hshape
  rw [failIf_ok, not_not] at hsame
  subst hsame
  obtain ⟨-, hcount, hroot, -, hgrants⟩ := planScalableEpoch_ok hplan
  rcases mem_cons.mp hp with rfl | hp
  · refine failIf_bind_ok.mpr ⟨lt_irrefl _, failIf_ok.mpr ?_⟩
    exact not_or.mpr ⟨hroot, hcount⟩
  · obtain ⟨g, hg, rfl⟩ := mem_map.mp hp
    refine failIf_bind_ok.mpr ⟨lt_irrefl _, failIf_ok.mpr ?_⟩
    exact not_or.mpr ⟨hgrants g hg, not_lt.mpr (hnames g hg)⟩

/-- A planned epoch grants what it issues. -/
lemma sum_positions_of_plan (stop : U128) (hshape : validatePlanShape plan policy = .ok ()) :
    ((plan.positions stop).map fun p => p.amount.val).sum = plan.totalIssued.val := by
  obtain ⟨expected, hplan, hsame⟩ := bind_ok.mp hshape
  rw [failIf_ok, not_not] at hsame
  subst hsame
  obtain ⟨-, -, -, hsum, -⟩ := planScalableEpoch_ok hplan
  simpa [ScalableEpochPlan.positions, Function.comp_def] using hsum.symm

lemma WellFormed.applyEpoch {l l' : MonetaryLedger} (hl : l.WellFormed)
    (hnames : ∀ g ∈ plan.optionalGrants, (utf8 g.beneficiary).length ≤ maxSnapshotBeneficiaryBytes)
    (h : l.applyEpoch plan policy = .ok l') : l'.WellFormed := by
  obtain ⟨hnext, hshape, stop, totalIssued, hstop, htotal, rfl⟩ := applyEpoch_ok h
  have hsum := sum_positions_of_plan stop hshape
  have hissued := hl.issued
  constructor
  case fresh => simp
  case issued =>
    simp only [granted, map_append, sum_append] at hissued ⊢
    omega
  case valid =>
    intro p hp
    rcases mem_append.mp hp with hp | hp
    · exact validatePosition_mono hstop (hl.valid p hp)
    · exact validatePosition_of_plan hshape hnames hp
  case epoch_le =>
    intro last hlast p hp
    obtain rfl := Option.some.inj hlast
    rcases mem_append.mp hp with hp | hp
    · cases hlast : l.lastEpoch with
      | none => simp [(hl.fresh hlast).2.2] at hp
      | some last =>
        exact UInt64.le_trans (hl.epoch_le last hlast p hp) (UInt64.le_of_lt (hnext last hlast))
    · simp only [ScalableEpochPlan.positions, mem_cons, mem_map] at hp
      rcases hp with rfl | ⟨g, -, rfl⟩ <;> exact UInt64.le_refl _

lemma max_epoch_le_iff {a b c : UInt64} : max a b ≤ c ↔ a ≤ c ∧ b ≤ c := by
  change (if a ≤ b then b else a) ≤ c ↔ _
  simp only [UInt64.le_iff_toNat_le]
  split_ifs <;> omega

lemma greatestEpoch_le_iff {last : UInt64} :
    (∀ greatest ∈ greatestEpoch positions, greatest ≤ last) ↔
      ∀ p ∈ positions, p.epoch ≤ last := by
  have hfold : ∀ (ps : List VestingPosition) (start : Option UInt64),
      (∀ greatest ∈ ps.foldl (fun greatest p => some (greatest.elim p.epoch (max · p.epoch))) start,
        greatest ≤ last) ↔ (∀ g ∈ start, g ≤ last) ∧ ∀ p ∈ ps, p.epoch ≤ last := by
    intro ps
    induction ps with
    | nil => simp
    | cons p ps ih =>
      intro start
      rw [foldl_cons, ih]
      cases start <;> simp [max_epoch_le_iff, and_assoc]
  simpa [greatestEpoch] using hfold positions none

lemma foldlM_validate_ok {t : U128} {start issued : Amount} :
    positions.foldlM (fun total position => do
        validatePosition position t
        total.checkedAdd position.amount) start = .ok issued ↔
      (∀ p ∈ positions, validatePosition p t = .ok ()) ∧
        issued.val = start.val + (positions.map fun p => p.amount.val).sum := by
  induction positions generalizing start with
  | nil =>
    rw [foldlM_nil, pure_ok]
    simp [Fin.ext_iff, eq_comm]
  | cons p ps ih =>
    simp only [foldlM_cons, bind_ok, ih, Amount.checkedAdd_ok, forall_mem_cons, map_cons, sum_cons]
    constructor
    · rintro ⟨mid, ⟨_, hp, hmid⟩, hps, hsum⟩
      exact ⟨⟨hp, hps⟩, by omega⟩
    · rintro ⟨⟨hp, hps⟩, hsum⟩
      have hlt := issued.isLt
      exact ⟨⟨start.val + p.amount.val, by omega⟩, ⟨(), hp, rfl⟩, hps, by simp only; omega⟩

/-- A snapshot is accepted exactly when it is well formed, small enough, and the supply ever
created fits an amount. -/
lemma importSnapshot_ok {snapshot : Snapshot} {l : MonetaryLedger} :
    importSnapshot snapshot = .ok l ↔ l = snapshot ∧ snapshot.WellFormed ∧
      snapshot.positions.length ≤ maxVestingPositions ∧
      snapshot.genesisCirculating.val + snapshot.totalIssued.val < 2 ^ 128 := by
  have hgranted := snapshot.circulating_le
  rw [importSnapshot]
  simp only [↓failIf_bind_ok, bind_ok, foldlM_validate_ok, pure_ok, not_lt, not_not, totalSupply,
    lockedSupply, circulatingSupply_ok, Amount.checkedAdd_ok, Amount.checkedSub_ok]
  constructor
  · rintro ⟨hlen, hfresh, issued, ⟨hvalid, hsum⟩, rfl, hepoch, total, htotal, -, -, -, -, rfl⟩
    refine ⟨rfl, ⟨fun hnone => ?_, ?_, hvalid, ?_⟩, hlen, htotal.trans_lt total.isLt⟩
    · simpa [hnone, not_or] using hfresh
    · simpa [granted, Amount.zero] using hsum
    · intro last hlast
      refine greatestEpoch_le_iff.mp fun greatest hgreatest => ?_
      exact UInt64.not_lt.mp fun hlt => hepoch ⟨greatest, hgreatest, last, hlast, hlt⟩
  · rintro ⟨rfl, hwf, hlen, hfit⟩
    have hissued := hwf.issued
    refine ⟨hlen, ?_, l.totalIssued, ⟨hwf.valid, ?_⟩, rfl, ?_, ⟨_, hfit⟩, rfl,
      ⟨l.circulating, by omega⟩, rfl, ⟨l.genesisCirculating.val + l.totalIssued.val - l.circulating,
        by omega⟩, ⟨⟨_, hfit⟩, rfl, ⟨l.circulating, by omega⟩, rfl, ?_⟩, rfl⟩
    · rintro ⟨hnone, hsome⟩
      obtain ⟨hzero, htime, hnil⟩ := hwf.fresh hnone
      simp [hzero, htime, hnil] at hsome
    · simpa [granted, Amount.zero] using hissued
    · rintro ⟨greatest, hgreatest, last, hlast, hlt⟩
      exact UInt64.not_le.mpr hlt
        (greatestEpoch_le_iff.mpr (hwf.epoch_le last hlast) greatest hgreatest)
    -- circulation is within the total supply, which fits
    · simp only
      omega

end MonetaryLedger

end Mininet
