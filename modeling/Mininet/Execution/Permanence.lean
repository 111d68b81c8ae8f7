import Mininet.Execution.Steps

/-!
# How long a payment stays finalized

The ledger keeps one sequence and one digest per payer, and one entry per rejected digest. A
finalized claim is therefore displaced by the payer's next payment, which takes its slot, and by
being included again, which records its own digest as rejected. Nothing else displaces it, and
nothing restores it. The same steps show that no balance falls without a fresh claim that its owner
signed, and that no grant is taken back.
-/

namespace Mininet

open Fallible List
open Std (ExtTreeMap LawfulEqCmp)

namespace LedgerState

section

variable [Primitives]

/-- What reconciliation reads when it answers `finalized`. -/
structure IsFinal (s : LedgerState) (c : PaymentClaim) : Prop where
  verifies : c.verifyClaimSignature = .ok ()
  notRejected : s.rejected[c.claimDigest]? = none
  finalized : s.finalized[c.payer]? = some (c.sequence, c.claimDigest)

variable {s s' : LedgerState} {c d : PaymentClaim} {body : SettlementBlockBody}
  {verifier : Option ClaimVerifier} {ds : List PaymentClaim}

lemma reconcile_view_eq_finalized {t : UInt64} :
    c.reconcile s.view t = .ok .finalized ↔ s.IsFinal c := by
  rw [PaymentClaim.reconcile_eq_finalized]
  constructor
  · rintro ⟨hok, hrejected, hsequence, hdigest⟩
    refine ⟨hok, hrejected, ?_⟩
    simp only [view] at hsequence hdigest
    cases h : s.finalized[c.payer]? with
    | none => simp [h] at hsequence
    | some e =>
      obtain ⟨n, d⟩ := e
      simp_all
  · rintro ⟨hok, hrejected, hfinal⟩
    exact ⟨hok, hrejected, by simp [view, hfinal], by simp [view, hfinal]⟩

/-- A claim `d` displaces `c`: its signature is valid, and it has the digest of `c` or is a payment
of the same payer that will be executed. -/
def Displaces (s : LedgerState) (c d : PaymentClaim) : Prop :=
  d.verifyClaimSignature = .ok () ∧
    (d.claimDigest = c.claimDigest ∨ d.payer = c.payer ∧ s.Executes d)

/-- The slot of `c` has gone to a later sequence, or its digest is recorded as rejected. -/
def Displaced (s : LedgerState) (c : PaymentClaim) : Prop :=
  ∃ e, s.finalized[c.payer]? = some e ∧ c.sequence ≤ e.1 ∧
    (e.1 = c.sequence → s.rejected[c.claimDigest]? ≠ none)

lemma Displaced.not_isFinal (h : s.Displaced c) : ¬ s.IsFinal c := by
  rintro ⟨-, hrejected, hfinal⟩
  obtain ⟨e, he, -, hslot⟩ := h
  rw [hfinal] at he
  cases he
  exact hslot rfl hrejected

/-! ### One step -/

lemma finalized_finalize (s : LedgerState) (c d : PaymentClaim) :
    (s.finalize d).finalized[c.payer]? =
      if d.payer = c.payer then some (d.sequence, d.claimDigest) else s.finalized[c.payer]? := by
  simp [finalize, ExtTreeMap.getElem?_insert]

lemma rejected_finalize (s : LedgerState) (d : PaymentClaim) (digest : Hash) :
    (s.finalize d).rejected[digest]? =
      if d.claimDigest = digest then none else s.rejected[digest]? := by
  simp [finalize, ExtTreeMap.getElem?_erase]

section

omit [Primitives]

lemma rejected_reject (s : LedgerState) (digest digest' : Hash) (reason : CanonicalRejection) :
    (s.reject digest reason).rejected[digest']? =
      if digest = digest' then some reason else s.rejected[digest']? := by
  simp [reject, ExtTreeMap.getElem?_insert]

/-- Money moves without touching the slots. -/
lemma slots_transfer (h : s.transfer c = .ok s') :
    s'.finalized = s.finalized ∧ s'.rejected = s.rejected := by
  obtain ⟨-, rfl⟩ | ⟨-, debited, credited, -, -, rfl⟩ := transfer_ok h <;> exact ⟨rfl, rfl⟩

lemma sequence_lt_of_wins {e : UInt64 × Hash} (hwins : s.wins d)
    (he : s.finalized[d.payer]? = some e) : e.1 < d.sequence := by
  simpa [wins, view, he] using hwins

end

/-- A finalized claim stays so unless the next claim displaces it. -/
lemma IsFinal.claimStep (hs : s.IsFinal c) (hnot : ¬ s.Displaces c d) (h : ClaimStep s d s') :
    s'.IsFinal c := by
  cases h with
  | dropped => exact hs
  | rejected reason hok _ =>
    have hdigest : d.claimDigest ≠ c.claimDigest := fun heq => hnot ⟨hok, .inl heq⟩
    exact ⟨hs.verifies, by rw [rejected_reject, if_neg hdigest, hs.notRejected], hs.finalized⟩
  | executed hok hexec hpaid =>
    have hdigest : d.claimDigest ≠ c.claimDigest := fun heq => hnot ⟨hok, .inl heq⟩
    have hpayer : d.payer ≠ c.payer := fun heq => hnot ⟨hok, .inr ⟨heq, hexec⟩⟩
    obtain ⟨hfinalized, hrejected⟩ := slots_transfer hpaid
    refine ⟨hs.verifies, ?_, ?_⟩
    · rw [rejected_finalize, if_neg hdigest, hrejected, hs.notRejected]
    · rw [finalized_finalize, if_neg hpayer, hfinalized, hs.finalized]

/-- Two claims with one digest do not differ in anything that is signed. -/
def NoCollision (c d : PaymentClaim) : Prop := d.claimDigest = c.claimDigest → c.SameTerms d

lemma NoCollision.same_slot (h : NoCollision c d) (hdigest : d.claimDigest = c.claimDigest) :
    d.payer = c.payer ∧ d.sequence = c.sequence := by
  have hterms := h hdigest
  unfold PaymentClaim.SameTerms at hterms
  rw [← hterms]
  exact ⟨rfl, rfl⟩

/-- A claim that displaces a finalized one does so. -/
lemma IsFinal.displaced (hs : s.IsFinal c) (hdisplaces : s.Displaces c d) (hterms : NoCollision c d)
    (h : ClaimStep s d s') : s'.Displaced c := by
  obtain ⟨hok', hdisplaces⟩ := hdisplaces
  cases h with
  | dropped hbad => exact absurd hok' hbad
  | rejected reason _ hno =>
    have hdigest : d.claimDigest = c.claimDigest :=
      hdisplaces.resolve_right fun h => hno h.2
    exact ⟨_, hs.finalized, UInt64.le_refl _, fun _ => by simp [rejected_reject, hdigest]⟩
  | executed hok hexec hpaid =>
    have hpayer : d.payer = c.payer :=
      hdisplaces.elim (fun hdigest => (hterms.same_slot hdigest).1) And.left
    have hlt := sequence_lt_of_wins hexec.wins (hpayer ▸ hs.finalized)
    refine ⟨_, by rw [finalized_finalize, if_pos hpayer], UInt64.le_of_lt hlt, fun heq => ?_⟩
    exact absurd hlt (by simp only at heq; rw [heq]; exact UInt64.lt_irrefl _)

/-- What has been displaced stays displaced: the claim cannot be executed again. -/
lemma Displaced.claimStep (hs : s.Displaced c) (hterms : NoCollision c d) (h : ClaimStep s d s') :
    s'.Displaced c := by
  obtain ⟨e, he, hle, hslot⟩ := hs
  cases h with
  | dropped => exact ⟨e, he, hle, hslot⟩
  | rejected reason _ _ =>
    refine ⟨e, he, hle, fun heq => ?_⟩
    rw [rejected_reject]
    split_ifs
    · simp
    · exact hslot heq
  | executed _ hexec hpaid =>
    obtain ⟨hfinalized, hrejected⟩ := slots_transfer hpaid
    by_cases hpayer : d.payer = c.payer
    · have hlt := sequence_lt_of_wins hexec.wins (hpayer ▸ he)
      have hlt : c.sequence < d.sequence := UInt64.lt_of_le_of_lt hle hlt
      refine ⟨_, by rw [finalized_finalize, if_pos hpayer], UInt64.le_of_lt hlt, fun heq => ?_⟩
      exact absurd hlt (by simp only at heq; rw [heq]; exact UInt64.lt_irrefl _)
    · have hdigest : d.claimDigest ≠ c.claimDigest := fun heq => hpayer (hterms.same_slot heq).1
      refine ⟨e, by rw [finalized_finalize, if_neg hpayer, hfinalized, he], hle, fun heq => ?_⟩
      rw [rejected_finalize, if_neg hdigest, hrejected]
      exact hslot heq

/-! ### Whole runs -/

/-- No claim of a list displaces `c` in the state it is executed in. -/
def Undisplaced (c : PaymentClaim) : LedgerState → List PaymentClaim → Prop
  | _, []      => True
  | s, d :: ds => ¬ s.Displaces c d ∧ ∀ s', s.applyOneClaim d = .ok s' → Undisplaced c s' ds

/-- No claim of a run's blocks displaces `c`. -/
def UndisplacedRun (c : PaymentClaim) :
    LedgerState → List (SettlementBlockBody × Option ClaimVerifier) → Prop
  | _, []               => True
  | s, block :: blocks => Undisplaced c s block.1.claims ∧
      ∀ s', s.applyBlockWithVerifier block.1 block.2 = .ok s' → UndisplacedRun c s' blocks

lemma Displaced.foldlM (hterms : ∀ d ∈ ds, NoCollision c d)
    (hs : s.Displaced c) (h : ds.foldlM applyOneClaim s = .ok s') : s'.Displaced c :=
  foldlM_invariant (P := fun s => s.Displaced c)
    (fun _ d hd _ hs ht => hs.claimStep (hterms d hd) (claimStep_of_applyOneClaim ht)) hs h

/-- Over the claims of a block: kept if none displaces, displaced for good otherwise. -/
lemma IsFinal.foldlM (hterms : ∀ d ∈ ds, NoCollision c d)
    (hs : s.IsFinal c) (h : ds.foldlM applyOneClaim s = .ok s') :
    (Undisplaced c s ds ∧ s'.IsFinal c) ∨ (¬ Undisplaced c s ds ∧ s'.Displaced c) := by
  induction ds generalizing s with
  | nil =>
    cases h
    exact .inl ⟨trivial, hs⟩
  | cons d ds ih =>
    rw [foldlM_cons] at h
    obtain ⟨mid, hmid, hrest⟩ := bind_ok.mp h
    have hstep := claimStep_of_applyOneClaim hmid
    have htail : ∀ d ∈ ds, NoCollision c d := fun d hd => hterms d (by simp [hd])
    by_cases hdisplaces : s.Displaces c d
    · have hmid := hs.displaced hdisplaces (hterms d (by simp)) hstep
      exact .inr ⟨fun h => h.1 hdisplaces, hmid.foldlM htail hrest⟩
    · rcases ih htail (hs.claimStep hdisplaces hstep) hrest with ⟨hun, hfinal⟩ | ⟨hnot, hdisplaced⟩
      · refine .inl ⟨⟨hdisplaces, fun t ht => ?_⟩, hfinal⟩
        rw [hmid] at ht
        cases ht
        exact hun
      · exact .inr ⟨fun h => hnot (h.2 mid hmid), hdisplaced⟩

omit [Primitives] in
/-- Spends and epochs do not touch the slots. -/
lemma slots_groupStep {verifier : ClaimVerifier} {digest : Hash}
    (h : GroupStep verifier s digest s') :
    s'.finalized = s.finalized ∧ s'.rejected = s.rejected := by
  cases h <;> exact ⟨rfl, rfl⟩

/-- After its claims, a block leaves the slots as they are. -/
lemma slots_applyBlock (h : s.applyBlockWithVerifier body verifier = .ok s') :
    ∃ paid, body.claims.foldlM applyOneClaim s = .ok paid ∧
      s'.finalized = paid.finalized ∧ s'.rejected = paid.rejected := by
  obtain ⟨paid, spent, hpaid, hspent, hnext, -⟩ := applyBlockWithVerifier_ok h
  have hslots : spent.finalized = paid.finalized ∧ spent.rejected = paid.rejected :=
    applyNullifiers_invariant (P := fun t => t.finalized = paid.finalized ∧
      t.rejected = paid.rejected) (fun _ _ _ _ _ ht hstep =>
        ⟨(slots_groupStep hstep).1.trans ht.1, (slots_groupStep hstep).2.trans ht.2⟩)
      ⟨rfl, rfl⟩ hspent
  refine ⟨paid, hpaid, ?_⟩
  obtain rfl | ⟨_, _, _, _, _, _, _, _, rfl⟩ := applyMonetaryEpoch_ok hnext <;> exact hslots

/-- Over a block: kept if no claim displaces, displaced for good otherwise. -/
lemma IsFinal.applyBlock (hterms : ∀ d ∈ body.claims, NoCollision c d) (hs : s.IsFinal c)
    (h : s.applyBlockWithVerifier body verifier = .ok s') :
    (Undisplaced c s body.claims ∧ s'.IsFinal c) ∨
      (¬ Undisplaced c s body.claims ∧ s'.Displaced c) := by
  obtain ⟨paid, hpaid, hfinalized, hrejected⟩ := slots_applyBlock h
  rcases hs.foldlM hterms hpaid with ⟨hun, hfinal⟩ | ⟨hnot, e, he, hle, hslot⟩
  · exact .inl ⟨hun, hfinal.verifies, hrejected ▸ hfinal.notRejected, hfinalized ▸ hfinal.finalized⟩
  · exact .inr ⟨hnot, e, hfinalized ▸ he, hle, hrejected ▸ hslot⟩

lemma Displaced.applyBlock (hterms : ∀ d ∈ body.claims, NoCollision c d) (hs : s.Displaced c)
    (h : s.applyBlockWithVerifier body verifier = .ok s') : s'.Displaced c := by
  obtain ⟨paid, hpaid, hfinalized, hrejected⟩ := slots_applyBlock h
  obtain ⟨e, he, hle, hslot⟩ := hs.foldlM hterms hpaid
  exact ⟨e, hfinalized ▸ he, hle, hrejected ▸ hslot⟩

lemma Displaced.runs {blocks : List (SettlementBlockBody × Option ClaimVerifier)}
    (hruns : Runs s blocks s') (hterms : ∀ block ∈ blocks, ∀ d ∈ block.1.claims, NoCollision c d)
    (hs : s.Displaced c) : s'.Displaced c := by
  induction hruns with
  | nil => exact hs
  | cons happly _ ih =>
    exact ih (fun block hblock => hterms block (mem_cons_of_mem _ hblock))
      (hs.applyBlock (hterms _ mem_cons_self) happly)

/-- **How long finality lasts.** Over every run from a state in which a claim is finalized, it still
is at the end, whatever the times asked at, exactly when no claim of the run displaced it. -/
theorem finalized_iff_undisplaced {s s' : LedgerState} {c : PaymentClaim}
    {blocks : List (SettlementBlockBody × Option ClaimVerifier)} (t t' : UInt64)
    (hfinal : c.reconcile s.view t = .ok .finalized) (hruns : Runs s blocks s')
    (hterms : ∀ block ∈ blocks, ∀ d ∈ block.1.claims, NoCollision c d) :
    c.reconcile s'.view t' = .ok .finalized ↔ UndisplacedRun c s blocks := by
  rw [reconcile_view_eq_finalized] at hfinal ⊢
  induction hruns with
  | nil => exact ⟨fun _ => trivial, fun _ => hfinal⟩
  | cons happly hrest ih =>
    have hhead := hterms _ mem_cons_self
    have htail := fun block hblock => hterms block (mem_cons_of_mem _ hblock)
    rcases hfinal.applyBlock hhead happly with ⟨hun, hmid⟩ | ⟨hnot, hdisplaced⟩
    · rw [ih hmid htail]
      refine ⟨fun h => ⟨hun, fun u hu => ?_⟩, fun h => h.2 _ happly⟩
      rw [happly] at hu
      cases hu
      exact h
    · -- once displaced, the rest of the run does not matter
      exact iff_of_false (hdisplaced.runs hrest htail).not_isFinal fun h => hnot h.1

end

/-- A payment back leaves the first one finalized. -/
theorem finalized_after_payment_back :
    letI := Primitives.sample
    ∃ s', Runs samplePaid [({ claims := [samplePayment 2 1 10 1] }, none)] s' ∧
      (samplePayment 1 2 250 1).reconcile s'.view 7 = .ok .finalized := by
  let := Primitives.sample
  have hdigest : @PaymentClaim.claimDigest .sample (samplePayment 2 1 10 1) ≠
      @PaymentClaim.claimDigest .sample (samplePayment 1 2 250 1) := by decide +kernel
  obtain ⟨s', hs', -⟩ := exists_of_any (x := @applyBlockWithVerifier .sample samplePaid
    { claims := [samplePayment 2 1 10 1] } none) (fun _ => true) (by decide +kernel)
  have hruns : Runs samplePaid [({ claims := [samplePayment 2 1 10 1] }, none)] s' :=
    .cons hs' (.nil s')
  refine ⟨s', hruns, (finalized_iff_undisplaced 0 7 (by decide +kernel) hruns ?_).mpr ?_⟩
  · simp only [mem_singleton, forall_eq]
    exact fun h => absurd h hdigest
  · refine ⟨⟨fun h => h.2.elim hdigest fun h => ?_, fun _ _ => trivial⟩, fun _ _ => trivial⟩
    exact absurd h.1 (by decide)

/-- Including the finalized claim once more reports it as stale, and the payer's next payment
reports it as lost to a conflict. -/
theorem finalized_then_rejected :
    letI := Primitives.sample
    samplePaid.Reachable ∧
    (samplePayment 1 2 250 1).reconcile samplePaid.view 0 = .ok .finalized ∧
    (∃ s', Runs samplePaid [({ claims := [samplePayment 1 2 250 1] }, none)] s' ∧
      (samplePayment 1 2 250 1).reconcile s'.view 0 = .ok (.rejectedCanonical .staleSequence)) ∧
    ∃ s', Runs samplePaid [({ claims := [samplePayment 1 2 10 2] }, none)] s' ∧
      (samplePayment 1 2 250 1).reconcile s'.view 0 = .ok .rejectedConflict := by
  let := Primitives.sample
  obtain ⟨again, hagain, hstale⟩ := exists_of_any (x := @applyBlockWithVerifier .sample samplePaid
    { claims := [samplePayment 1 2 250 1] } none)
    (fun s' => decide (@PaymentClaim.reconcile .sample (samplePayment 1 2 250 1) s'.view 0 =
      .ok (.rejectedCanonical .staleSequence))) (by decide +kernel)
  obtain ⟨next, hnext, hconflict⟩ := exists_of_any (x := @applyBlockWithVerifier .sample samplePaid
    { claims := [samplePayment 1 2 10 2] } none)
    (fun s' => decide (@PaymentClaim.reconcile .sample (samplePayment 1 2 250 1) s'.view 0 =
      .ok .rejectedConflict)) (by decide +kernel)
  exact ⟨reachable_samplePaid, by decide +kernel, ⟨again, .cons hagain (.nil again),
    of_decide_eq_true hstale⟩, next, .cons hnext (.nil next), of_decide_eq_true hconflict⟩

/-! ### What no block does -/

/-- A balance falls only by a claim of the run that its owner signed, with a sequence that none of
the owner's payments had used before the run. -/
theorem exists_claim_of_balance_lt [Primitives] {s s' : LedgerState} {account : Bytes}
    {blocks : List (SettlementBlockBody × Option ClaimVerifier)} (hruns : Runs s blocks s')
    (hlt : s'.balance account < s.balance account) :
    ∃ block ∈ blocks, ∃ c ∈ block.1.claims, c.payer = account ∧ c.verifyClaimSignature = .ok () ∧
      ∀ e ∈ s.finalized[account]?, e.1 < c.sequence := by
  by_contra! hnone
  let P (t : LedgerState) := t.finalized[account]? = s.finalized[account]? ∧
    s.balance account ≤ t.balance account
  refine hlt.not_ge (hruns.invariant_of_mem (P := P) (fun block hblock t t' ht happly => ?_)
    ⟨rfl, le_rfl⟩).2
  obtain ⟨paid, spent, hpaid, hspent, hnext, -⟩ := applyBlockWithVerifier_ok happly
  have hP : P paid := by
    refine foldlM_invariant (fun t c hc t' ht hstep => ?_) ht hpaid
    cases claimStep_of_applyOneClaim hstep with
    | dropped | rejected => exact ht
    | executed hok hexec htransfer =>
      -- a claim of the owner would be the one that is asked for
      have hpayer : c.payer ≠ account := by
        rintro rfl
        obtain ⟨e, he, hle⟩ := hnone block hblock c hc rfl hok
        exact hle (sequence_lt_of_wins hexec.wins (ht.1.trans he))
      obtain ⟨-, rfl⟩ | ⟨-, debited, credited, -, hcredited, rfl⟩ := transfer_ok htransfer
      · simpa [P, finalize, balance, ExtTreeMap.getElem?_insert, hpayer] using ht
      · refine ⟨by simpa [finalize, ExtTreeMap.getElem?_insert, hpayer] using ht.1, ht.2.trans ?_⟩
        by_cases hpayee : c.payee = account
        · subst hpayee
          rw [Fin.le_def]
          simp [balance, finalize] at hcredited ⊢
          omega
        · split_ifs <;>
            simp [balance, finalize, ExtTreeMap.getD_insert, ExtTreeMap.getD_erase, hpayee, hpayer]
  have hP : P spent := applyNullifiers_invariant (fun _ _ t _ t' ht hstep => by
    cases hstep <;> exact ht) hP hspent
  obtain rfl | ⟨_, _, _, _, _, _, _, _, rfl⟩ := applyMonetaryEpoch_ok hnext <;> exact hP

theorem samplePaid_balance_lt :
    letI := Primitives.sample
    ∃ c ∈ [samplePayment 1 2 250 1], c.payer = sampleAccount 1 ∧ c.verifyClaimSignature = .ok () := by
  let := Primitives.sample
  have hlt : samplePaid.balance (sampleAccount 1) < sampleFunded.balance (sampleAccount 1) := by
    decide +kernel
  obtain ⟨_, hblock, c, hc, hpayer, hok, -⟩ := exists_claim_of_balance_lt runs_samplePaid hlt
  cases mem_singleton.mp hblock
  exact ⟨c, hc, hpayer, hok⟩

end LedgerState

end Mininet
