import Mathlib.Data.List.Sort
import Mathlib.Data.Set.Insert
import Mathlib.Order.Bounds.Basic

/-!
# Proof histories

`ProofHistory` keeps the times at which storage challenges were answered. What counts is the
unbroken run of answers that ends at the latest one, if that one is recent enough.

Times are milliseconds. They are only compared and subtracted, so naturals stand for the `u64`s; a
subtraction that would underflow has no value.
-/

namespace Mininet.Spacetime

open List

structure StorageWindowPolicy where
  maxIntervalMs : ℕ
  minWindowMs : ℕ

/-- A difference, if there is one. -/
def checkedSub (a b : ℕ) : Option ℕ := if b ≤ a then some (a - b) else none

lemma checkedSub_of_le {a b : ℕ} (h : b ≤ a) : checkedSub a b = some (a - b) := if_pos h

/-! ### Runs of times -/

/-- `first` begins the longest run of times that ends at `last`: from `first` on another time
follows within the interval, and none precedes `first` within it. -/
structure StartsRun (times : Set ℕ) (maxIntervalMs last first : ℕ) : Prop where
  mem : first ∈ times
  le : first ≤ last
  linked : ∀ t ∈ times, first ≤ t → t < last → ∃ u ∈ times, t < u ∧ u ≤ t + maxIntervalMs
  gap : ∀ t ∈ times, t < first → t + maxIntervalMs < first

/-- How long the run covers that ends at the latest of some times, which must be recent. -/
inductive Covers (times : Set ℕ) (maxIntervalMs nowMs : ℕ) : ℕ → Prop
  | run {last first} (greatest : IsGreatest times last) (recent : nowMs - last ≤ maxIntervalMs)
      (starts : StartsRun times maxIntervalMs last first) :
      Covers times maxIntervalMs nowMs (last - first)
  | lapsed (stale : ∀ last, IsGreatest times last → maxIntervalMs < nowMs - last) :
      Covers times maxIntervalMs nowMs 0

variable {times times' : Set ℕ} {maxIntervalMs nowMs last first t w w' : ℕ}

/-- A run does not jump over a gap, also where more times are known. -/
lemma StartsRun.le_first (h : StartsRun times maxIntervalMs last first) (hsub : times ⊆ times')
    {g : ℕ} (hgap : ∀ t ∈ times', t < g → t + maxIntervalMs < g) (hle : g ≤ last) : g ≤ first := by
  -- from any time of the run below `g` the next one is below `g` as well
  have hnone : ∀ k, ∀ t ∈ times, first ≤ t → t < g → g - t = k → False := by
    intro k
    induction k using Nat.strong_induction_on with
    | _ k ih =>
      intro t ht hfirst htg hk
      obtain ⟨u, hu, htu, hnext⟩ := h.linked t ht hfirst (htg.trans_le hle)
      have hbelow := hgap t (hsub ht) htg
      exact ih (g - u) (by omega) u hu (by omega) (by omega) rfl
  by_contra hlt
  exact hnone _ first h.mem le_rfl (not_le.mp hlt) rfl

lemma Covers.unique (h : Covers times maxIntervalMs nowMs w)
    (h' : Covers times maxIntervalMs nowMs w') : w = w' := by
  cases h with
  | @run last first greatest recent starts =>
    cases h' with
    | @run last' first' greatest' recent' starts' =>
      obtain rfl := greatest.unique greatest'
      have hle := starts.le_first subset_rfl starts'.gap starts'.le
      have hge := starts'.le_first subset_rfl starts.gap starts.le
      rw [le_antisymm hge hle]
    | lapsed stale => exact absurd (stale last greatest) (by omega)
  | lapsed stale =>
    cases h' with
    | @run last' first' greatest' recent' starts' => exact absurd (stale _ greatest') (by omega)
    | lapsed stale' => rfl

/-- Another time makes the run no shorter. -/
lemma Covers.le_insert (h : Covers times maxIntervalMs nowMs w) (ht : t ≤ nowMs)
    (h' : Covers (insert t times) maxIntervalMs nowMs w') : w ≤ w' := by
  cases h with
  | lapsed stale => exact Nat.zero_le _
  | @run last first greatest recent starts =>
    have hsub := Set.subset_insert t times
    have hmax : IsGreatest (insert t times) (max t last) :=
      greatest.insert t
    cases h' with
    | lapsed stale =>
      have hlapsed := stale _ hmax
      omega
    | @run last' first' greatest' recent' starts' =>
      obtain rfl := greatest'.unique hmax
      have hle : first' ≤ last := by
        by_contra hlt
        have hgap := starts'.gap last (hsub greatest.1) (not_le.mp hlt)
        have hlast := starts'.le
        omega
      have hfirst := starts.le_first hsub starts'.gap hle
      omega

/-! ### The history -/

/-- The times of the answers, in order and each once. -/
structure ProofHistory where
  successes : List ℕ
  sorted : successes.Pairwise (· < ·)

namespace ProofHistory

def new : ProofHistory := ⟨[], .nil⟩

/-- A new time goes where the binary search for it ends. -/
def recordSuccess (h : ProofHistory) (atMs : ℕ) : ProofHistory where
  successes := if atMs ∈ h.successes then h.successes else h.successes.orderedInsert (· ≤ ·) atMs
  sorted := by
    split_ifs with hmem
    · exact h.sorted
    · have hle := (h.sorted.imp le_of_lt).orderedInsert atMs
      have hnodup := (perm_orderedInsert (· ≤ ·) atMs h.successes).nodup_iff.mpr
        (nodup_cons.mpr ⟨hmem, h.sorted.imp ne_of_lt⟩)
      exact (hle.and hnodup).imp fun h => lt_of_le_of_ne h.1 h.2

/-- Where the run begins that ends at a time; the times before it come latest first. -/
def runStart (maxIntervalMs : ℕ) : ℕ → List ℕ → Option ℕ
  | t, []         => some t
  | t, u :: older => do
    let gap ← checkedSub t u
    if maxIntervalMs < gap then some t else runStart maxIntervalMs u older

def coveredWindowMs (h : ProofHistory) (policy : StorageWindowPolicy) (nowMs : ℕ) : Option ℕ :=
  match (h.successes.filter (· ≤ nowMs)).reverse with
  | []            => some 0
  | last :: older =>
    if policy.maxIntervalMs < nowMs - last then some 0
    else do
      let first ← runStart policy.maxIntervalMs last older
      checkedSub last first

/-- A history of successes, recorded one after the other. -/
def recordAll (recorded : List ℕ) : ProofHistory := recorded.foldl recordSuccess new

lemma mem_recordSuccess {h : ProofHistory} :
    t ∈ (h.recordSuccess last).successes ↔ t = last ∨ t ∈ h.successes := by
  rw [recordSuccess]
  split_ifs with hmem
  · refine ⟨.inr, ?_⟩
    rintro (rfl | ht)
    exacts [hmem, ht]
  · exact mem_orderedInsert (· ≤ ·)

lemma mem_recordAll {recorded : List ℕ} : t ∈ (recordAll recorded).successes ↔ t ∈ recorded := by
  have hfold : ∀ h : ProofHistory, t ∈ (recorded.foldl recordSuccess h).successes ↔
      t ∈ recorded ∨ t ∈ h.successes := by
    induction recorded with
    | nil => simp
    | cons a recorded ih =>
      intro h
      rw [foldl_cons, ih, mem_recordSuccess, mem_cons]
      tauto
  simp [recordAll, hfold, new]

lemma runStart_spec {older : List ℕ} (h : (last :: older).Pairwise (· > ·)) :
    ∃ first, runStart maxIntervalMs last older = some first ∧
      StartsRun {t | t ∈ last :: older} maxIntervalMs last first := by
  induction older generalizing last with
  | nil => exact ⟨last, rfl, by simp, le_rfl, by intros; omega, by simp⟩
  | cons u older ih =>
    obtain ⟨hlast, hrest⟩ := pairwise_cons.mp h
    have hu : u < last := hlast u (by simp)
    have hle : ∀ t ∈ u :: older, t ≤ u := by
      intro t ht
      rcases mem_cons.mp ht with rfl | ht
      · exact le_rfl
      · exact ((pairwise_cons.mp hrest).1 t ht).le
    rw [runStart, checkedSub_of_le hu.le, Option.bind_eq_bind, Option.bind_some]
    split_ifs with hgap
    · refine ⟨last, rfl, by simp, le_rfl, by intros; omega, fun t ht hlt => ?_⟩
      have hbelow := hle t ((mem_cons.mp ht).resolve_left hlt.ne)
      omega
    · obtain ⟨first, hfirst, hstarts⟩ := ih hrest
      have hfirstLe := hstarts.le
      refine ⟨first, hfirst, mem_cons_of_mem _ hstarts.mem, by omega, ?_, ?_⟩
      · intro t ht hge hlt
        have hmem := (mem_cons.mp ht).resolve_left hlt.ne
        rcases (hle t hmem).eq_or_lt with rfl | htu
        · exact ⟨last, by simp, hlt, by omega⟩
        · obtain ⟨v, hv, hnext⟩ := hstarts.linked t hmem hge htu
          exact ⟨v, mem_cons_of_mem _ hv, hnext⟩
      · intro t ht hlt
        exact hstarts.gap t ((mem_cons.mp ht).resolve_left (by omega)) hlt

/-- What is computed is what the recorded times cover, and no subtraction underflows. -/
lemma exists_covered (h : ProofHistory) (policy : StorageWindowPolicy) (nowMs : ℕ) :
    ∃ w, h.coveredWindowMs policy nowMs = some w ∧
      Covers {t | t ∈ h.successes ∧ t ≤ nowMs} policy.maxIntervalMs nowMs w := by
  have hmem : ∀ t, t ∈ (h.successes.filter (· ≤ nowMs)).reverse ↔ t ∈ h.successes ∧ t ≤ nowMs := by
    simp
  have hsorted := pairwise_reverse.mpr (h.sorted.filter fun t => decide (t ≤ nowMs))
  rw [coveredWindowMs]
  simp only [← hmem]
  generalize (h.successes.filter (· ≤ nowMs)).reverse = relevant at hsorted
  cases relevant with
  | nil => exact ⟨0, rfl, .lapsed fun last hlast => absurd hlast.1 (by simp)⟩
  | cons last older =>
    have hgreatest : IsGreatest {t | t ∈ last :: older} last := by
      refine ⟨by simp, fun t ht => ?_⟩
      rcases mem_cons.mp ht with rfl | ht
      · exact le_rfl
      · exact ((pairwise_cons.mp hsorted).1 t ht).le
    dsimp only
    split_ifs with hstale
    · refine ⟨0, rfl, .lapsed fun last' hlast' => ?_⟩
      rwa [hlast'.unique hgreatest]
    · obtain ⟨first, hfirst, hstarts⟩ := runStart_spec hsorted
      refine ⟨last - first, ?_, .run hgreatest (not_lt.mp hstale) hstarts⟩
      rw [hfirst, Option.bind_eq_bind, Option.bind_some, checkedSub_of_le hstarts.le]

/-- The window is the length of the run that the recorded times end in: it depends on nothing but
which times were recorded, and another success at a time that has come makes it no shorter. -/
theorem coveredWindowMs_well_defined (recorded : List ℕ) (policy : StorageWindowPolicy)
    (nowMs : ℕ) :
    (∃ covered, (recordAll recorded).coveredWindowMs policy nowMs = some covered ∧
      ∀ w, Covers {t | t ∈ recorded ∧ t ≤ nowMs} policy.maxIntervalMs nowMs w ↔ w = covered) ∧
    (∀ recorded', (∀ t, t ∈ recorded' ↔ t ∈ recorded) →
      (recordAll recorded').coveredWindowMs policy nowMs =
        (recordAll recorded).coveredWindowMs policy nowMs) ∧
    ∀ t ≤ nowMs, ∃ w w', (recordAll recorded).coveredWindowMs policy nowMs = some w ∧
      ((recordAll recorded).recordSuccess t).coveredWindowMs policy nowMs = some w' ∧ w ≤ w' := by
  have hspec : ∀ recorded', ∃ w, (recordAll recorded').coveredWindowMs policy nowMs = some w ∧
      Covers {t | t ∈ recorded' ∧ t ≤ nowMs} policy.maxIntervalMs nowMs w := by
    intro recorded'
    have hcovered := exists_covered (recordAll recorded') policy nowMs
    simpa only [mem_recordAll] using hcovered
  obtain ⟨w, hw, hcovers⟩ := hspec recorded
  refine ⟨⟨w, hw, fun w' => ⟨fun h => h.unique hcovers, ?_⟩⟩, fun recorded' hsame => ?_,
    fun t ht => ?_⟩
  · rintro rfl
    exact hcovers
  · obtain ⟨w', hw', hcovers'⟩ := hspec recorded'
    simp only [hsame] at hcovers'
    rw [hw, hw', hcovers'.unique hcovers]
  · obtain ⟨w', hw', hcovers'⟩ := exists_covered ((recordAll recorded).recordSuccess t) policy nowMs
    have hinsert : {u | u ∈ ((recordAll recorded).recordSuccess t).successes ∧ u ≤ nowMs} =
        insert t {u | u ∈ recorded ∧ u ≤ nowMs} := by
      ext u
      simp only [mem_recordSuccess, mem_recordAll, Set.mem_ofPred_eq, Set.mem_insert_iff]
      constructor
      · rintro ⟨rfl | hu, hle⟩
        exacts [.inl rfl, .inr ⟨hu, hle⟩]
      · rintro (rfl | ⟨hu, hle⟩)
        exacts [⟨.inl rfl, ht⟩, ⟨.inr hu, hle⟩]
    rw [hinsert] at hcovers'
    exact ⟨w, w', hw, hw', hcovers.le_insert ht hcovers'⟩

end ProofHistory

end Mininet.Spacetime
