import Mininet.Identity
import Mathlib.Data.Multiset.Sort
import Mathlib.Algebra.Order.BigOperators.Group.Finset
import Mathlib.Data.Fintype.EquivFin

/-!
# Trust over the vouch graph

Verified mutual vouches form an undirected graph of identity roots. Trust starts at the seeds and
for some rounds splits evenly along the vouches (`trustScores`); a root's share per vouch never
exceeds the largest share of a seed, so what enters a region in a round is bounded by the vouches
that lead into it. `vouchStrengths` then grades every root against a percentile of the established
ones. The percentile is taken over a list that established newcomers lengthen, so it moves with
their number.

A hash map of the source is its set of keys with the value at each; the order in which one is walked
shows nowhere, since the walks add numbers up or sort what they collect.
-/

namespace Mininet.Uniqueness

open Finset

/-! ### The graph -/

/-- A verified mutual vouch, by the identity roots of its two parties. -/
structure VouchVerdict where
  aRoot : Did
  bRoot : Did

/-- The undirected graph of verified vouches. -/
structure VouchGraph where
  nodes : Finset Did
  neighbors : Did → Finset Did
  symm : ∀ {a b}, b ∈ neighbors a → a ∈ neighbors b
  mem_nodes : ∀ {a b}, b ∈ neighbors a → a ∈ nodes

namespace VouchGraph

/-- `edges.entry(a).or_default().insert(b)`. -/
def insertAt (edges : Did → Finset Did) (a b : Did) : Did → Finset Did :=
  Function.update edges a (insert b (edges a))

@[simp] lemma mem_insertAt {edges : Did → Finset Did} {a b x y : Did} :
    y ∈ insertAt edges a b x ↔ x = a ∧ y = b ∨ y ∈ edges x := by
  rcases eq_or_ne x a with rfl | hne
  · simp [insertAt]
  · simp [insertAt, hne]

def new : VouchGraph := ⟨∅, fun _ => ∅, by simp, by simp⟩

/-- Record a verified vouch as one undirected edge. -/
def addVerdict (graph : VouchGraph) (verdict : VouchVerdict) : VouchGraph where
  nodes := insert verdict.bRoot (insert verdict.aRoot graph.nodes)
  neighbors := insertAt (insertAt graph.neighbors verdict.aRoot verdict.bRoot)
    verdict.bRoot verdict.aRoot
  symm := by
    intro a b h
    have hsymm : b ∈ graph.neighbors a → a ∈ graph.neighbors b := graph.symm
    simp only [mem_insertAt] at h ⊢
    tauto
  mem_nodes := by
    intro a b h
    have hmem : b ∈ graph.neighbors a → a ∈ graph.nodes := graph.mem_nodes
    simp only [mem_insertAt] at h
    simp only [mem_insert]
    tauto

def degree (graph : VouchGraph) (node : Did) : ℕ := (graph.neighbors node).card

/-- Record a verified vouch only if neither side would exceed `maxDegree`; says whether the edge is
now present. -/
def addVerdictCapped (graph : VouchGraph) (verdict : VouchVerdict) (maxDegree : ℕ) :
    Bool × VouchGraph :=
  if verdict.bRoot ∉ graph.neighbors verdict.aRoot ∧
      (maxDegree ≤ graph.degree verdict.aRoot ∨ maxDegree ≤ graph.degree verdict.bRoot) then
    (false, graph)
  else (true, graph.addVerdict verdict)

/-- The vouches that join `S` to the rest of the graph, each counted at its end outside. -/
def cut (graph : VouchGraph) (S : Set Did) [DecidablePred (· ∈ S)] : ℕ :=
  ∑ u ∈ graph.nodes with u ∉ S, ((graph.neighbors u).filter (· ∈ S)).card

end VouchGraph

/-! ### Propagation -/

/-- A map from identity roots to trust mass: its keys, and the mass at each. -/
structure TrustMap where
  roots : Finset Did
  mass : Did → ℕ
  mass_eq_zero : ∀ n ∉ roots, mass n = 0

/-- The sum of all trust. -/
def TrustMap.total (trust : TrustMap) : ℕ := ∑ n ∈ trust.roots, trust.mass n

/-- The sum of the trust inside `S`. -/
def TrustMap.within (trust : TrustMap) (S : Set Did) [DecidablePred (· ∈ S)] : ℕ :=
  ∑ n ∈ trust.roots with n ∈ S, trust.mass n

def trustScale : ℕ := 1000000

/-- What a root hands to each of its neighbors in a round. -/
def share (graph : VouchGraph) (trust : TrustMap) (node : Did) : ℕ :=
  if graph.degree node = 0 ∨ trust.mass node = 0 then 0
  else trust.mass node / graph.degree node

/-- One round: the entry of a root is the sum of the shares its neighbors hand it, and a root that
is handed nothing has none. The sums stay below the total, which does not grow (`total_round_le`),
so that 64 bits hold them. -/
def round (graph : VouchGraph) (trust : TrustMap) : TrustMap where
  roots := (trust.roots.filter fun u => share graph trust u ≠ 0).biUnion graph.neighbors
  mass n := ∑ u ∈ trust.roots with n ∈ graph.neighbors u, share graph trust u
  mass_eq_zero := by
    intro n hn
    refine sum_eq_zero fun u hu => ?_
    simp only [mem_biUnion, mem_filter, not_exists, not_and] at hn hu
    exact not_not.mp fun hne => hn u ⟨hu.1, hne⟩ hu.2

/-- Every seed starts at the scale, however often it is listed. -/
def seeded (seeds : List Did) : TrustMap where
  roots := seeds.toFinset
  mass n := if n ∈ seeds then trustScale else 0
  mass_eq_zero := fun _ hn => if_neg fun h => hn (List.mem_toFinset.mpr h)

/-- Propagate trust outward from `seeds` for `iterations` rounds. -/
def trustScores (graph : VouchGraph) (seeds : List Did) : ℕ → TrustMap
  | 0 => seeded seeds
  | iterations + 1 => round graph (trustScores graph seeds iterations)

/-- The largest share a seed hands out in the first round. -/
def maxShare (graph : VouchGraph) (seeds : List Did) : ℕ :=
  (seeds.toFinset.filter fun s => 0 < graph.degree s).sup fun s => trustScale / graph.degree s

section Propagation

variable (graph : VouchGraph) (trust : TrustMap) (seeds : List Did)

lemma share_mul_degree_le (n : Did) : share graph trust n * graph.degree n ≤ trust.mass n := by
  unfold share
  split
  · simp
  · exact Nat.div_mul_le_self _ _

/-- What a round puts into `S` is handed over along the vouches that end in `S`. -/
lemma within_round_le (S : Set Did) [DecidablePred (· ∈ S)] :
    (round graph trust).within S ≤
      ∑ u ∈ trust.roots, share graph trust u * ((graph.neighbors u).filter (· ∈ S)).card := by
  have hswap : (round graph trust).within S =
      ∑ u ∈ trust.roots, ∑ n ∈ (round graph trust).roots with n ∈ S ∧ n ∈ graph.neighbors u,
        share graph trust u := by
    unfold TrustMap.within round
    refine sum_comm' fun n u => ?_
    simp only [mem_filter]
    tauto
  rw [hswap]
  refine sum_le_sum fun u _ => ?_
  rw [sum_const, smul_eq_mul, mul_comm]
  refine Nat.mul_le_mul_left _ (card_le_card fun n hn => ?_)
  simp only [mem_filter] at hn ⊢
  exact ⟨hn.2.2, hn.2.1⟩

lemma total_round_le : (round graph trust).total ≤ trust.total := by
  calc (round graph trust).total = (round graph trust).within Set.univ := by
        simp [TrustMap.total, TrustMap.within]
    _ ≤ ∑ u ∈ trust.roots, share graph trust u * graph.degree u := by
        simpa [VouchGraph.degree] using within_round_le graph trust Set.univ
    _ ≤ trust.total := sum_le_sum fun u _ => share_mul_degree_le graph trust u

variable {graph trust} {M : ℕ}

/-- A root of degree `d` is handed at most `d` shares. -/
lemma mass_round_le (hM : ∀ u, share graph trust u ≤ M) (n : Did) :
    (round graph trust).mass n ≤ graph.degree n * M := by
  calc (round graph trust).mass n
      ≤ (trust.roots.filter fun u => n ∈ graph.neighbors u).card * M :=
        sum_le_card_nsmul _ _ _ fun u _ => hM u
    _ ≤ graph.degree n * M := by
        refine Nat.mul_le_mul_right _ (card_le_card fun u hu => ?_)
        exact graph.symm (mem_filter.mp hu).2

/-- The maximum principle: no share of a round exceeds a bound on the shares of the round before. -/
lemma share_round_le (hM : ∀ u, share graph trust u ≤ M) (n : Did) :
    share graph (round graph trust) n ≤ M := by
  unfold share
  split
  · exact Nat.zero_le _
  · exact Nat.div_le_of_le_mul (mass_round_le hM n)

/-- A round carries at most one bounded share into `S` along each vouch of the cut. -/
lemma within_round_le_add (hM : ∀ u, share graph trust u ≤ M) (S : Set Did)
    [DecidablePred (· ∈ S)] : (round graph trust).within S ≤ trust.within S + graph.cut S * M := by
  have hin : ∑ u ∈ trust.roots with u ∈ S,
      share graph trust u * ((graph.neighbors u).filter (· ∈ S)).card ≤ trust.within S := by
    refine sum_le_sum fun u _ => ?_
    have hcard : ((graph.neighbors u).filter (· ∈ S)).card ≤ graph.degree u :=
      card_filter_le _ _
    exact (Nat.mul_le_mul_left _ hcard).trans (share_mul_degree_le graph trust u)
  have hout : ∑ u ∈ trust.roots with u ∉ S,
      share graph trust u * ((graph.neighbors u).filter (· ∈ S)).card ≤ graph.cut S * M := by
    calc _ ≤ ∑ u ∈ trust.roots with u ∉ S, ((graph.neighbors u).filter (· ∈ S)).card * M := by
          refine sum_le_sum fun u _ => ?_
          rw [mul_comm]
          exact Nat.mul_le_mul_left _ (hM u)
      _ ≤ ∑ u ∈ graph.nodes with u ∉ S, ((graph.neighbors u).filter (· ∈ S)).card * M := by
          refine sum_le_sum_of_ne_zero fun u hu hne => ?_
          obtain ⟨v, hv⟩ := card_ne_zero.mp (left_ne_zero_of_mul hne)
          simp only [mem_filter] at hu hv ⊢
          exact ⟨graph.mem_nodes hv.1, hu.2⟩
      _ = graph.cut S * M := (sum_mul _ _ _).symm
  calc (round graph trust).within S ≤ _ := within_round_le graph trust S
    _ = _ := (sum_filter_add_sum_filter_not _ (· ∈ S) _).symm
    _ ≤ trust.within S + graph.cut S * M := Nat.add_le_add hin hout

variable (graph)

lemma share_seeded_le (n : Did) : share graph (seeded seeds) n ≤ maxShare graph seeds := by
  unfold share
  split
  · exact Nat.zero_le _
  next h =>
    rw [not_or] at h
    have hmem : n ∈ seeds := by
      by_contra hn
      exact h.2 (if_neg hn)
    have hseed : n ∈ seeds.toFinset.filter fun s => 0 < graph.degree s := by
      simp [hmem, Nat.pos_of_ne_zero h.1]
    have hle : trustScale / graph.degree n ≤ maxShare graph seeds :=
      le_sup (f := fun s => trustScale / graph.degree s) hseed
    simpa [seeded, hmem] using hle

lemma share_trustScores_le (t : ℕ) (n : Did) :
    share graph (trustScores graph seeds t) n ≤ maxShare graph seeds := by
  induction t generalizing n with
  | zero => exact share_seeded_le graph seeds n
  | succ t ih => exact share_round_le ih n

lemma total_trustScores_le (t : ℕ) :
    (trustScores graph seeds t).total ≤ seeds.toFinset.card * trustScale := by
  induction t with
  | zero =>
    refine sum_le_card_nsmul _ _ _ fun n _ => ?_
    simp only [trustScores, seeded]
    split <;> simp
  | succ t ih => exact (total_round_le _ _).trans ih

lemma within_trustScores_le (S : Set Did) [DecidablePred (· ∈ S)] (hS : ∀ s ∈ seeds, s ∉ S)
    (t : ℕ) : (trustScores graph seeds t).within S ≤ t * graph.cut S * maxShare graph seeds := by
  induction t with
  | zero =>
    have hempty : (seeds.toFinset.filter (· ∈ S)) = ∅ := by
      simpa [filter_eq_empty_iff] using hS
    simp [trustScores, TrustMap.within, seeded, hempty]
  | succ t ih =>
    calc (round graph (trustScores graph seeds t)).within S
        ≤ _ + graph.cut S * maxShare graph seeds :=
          within_round_le_add (share_trustScores_le graph seeds t) S
      _ ≤ t * graph.cut S * maxShare graph seeds + graph.cut S * maxShare graph seeds :=
          Nat.add_le_add_right ih _
      _ = (t + 1) * graph.cut S * maxShare graph seeds := by ring

/-- Trust is never made up, and what reaches a region without a seed is bounded by the vouches that
lead into it, however many roots and vouches it has inside. -/
theorem trustScores_bounded (t : ℕ) :
    (trustScores graph seeds t).total ≤ seeds.toFinset.card * trustScale ∧
    (∀ (S : Set Did) [DecidablePred (· ∈ S)], (∀ s ∈ seeds, s ∉ S) →
      (trustScores graph seeds t).within S ≤ t * graph.cut S * maxShare graph seeds) ∧
    (1 ≤ t → ∀ n, (trustScores graph seeds t).mass n ≤ graph.degree n * maxShare graph seeds) := by
  refine ⟨total_trustScores_le graph seeds t,
    fun S _ hS => within_trustScores_le graph seeds S hS t, fun ht n => ?_⟩
  obtain ⟨t, rfl⟩ := Nat.exists_eq_add_of_le' ht
  exact mass_round_le (share_trustScores_le graph seeds t) n

end Propagation

/-! ### Strengths -/

/-- Trust per vouch, where fewer than `minDegree` vouches count as that many. -/
def per (graph : VouchGraph) (minDegree : ℕ) (node : Did) (mass : ℕ) : ℕ :=
  mass / max (graph.degree node) (max minDegree 1)

/-- The trust per vouch of the reached roots with at least `minDegree` vouches. -/
def established (graph : VouchGraph) (trust : TrustMap) (minDegree : ℕ) : Multiset ℕ :=
  (trust.roots.filter fun n => 0 < trust.mass n ∧ max minDegree 1 ≤ graph.degree n).val.map
    fun n => per graph minDegree n (trust.mass n)

/-- The `referencePercentile`-th of the sorted values, and at least one. -/
def percentile (values : List ℕ) (referencePercentile : ℕ) : ℕ :=
  if values = [] then 1
  else max (values.getD ((values.length - 1) * min referencePercentile 100 / 100) 0) 1

/-- What the strength 100 means. -/
def reference (graph : VouchGraph) (trust : TrustMap) (minDegree referencePercentile : ℕ) : ℕ :=
  percentile ((established graph trust minDegree).sort (· ≤ ·)) referencePercentile

/-- The value a strength is the quotient of; the product wraps. -/
def scaled (graph : VouchGraph) (trust : TrustMap) (minDegree : ℕ) (node : Did) : ℕ :=
  per graph minDegree node (trust.mass node) * 100 % 2 ^ 64

/-- Turn raw trust mass into a strength of at most 100 for every root of the map. -/
def vouchStrengths (graph : VouchGraph) (trust : TrustMap) (minDegree referencePercentile : ℕ)
    (node : Did) : Option ℕ :=
  if node ∈ trust.roots then
    some (min
      (scaled graph trust minDegree node / reference graph trust minDegree referencePercentile) 100)
  else none

/-- `graph'` and `trust'` add new roots, with vouches among themselves, each of a trust per vouch
below the reference; the vouches and the trust of the old roots stay as they are. -/
structure Extends (graph : VouchGraph) (trust : TrustMap) (minDegree referencePercentile : ℕ)
    (graph' : VouchGraph) (trust' : TrustMap) : Prop where
  nodes : graph.nodes ⊆ graph'.nodes
  roots : trust.roots ⊆ trust'.roots
  neighbors : ∀ n ∈ graph.nodes ∪ trust.roots, graph'.neighbors n = graph.neighbors n
  mass : ∀ n ∈ graph.nodes ∪ trust.roots, trust'.mass n = trust.mass n
  low : ∀ n ∈ trust'.roots, n ∉ graph.nodes ∪ trust.roots →
    per graph' minDegree n (trust'.mass n) < reference graph trust minDegree referencePercentile

section Strengths

variable {graph graph' : VouchGraph} {trust trust' : TrustMap} {d p : ℕ}

variable {n : Did} {values : List ℕ}

lemma mem_established {x : ℕ} : x ∈ established graph trust d ↔
    ∃ n ∈ trust.roots, 0 < trust.mass n ∧ max d 1 ≤ graph.degree n ∧
      per graph d n (trust.mass n) = x := by
  simp [established, and_assoc]

lemma one_le_percentile (values : List ℕ) (p : ℕ) : 1 ≤ percentile values p := by
  unfold percentile
  split
  · exact le_rfl
  · exact le_max_right _ _

lemma one_le_reference : 1 ≤ reference graph trust d p := one_le_percentile _ _

/-- The percentile is one of the values unless it is the floor of one. -/
lemma percentile_eq_one_or_mem (values : List ℕ) (p : ℕ) :
    percentile values p = 1 ∨ percentile values p ∈ values := by
  unfold percentile
  split
  · exact .inl rfl
  next hne =>
    have hpos := List.length_pos_of_ne_nil hne
    have hlt : (values.length - 1) * min p 100 / 100 < values.length := by
      have : (values.length - 1) * min p 100 ≤ (values.length - 1) * 100 :=
        Nat.mul_le_mul_left _ (min_le_right _ _)
      omega
    rw [List.getD_eq_getElem _ _ hlt]
    rcases le_total values[(values.length - 1) * min p 100 / 100] 1 with h | h
    · exact .inl (max_eq_right h)
    · rw [max_eq_left h]
      exact .inr (List.getElem_mem hlt)

/-- From the hundredth on, the percentile is the largest value. -/
lemma le_percentile_of_mem (hsorted : values.Pairwise (· ≤ ·)) (hp : 100 ≤ p)
    {x : ℕ} (hx : x ∈ values) : x ≤ percentile values p := by
  unfold percentile
  rw [if_neg (List.ne_nil_of_mem hx), min_eq_right hp, Nat.mul_div_cancel _ (by decide)]
  obtain ⟨i, hi, rfl⟩ := List.getElem_of_mem hx
  rw [List.getD_eq_getElem _ _ (by omega)]
  refine le_max_of_le_left ?_
  rcases (show i ≤ values.length - 1 by omega).eq_or_lt with heq | hlt
  · simp [heq]
  · exact List.pairwise_iff_getElem.mp hsorted i _ hi (by omega) hlt

/-- Enough zeros push every other value past any percentile short of the hundredth. -/
lemma percentile_replicate_append (hp : p < 100) {m : ℕ}
    (hm : 99 * values.length < m) : percentile (List.replicate m 0 ++ values) p = 1 := by
  have hlt : (m + values.length - 1) * min p 100 / 100 < m := by
    have : (m + values.length - 1) * min p 100 ≤ (m + values.length - 1) * 99 :=
      Nat.mul_le_mul_left _ (by omega)
    omega
  unfold percentile
  split
  · rfl
  · rw [List.length_append, List.length_replicate,
      List.getD_append _ _ _ _ (by simpa using hlt), List.getD_replicate _ hlt]
    rfl

namespace Extends

variable (h : Extends graph trust d p graph' trust') {n : Did}
include h

lemma per_eq (hn : n ∈ trust.roots) :
    per graph' d n (trust'.mass n) = per graph d n (trust.mass n) := by
  have hold := mem_union_right graph.nodes hn
  simp [per, VouchGraph.degree, h.neighbors n hold, h.mass n hold]

lemma scaled_eq (hn : n ∈ trust.roots) : scaled graph' trust' d n = scaled graph trust d n := by
  rw [scaled, scaled, h.per_eq hn]

lemma established_subset : established graph trust d ⊆ established graph' trust' d := by
  intro x hx
  obtain ⟨n, hn, hmass, hdegree, rfl⟩ := mem_established.mp hx
  have hold := mem_union_right graph.nodes hn
  refine mem_established.mpr ⟨n, h.roots hn, ?_, ?_, h.per_eq hn⟩
  · rwa [h.mass n hold]
  · rwa [VouchGraph.degree, h.neighbors n hold]

lemma reference_le (hp : 100 ≤ p) : reference graph trust d p ≤ reference graph' trust' d p := by
  rcases percentile_eq_one_or_mem ((established graph trust d).sort (· ≤ ·)) p with hr | hr
  · exact hr.trans_le one_le_reference
  · refine le_percentile_of_mem (Multiset.pairwise_sort _ _) hp ?_
    rw [Multiset.mem_sort] at hr ⊢
    exact h.established_subset hr

end Extends

/-- Newcomers that all vouch for one another. -/
def clique (graph : VouchGraph) (N : Finset Did) (hN : Disjoint graph.nodes N) : VouchGraph where
  nodes := graph.nodes ∪ N
  neighbors n := if n ∈ N then N.erase n else graph.neighbors n
  symm := by
    intro a b hb
    by_cases ha : a ∈ N
    · simp only [ha, if_true, mem_erase] at hb
      simp [hb.2, ha, Ne.symm hb.1]
    · simp only [ha, if_false] at hb
      have hbN : b ∉ N := disjoint_left.mp hN (graph.mem_nodes (graph.symm hb))
      simpa [hbN] using graph.symm hb
  mem_nodes := by
    intro a b hb
    by_cases ha : a ∈ N
    · exact mem_union_right _ ha
    · simp only [ha, if_false] at hb
      exact mem_union_left _ (graph.mem_nodes hb)

/-- Newcomers that were each reached by one unit of trust. -/
def drip (trust : TrustMap) (N : Finset Did) (hN : Disjoint trust.roots N) : TrustMap where
  roots := trust.roots.disjUnion N hN
  mass n := if n ∈ N then 1 else trust.mass n
  mass_eq_zero := by
    intro n hn
    rw [mem_disjUnion, not_or] at hn
    simp [hn.2, trust.mass_eq_zero n hn.1]

lemma mem_roots_drip {N : Finset Did} {ht : Disjoint trust.roots N} :
    n ∈ (drip trust N ht).roots ↔ n ∈ trust.roots ∨ n ∈ N := by
  simp [drip]

variable {N : Finset Did} {hg : Disjoint graph.nodes N} {ht : Disjoint trust.roots N}

lemma degree_clique (hn : n ∈ N) : (clique graph N hg).degree n = N.card - 1 := by
  simp [VouchGraph.degree, clique, hn, card_erase_of_mem]

lemma per_clique (hcard : 3 ≤ N.card) (hn : n ∈ N) : per (clique graph N hg) d n 1 = 0 := by
  rw [per, degree_clique hn]
  exact Nat.div_eq_of_lt (by omega)

lemma extends_clique (hcard : 3 ≤ N.card) :
    Extends graph trust d p (clique graph N hg) (drip trust N ht) := by
  have hold : ∀ n ∈ graph.nodes ∪ trust.roots, n ∉ N := fun n hn =>
    (mem_union.mp hn).elim (disjoint_left.mp hg ·) (disjoint_left.mp ht ·)
  refine ⟨subset_union_left, fun n hn => mem_roots_drip.mpr (.inl hn),
    fun n hn => if_neg (hold n hn), fun n hn => if_neg (hold n hn), fun n hn hnew => ?_⟩
  have hnN : n ∈ N := (mem_roots_drip.mp hn).resolve_left fun hr =>
    hnew (mem_union_right _ hr)
  have hzero : per (clique graph N hg) d n ((drip trust N ht).mass n) = 0 := by
    simp [drip, hnN, per_clique hcard]
  exact hzero ▸ one_le_reference

/-- A clique of more newcomers than `minDegree` is established, with a zero for each. -/
lemma established_clique (hcard : 3 ≤ N.card) (hd : d < N.card) :
    established (clique graph N hg) (drip trust N ht) d =
      Multiset.replicate N.card 0 + established graph trust d := by
  have hext : Extends graph trust d 0 (clique graph N hg) (drip trust N ht) :=
    extends_clique hcard
  have hnew : (N.val.filter fun n => 0 < (drip trust N ht).mass n ∧
      max d 1 ≤ (clique graph N hg).degree n) = N.val := by
    refine Multiset.filter_eq_self.mpr fun n hn => ?_
    rw [degree_clique hn]
    exact ⟨by simp [drip, mem_val.mp hn], by omega⟩
  have hzero : ∀ n ∈ N.val, per (clique graph N hg) d n ((drip trust N ht).mass n) = 0 :=
    fun n hn => by simp [drip, mem_val.mp hn, per_clique hcard (mem_val.mp hn)]
  have hold : (trust.roots.val.filter fun n => 0 < (drip trust N ht).mass n ∧
      max d 1 ≤ (clique graph N hg).degree n) =
      trust.roots.val.filter fun n => 0 < trust.mass n ∧ max d 1 ≤ graph.degree n := by
    refine Multiset.filter_congr fun n hn => ?_
    have hmem := mem_union_right graph.nodes (mem_val.mp hn)
    rw [hext.mass n hmem, VouchGraph.degree, hext.neighbors n hmem, VouchGraph.degree]
  change ((trust.roots.val + N.val).filter _).map _ = _
  rw [Multiset.filter_add, Multiset.map_add, add_comm, hnew, hold, Multiset.map_congr rfl hzero,
    Multiset.map_const']
  congr 1
  exact Multiset.map_congr rfl fun n hn => hext.per_eq (Multiset.mem_filter.mp hn).1

lemma sort_replicate_zero_add (m : ℕ) (values : Multiset ℕ) :
    (Multiset.replicate m 0 + values).sort (· ≤ ·) =
      List.replicate m 0 ++ values.sort (· ≤ ·) := by
  induction m with
  | zero => simp
  | succ m ih =>
    rw [Multiset.replicate_succ, Multiset.cons_add,
      Multiset.sort_cons _ _ _ fun b _ => Nat.zero_le b, ih]
    rfl

lemma reference_clique (hp : p < 100) (hd : d < N.card)
    (hcard : 3 + 99 * (established graph trust d).card ≤ N.card) :
    reference (clique graph N hg) (drip trust N ht) d p = 1 := by
  rw [reference, established_clique (by omega) hd, sort_replicate_zero_add]
  refine percentile_replicate_append hp ?_
  rw [Multiset.length_sort]
  omega

instance : Infinite Did :=
  Infinite.of_injective (fun n : ℕ => Did.mk (String.ofList (List.replicate n 'a'))) fun m n h => by
    simpa using congrArg String.length (congrArg Did.scid h)

variable (graph trust d) in
/-- A graph can always be flooded down to a reference of one. -/
lemma exists_extends_reference_eq_one (hp : p < 100) :
    ∃ graph' trust', Extends graph trust d p graph' trust' ∧ reference graph' trust' d p = 1 := by
  let old := graph.nodes ∪ trust.roots
  let m := d + 3 + 99 * (established graph trust d).card
  obtain ⟨all, hsub, hcard⟩ := Infinite.exists_superset_card_eq old (old.card + m) (by omega)
  have hN : (all \ old).card = m := by
    rw [card_sdiff_of_subset hsub]
    omega
  have hdisjoint : Disjoint old (all \ old) := disjoint_sdiff
  have hg : Disjoint graph.nodes (all \ old) := hdisjoint.mono_left subset_union_left
  have ht : Disjoint trust.roots (all \ old) := hdisjoint.mono_left subset_union_right
  exact ⟨clique graph _ hg, drip trust _ ht, extends_clique (by omega),
    reference_clique hp (by omega) (by omega)⟩

/-- No flood of low-trust newcomers raises the strength of an old root just when the reference is
the largest established value, or can fall no further, or every old root already has the strength
0 or 100 that a lower reference would leave it at. -/
theorem no_extension_raises_iff (graph : VouchGraph) (trust : TrustMap)
    (minDegree referencePercentile : ℕ) :
    (∀ graph' trust', Extends graph trust minDegree referencePercentile graph' trust' →
      ∀ n s s', vouchStrengths graph trust minDegree referencePercentile n = some s →
        vouchStrengths graph' trust' minDegree referencePercentile n = some s' → s' ≤ s) ↔
    100 ≤ referencePercentile ∨ reference graph trust minDegree referencePercentile = 1 ∨
      ∀ n ∈ trust.roots, scaled graph trust minDegree n = 0 ∨
        100 ≤ scaled graph trust minDegree n /
          reference graph trust minDegree referencePercentile := by
  constructor
  · intro hall
    by_contra hnot
    push Not at hnot
    obtain ⟨hp, hone, n, hn, hzero, hfull⟩ := hnot
    obtain ⟨graph', trust', hext, href⟩ := exists_extends_reference_eq_one graph trust minDegree hp
    have hle := hall graph' trust' hext n _ _ (if_pos hn) (if_pos (hext.roots hn))
    rw [href, hext.scaled_eq hn, Nat.div_one] at hle
    have hlt : scaled graph trust minDegree n /
        reference graph trust minDegree referencePercentile < scaled graph trust minDegree n :=
      Nat.div_lt_self (Nat.pos_of_ne_zero hzero) (lt_of_le_of_ne one_le_reference (Ne.symm hone))
    omega
  · intro hcond graph' trust' hext n s s' hs hs'
    have hn : n ∈ trust.roots := by
      by_contra hn
      simp [vouchStrengths, hn] at hs
    simp only [vouchStrengths, hn, hext.roots hn, if_true, Option.some.injEq] at hs hs'
    rw [hext.scaled_eq hn] at hs'
    subst hs hs'
    have hmono (hle : reference graph trust minDegree referencePercentile ≤
        reference graph' trust' minDegree referencePercentile) :=
      min_le_min_right 100 (Nat.div_le_div_left (a := scaled graph trust minDegree n) hle
        one_le_reference)
    rcases hcond with hp | hone | hdone
    · exact hmono (hext.reference_le hp)
    · exact hmono (hone.trans_le one_le_reference)
    · rcases hdone n hn with hzero | hfull
      · simp [hzero]
      · exact (min_le_right _ _).trans (le_min hfull le_rfl)

/-- Three roots that vouch for one another, the first with half the trust of the other two. -/
def sampleGraph : VouchGraph :=
  ((VouchGraph.new.addVerdict ⟨⟨"a"⟩, ⟨"b"⟩⟩).addVerdict ⟨⟨"b"⟩, ⟨"c"⟩⟩).addVerdict ⟨⟨"a"⟩, ⟨"c"⟩⟩

def sampleTrust : TrustMap where
  roots := {⟨"a"⟩, ⟨"b"⟩, ⟨"c"⟩}
  mass n := if n = ⟨"a"⟩ then 20 else if n = ⟨"b"⟩ ∨ n = ⟨"c"⟩ then 40 else 0
  mass_eq_zero := by simp +contextual

def sampleNewcomers : Finset Did := {⟨"x"⟩, ⟨"y"⟩, ⟨"z"⟩}

/-- Three newcomers that vouch for one another, with one unit of trust each, take the median from 20
to its floor. -/
theorem sample_flood_raises :
    ∃ (hg : Disjoint sampleGraph.nodes sampleNewcomers)
      (ht : Disjoint sampleTrust.roots sampleNewcomers),
      Extends sampleGraph sampleTrust 2 50 (clique sampleGraph sampleNewcomers hg)
        (drip sampleTrust sampleNewcomers ht) ∧
      vouchStrengths sampleGraph sampleTrust 2 50 ⟨"a"⟩ = some 50 ∧
      vouchStrengths (clique sampleGraph sampleNewcomers hg) (drip sampleTrust sampleNewcomers ht)
        2 50 ⟨"a"⟩ = some 100 := by
  have hold : established sampleGraph sampleTrust 2 = 10 ::ₘ 20 ::ₘ 20 ::ₘ 0 := by decide +kernel
  have hsort : (10 ::ₘ 20 ::ₘ 20 ::ₘ 0 : Multiset ℕ).sort (· ≤ ·) = [10, 20, 20] := by
    simp [Multiset.sort_cons]
  have href : reference sampleGraph sampleTrust 2 50 = 20 := by
    rw [reference, hold, hsort]
    decide
  have hscaled : scaled sampleGraph sampleTrust 2 ⟨"a"⟩ = 1000 := by decide +kernel
  have hmem : (⟨"a"⟩ : Did) ∈ sampleTrust.roots := by decide +kernel
  have hcard : sampleNewcomers.card = 3 := by decide +kernel
  have hg : Disjoint sampleGraph.nodes sampleNewcomers := by decide +kernel
  have ht : Disjoint sampleTrust.roots sampleNewcomers := by decide +kernel
  have hext : Extends sampleGraph sampleTrust 2 50 (clique sampleGraph sampleNewcomers hg)
      (drip sampleTrust sampleNewcomers ht) := extends_clique hcard.ge
  refine ⟨hg, ht, hext, ?_, ?_⟩
  · rw [vouchStrengths, if_pos hmem, href, hscaled]
    decide
  · rw [vouchStrengths, if_pos (hext.roots hmem), hext.scaled_eq hmem, hscaled, reference,
      established_clique hcard.ge (by omega), hold, hcard, sort_replicate_zero_add, hsort]
    decide

end Strengths

end Mininet.Uniqueness
