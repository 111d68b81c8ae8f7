import Mathlib

/-!
# Sharing by polynomials

Polynomials with coefficients in a module over a field, evaluated by Horner's loop, and the weights
by which the values at enough distinct points add up to the constant term. A dealer's polynomial has
its coefficients in the field; what it publishes has them in a group the field acts on.
-/

namespace Interpolation

open Polynomial Finset

variable {F M N : Type} [Field F] [AddCommGroup M] [Module F M] [AddCommGroup N] [Module F N]

/-- Horner's loop over the coefficients, the constant term first. -/
def horner (x : F) (cs : List M) : M := cs.foldr (fun c acc => x • acc + c) 0

@[simp] lemma horner_nil (x : F) : horner x ([] : List M) = 0 := rfl

@[simp] lemma horner_cons (x : F) (c : M) (cs : List M) :
    horner x (c :: cs) = x • horner x cs + c := rfl

lemma horner_map (f : M →ₗ[F] N) (x : F) (cs : List M) : horner x (cs.map f) = f (horner x cs) := by
  induction cs with
  | nil => simp
  | cons c cs ih => simp [ih]

/-- The value at a point of the polynomial of degree below `t` with the coefficients `c`. -/
def value (t : ℕ) (c : ℕ → M) (x : F) : M := ∑ k ∈ Finset.range t, x ^ k • c k

lemma horner_eq_value (x : F) (cs : List M) :
    horner x cs = value cs.length (fun k => cs.getD k 0) x := by
  induction cs with
  | nil => simp [value]
  | cons c cs ih =>
    rw [horner_cons, ih, List.length_cons, value, value, sum_range_succ', smul_sum]
    simp [pow_succ', mul_smul]

/-- Polynomials are added coefficient by coefficient. -/
lemma value_sum {ι : Type} (s : List ι) (t : ℕ) (c : ι → ℕ → M) (x : F) :
    value t (fun k => (s.map fun i => c i k).sum) x = (s.map fun i => value t (c i) x).sum := by
  induction s with
  | nil => simp [value]
  | cons i s ih =>
    have hadd : value t (fun k => c i k + (s.map fun i => c i k).sum) x =
        value t (c i) x + value t (fun k => (s.map fun i => c i k).sum) x := by
      simp [value, smul_add, sum_add_distrib]
    simp [hadd, ih]

variable [DecidableEq F] {s : Finset F}

/-- The weight of a node when a polynomial is interpolated at zero. -/
def weight (s : Finset F) (i : F) : F := ∏ j ∈ s.erase i, j * (j - i)⁻¹

lemma weight_eq_eval_basis (s : Finset F) (i : F) :
    weight s i = (Lagrange.basis s id i).eval 0 := by
  rw [Lagrange.basis, eval_prod, weight]
  refine prod_congr rfl fun j _ => ?_
  have hneg : (j - i)⁻¹ = -(i - j)⁻¹ := by rw [← neg_sub, inv_neg]
  simp [Lagrange.basisDivisor, hneg, mul_comm]

/-- The weighted powers of the nodes add up to the power of zero. -/
lemma sum_weight_mul_pow {k : ℕ} (h : k < s.card) : ∑ i ∈ s, weight s i * i ^ k = 0 ^ k := by
  have hdegree : (X ^ k : F[X]).degree < s.card := by
    rw [degree_X_pow]
    exact_mod_cast h
  have hinterpolate := Lagrange.eq_interpolate_of_eval_eq (fun i => i ^ k)
    Function.injective_id.injOn hdegree fun i _ => by simp
  have heval := congrArg (eval 0) hinterpolate
  rw [Lagrange.interpolate_apply, eval_finsetSum, eval_pow, eval_X] at heval
  rw [heval]
  refine sum_congr rfl fun i _ => ?_
  rw [weight_eq_eval_basis, eval_mul, eval_C, mul_comm]

/-- As many nodes as there are coefficients recover the constant term. -/
lemma sum_weight_smul_value {t : ℕ} (ht : 0 < t) (h : t ≤ s.card) (c : ℕ → M) :
    ∑ i ∈ s, weight s i • value t c i = c 0 := by
  calc ∑ i ∈ s, weight s i • value t c i
      = ∑ k ∈ Finset.range t, (∑ i ∈ s, weight s i * i ^ k) • c k := by
        simp only [value, smul_sum, sum_smul, smul_smul]
        exact sum_comm
    _ = ∑ k ∈ Finset.range t, (0 : F) ^ k • c k := by
        refine sum_congr rfl fun k hk => ?_
        rw [sum_weight_mul_pow ((mem_range.mp hk).trans_le h)]
    _ = c 0 := by
        rw [sum_eq_single_of_mem 0 (mem_range.mpr ht)
          fun k _ hk => by rw [zero_pow hk, zero_smul], pow_zero, one_smul]

end Interpolation
