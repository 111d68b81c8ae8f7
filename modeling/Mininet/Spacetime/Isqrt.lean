import Mathlib.Tactic.Linarith

/-!
# The integer square root

`isqrt` is Newton's iteration, in 128-bit arithmetic. An iterate is never below the root, and it is
the root when the next one is not smaller.
-/

namespace Mininet.Spacetime

/-- The loop of `isqrt`. A division by zero and a sum of more than 128 bits have no value. -/
def newton (n x y : ℕ) : Option ℕ :=
  if y < x then
    if y = 0 ∨ 2 ^ 128 ≤ y + n / y then none else newton n y ((y + n / y) / 2)
  else some x
termination_by x

def isqrt (n : UInt64) : Option UInt64 :=
  if n = 0 then some 0
  else (newton n.toNat n.toNat ((n.toNat + 1) / 2)).map UInt64.ofNat

/-- The next iterate is not below the root, wherever the last one was. -/
lemma lt_sq_of_newton {n x : ℕ} (hx : 0 < x) :
    n < ((x + n / x) / 2 + 1) * ((x + n / x) / 2 + 1) := by
  have hn : n < x * (n / x + 1) := Nat.lt_mul_div_succ n hx
  set q := n / x
  have hy : x + q + 1 ≤ 2 * ((x + q) / 2 + 1) := by omega
  -- the arithmetic and the geometric mean of `x` and `q + 1`
  have hmean := four_mul_le_sq_add x (q + 1)
  have := Nat.mul_le_mul hy hy
  nlinarith

lemma newton_some {n x : ℕ} (hx : 0 < x) (hxn : x ≤ n) (hn : n < 2 ^ 64)
    (hroot : n < (x + 1) * (x + 1)) :
    ∃ r, newton n x ((x + n / x) / 2) = some r ∧ r ≤ n ∧ r * r ≤ n ∧ n < (r + 1) * (r + 1) := by
  induction x using Nat.strong_induction_on with
  | _ x ih =>
    rw [newton]
    have hpos : 0 < n / x := Nat.div_pos hxn hx
    have hdiv : n / ((x + n / x) / 2) ≤ n := Nat.div_le_self _ _
    split
    next hlt =>
      rw [if_neg (by omega)]
      exact ih _ hlt (by omega) (by omega) (lt_sq_of_newton hx)
    next hle =>
      have hsq : x * x ≤ n := (Nat.le_div_iff_mul_le hx).mp (by omega)
      exact ⟨x, rfl, hxn, hsq, hroot⟩

theorem isqrt_eq_floor_sqrt (n : UInt64) :
    ∃ r, isqrt n = some r ∧ r.toNat * r.toNat ≤ n.toNat ∧
      n.toNat < (r.toNat + 1) * (r.toNat + 1) := by
  rw [isqrt]
  split
  next hzero => exact ⟨0, rfl, by simp [hzero]⟩
  next hne =>
    have hpos : 0 < n.toNat := Nat.pos_of_ne_zero fun h => hne (UInt64.toNat_inj.mp h)
    -- the first iterate is the mean of `n` and `n / n`
    have hfirst : (n.toNat + 1) / 2 = (n.toNat + n.toNat / n.toNat) / 2 := by
      rw [Nat.div_self hpos]
    obtain ⟨r, hr, hle, hsq, hlt⟩ := newton_some hpos le_rfl n.toNat_lt (by nlinarith)
    have htoNat : (UInt64.ofNat r).toNat = r :=
      UInt64.toNat_ofNat_of_lt (hle.trans_lt n.toNat_lt)
    rw [hfirst, hr]
    exact ⟨_, rfl, by rwa [htoNat], by rwa [htoNat]⟩

end Mininet.Spacetime
