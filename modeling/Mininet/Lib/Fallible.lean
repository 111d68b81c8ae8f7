import Mathlib

/-!
# Fallible computations

Checks and early returns as steps of `Except`, each with the lemma that inverts it. A computation
written with them is a chain of binds, and `bind_ok` takes the chain apart one step at a time.
-/

namespace Fallible

open List

variable {ε α β : Type}

/-- Fail with `e` when `c` holds. -/
def failIf (c : Prop) [Decidable c] (e : ε) : Except ε Unit := if c then .error e else .ok ()

/-- The value, or failure with `e`. -/
def okOr (x : Option α) (e : ε) : Except ε α :=
  match x with
  | some a => .ok a
  | none   => .error e

variable {x : Except ε α} {f : α → Except ε β} {b : β} {a : α} {c : Prop} {e e' : ε} {σ : Type}
  {xs : List α} {ys : List β} {check : α → Except ε Unit} {repeated : ε} {δ : Type}

lemma bind_ok : (x >>= f) = .ok b ↔ ∃ a, x = .ok a ∧ f a = .ok b := by
  cases x <;> simp [bind, Except.bind]

lemma ok_bind : (Except.ok a >>= f) = f a := rfl

@[simp] lemma pure_ok {b : α} : (pure a : Except ε α) = .ok b ↔ a = b := by
  simp [pure, Except.pure]

@[simp] lemma failIf_ok [Decidable c] {u : Unit} : failIf c e = .ok u ↔ ¬ c := by
  unfold failIf
  split_ifs with h <;> simp [h]

@[simp] lemma okOr_ok {x : Option α} : okOr x e = .ok a ↔ x = some a := by
  cases x <;> simp [okOr]

@[simp] lemma mapError_ok {f : ε → δ} : x.mapError f = .ok a ↔ x = .ok a := by
  cases x <;> simp [Except.mapError]

lemma map_ok {f : α → β} : x.map f = .ok b ↔ ∃ a, x = .ok a ∧ f a = b := by
  cases x <;> simp [Except.map]

lemma isOk_iff {x : Except ε Unit} : x.isOk = true ↔ x = .ok () := by
  cases x <;> simp [Except.isOk, Except.toBool]

lemma isOk_iff_exists : x.isOk = true ↔ ∃ a, x = .ok a := by
  cases x <;> simp [Except.isOk, Except.toBool]

lemma toOption_some : x.toOption = some a ↔ x = .ok a := by
  cases x <;> simp [Except.toOption]

/-- A computation that fails is one that does not succeed. -/
lemma exists_error_iff : (∃ e, x = .error e) ↔ ¬ ∃ a, x = .ok a := by
  cases x <;> simp

/-- A check as the first step of a chain. -/
lemma failIf_bind_ok [Decidable c] {f : Unit → Except ε β} :
    (failIf c e >>= f) = .ok b ↔ ¬ c ∧ f () = .ok b := by
  simp only [bind_ok, failIf_ok]
  exact ⟨fun ⟨_, h⟩ => h, fun h => ⟨(), h⟩⟩

/-- Evaluating a computation: it succeeds, and its value passes a test. -/
lemma exists_of_any (P : α → Bool) (h : x.toOption.any P = true) : ∃ a, x = .ok a ∧ P a := by
  cases x with
  | error e => simp [Except.toOption] at h
  | ok a => exact ⟨a, rfl, by simpa [Except.toOption] using h⟩

/-! ### Checked 64-bit arithmetic -/

def checkedAdd64 (a b : UInt64) : Option UInt64 :=
  if a.toNat + b.toNat < 2 ^ 64 then some (a + b) else none

lemma checkedAdd64_some {a b c : UInt64} :
    checkedAdd64 a b = some c ↔ a.toNat + b.toNat = c.toNat := by
  have hc := c.toNat_lt
  unfold checkedAdd64
  split_ifs with h
  · rw [Option.some.injEq, ← UInt64.toNat_inj, UInt64.toNat_add, Nat.mod_eq_of_lt h]
  · simp only [false_iff]
    omega

/-! ### Failure -/

lemma bind_error : (x >>= f) = .error e ↔ x = .error e ∨ ∃ a, x = .ok a ∧ f a = .error e := by
  cases x <;> simp [bind, Except.bind]

@[simp] lemma pure_ne_error : (pure a : Except ε α) = .error e ↔ False := by
  simp [pure, Except.pure]

lemma failIf_error [Decidable c] : (failIf c e : Except ε Unit) = .error e' ↔ c ∧ e = e' := by
  unfold failIf
  split_ifs with h <;> simp [h]

lemma bind_ne_error (hx : x ≠ .error e) (hf : ∀ a, x = .ok a → f a ≠ .error e) :
    (x >>= f) ≠ .error e := by
  rw [Ne, bind_error]
  rintro (h | ⟨a, ha, h⟩)
  · exact hx h
  · exact hf a ha h

lemma failIf_ne_error [Decidable c] (h : e ≠ e') :
    failIf c e ≠ .error e' := fun hfail => h (failIf_error.mp hfail).2

@[simp] lemma okOr_error {x : Option α} : okOr x e = .error e' ↔ x = none ∧ e = e' := by
  cases x <;> simp [okOr]

lemma map_error {f : α → β} : x.map f = .error e ↔ x = .error e := by
  cases x <;> simp [Except.map]

lemma map_ne_error {f : α → β} : f <$> x ≠ .error e ↔ x ≠ .error e := by
  cases x <;> simp

lemma mapError_error {f : ε → δ} {d : δ} :
    x.mapError f = .error d ↔ ∃ e, x = .error e ∧ f e = d := by
  cases x <;> simp [Except.mapError]

section

variable {f g : σ → α → Except ε σ} {P : σ → Prop} {s t : σ}

/-- An error of a chain of steps over a list is an error of one of the steps. -/
lemma exists_of_foldlM_error (h : xs.foldlM f s = .error e) : ∃ t, ∃ x ∈ xs, f t x = .error e := by
  induction xs generalizing s with
  | nil => simp at h
  | cons x xs ih =>
    rw [foldlM_cons] at h
    rcases bind_error.mp h with h | ⟨t, -, h⟩
    · exact ⟨s, x, by simp, h⟩
    · obtain ⟨t, y, hy, h⟩ := ih h
      exact ⟨t, y, by simp [hy], h⟩

/-- A chain of checks succeeds when every check does. -/
lemma forM_ok {f : α → Except ε Unit} : xs.forM f = .ok () ↔ ∀ x ∈ xs, f x = .ok () := by
  induction xs with
  | nil => simp [List.forM, pure, Except.pure]
  | cons x xs ih =>
    change (f x >>= fun _ => xs.forM f) = _ ↔ _
    rw [bind_ok, forall_mem_cons, ← ih]
    exact ⟨fun ⟨⟨⟩, hx, hxs⟩ => ⟨hx, hxs⟩, fun ⟨hx, hxs⟩ => ⟨(), hx, hxs⟩⟩

lemma exists_of_foldlM_ok {s' : σ} {x : α}
    (h : xs.foldlM f s = .ok s') (hx : x ∈ xs) : ∃ t t', f t x = .ok t' := by
  induction xs generalizing s with
  | nil => simp at hx
  | cons y ys ih =>
    rw [foldlM_cons] at h
    obtain ⟨mid, hmid, hrest⟩ := bind_ok.mp h
    rcases mem_cons.mp hx with rfl | hx
    · exact ⟨s, mid, hmid⟩
    · exact ih hrest hx

/-- A chain depends on its steps only at the elements of its list. -/
lemma foldlM_congr (h : ∀ x ∈ xs, ∀ t, f t x = g t x) : xs.foldlM f s = xs.foldlM g s := by
  induction xs generalizing s with
  | nil => rfl
  | cons x xs ih =>
    rw [foldlM_cons, foldlM_cons, h x (by simp) s]
    congr 1
    funext t
    exact ih fun y hy => h y (by simp [hy])

/-- What every step keeps, the chain keeps. -/
lemma foldlM_invariant (hstep : ∀ s, ∀ x ∈ xs, ∀ t, P s → f s x = .ok t → P t) (hs : P s)
    (h : xs.foldlM f s = .ok t) : P t := by
  induction xs generalizing s with
  | nil =>
    cases h
    exact hs
  | cons x xs ih =>
    rw [foldlM_cons] at h
    obtain ⟨mid, hmid, hrest⟩ := bind_ok.mp h
    exact ih (fun s y hy => hstep s y (by simp [hy])) (hstep s x (by simp) mid hs hmid) hrest

/-- Where every step succeeds and keeps the invariant, so does the chain. -/
lemma exists_foldlM_ok (hstep : ∀ s, ∀ x ∈ xs, P s → ∃ t, f s x = .ok t ∧ P t) (hs : P s) :
    ∃ t, xs.foldlM f s = .ok t := by
  induction xs generalizing s with
  | nil => exact ⟨s, rfl⟩
  | cons x xs ih =>
    obtain ⟨mid, hmid, hP⟩ := hstep s x (by simp) hs
    obtain ⟨t, ht⟩ := ih (fun s y hy => hstep s y (by simp [hy])) hP
    exact ⟨t, by rw [foldlM_cons, hmid]; exact ht⟩

/-- What a step brings about for its element and every step keeps, the chain brings about for all
elements of its list. -/
lemma forall_of_foldlM {Q : α → σ → Prop}
    (hstep : ∀ s, ∀ x ∈ xs, ∀ t, P s → f s x = .ok t → P t ∧ Q x t ∧ ∀ y, Q y s → Q y t)
    (hs : P s) (h : xs.foldlM f s = .ok t) : ∀ x ∈ xs, Q x t := by
  induction xs generalizing s with
  | nil => simp
  | cons x xs ih =>
    rw [foldlM_cons] at h
    obtain ⟨mid, hmid, hrest⟩ := bind_ok.mp h
    obtain ⟨hP, hQ, -⟩ := hstep s x (by simp) mid hs hmid
    have hlater : ∀ s, ∀ y ∈ xs, ∀ t, P s → f s y = .ok t → P t ∧ Q y t ∧ ∀ z, Q z s → Q z t :=
      fun s y hy => hstep s y (by simp [hy])
    intro y hy
    rcases mem_cons.mp hy with rfl | hy
    · -- the steps after its own keep what it brought about
      have hkept := foldlM_invariant (P := fun s => P s ∧ Q y s) (fun s z hz t ⟨hs, hQs⟩ hzt =>
        have hz := hlater s z hz t hs hzt
        ⟨hz.1, hz.2.2 y hQs⟩) ⟨hP, hQ⟩ hrest
      exact hkept.2
    · exact ih hlater hP hrest y hy

/-- Steps that succeed in more cases make a chain that does. -/
lemma foldlM_mono (h : ∀ s, ∀ x ∈ xs, ∀ t, f s x = .ok t → g s x = .ok t)
    (hf : xs.foldlM f s = .ok t) : xs.foldlM g s = .ok t := by
  induction xs generalizing s with
  | nil => exact hf
  | cons x xs ih =>
    rw [foldlM_cons] at hf ⊢
    obtain ⟨mid, hmid, hrest⟩ := bind_ok.mp hf
    exact bind_ok.mpr ⟨mid, h s x mem_cons_self mid hmid,
      ih (fun s y hy => h s y (mem_cons_of_mem _ hy)) hrest⟩

/-- A chain of steps that change nothing changes nothing. -/
lemma foldlM_eq_self (h : ∀ x ∈ xs, f s x = .ok s) : xs.foldlM f s = .ok s := by
  induction xs with
  | nil => rfl
  | cons x xs ih =>
    rw [foldlM_cons, h x (by simp)]
    exact ih fun y hy => h y (by simp [hy])

end

/-- A loop that adds up what its elements give, which may fail. -/
lemma foldlM_add_ok {M : Type} [AddCommMonoid M] {f : α → Except ε M} {g : α → M}
    (hg : ∀ x ∈ xs, ∀ a, f x = .ok a → a = g x) {acc total : M} :
    xs.foldlM (fun acc x => do let a ← f x; pure (acc + a)) acc = .ok total ↔
      (∀ x ∈ xs, f x = .ok (g x)) ∧ total = acc + (xs.map g).sum := by
  induction xs generalizing acc with
  | nil =>
    rw [foldlM_nil, pure_ok, map_nil, sum_nil, add_zero]
    exact ⟨fun h => ⟨by simp, h.symm⟩, fun h => h.2.symm⟩
  | cons x xs ih =>
    obtain ⟨hx, hxs⟩ := forall_mem_cons.mp hg
    rw [foldlM_cons, forall_mem_cons, map_cons, sum_cons, ← add_assoc]
    cases hfx : f x with
    | error e => simp [bind, Except.bind]
    | ok a =>
      obtain rfl := hx a hfx
      change xs.foldlM _ (acc + g x) = _ ↔ _
      rw [ih hxs]
      simp

/-! ### Loops that look for repetitions -/

/-- Check every element, and that it is not one of those seen before it. -/
def checkDistinct [DecidableEq α] (check : α → Except ε Unit) (repeated : ε) (seen : List α) :
    List α → Except ε Unit
  | []      => .ok ()
  | x :: xs => do
    check x
    failIf (x ∈ seen) repeated
    checkDistinct check repeated (seen ++ [x]) xs

lemma checkDistinct_ok_aux [DecidableEq α]
    {seen : List α} : checkDistinct check repeated seen xs = .ok () ↔
      (∀ x ∈ xs, check x = .ok ()) ∧ (∀ x ∈ xs, x ∉ seen) ∧ xs.Nodup := by
  induction xs generalizing seen with
  | nil => simp [checkDistinct]
  | cons x xs ih =>
    rw [checkDistinct, bind_ok]
    simp only [failIf_bind_ok, ih, mem_append, mem_singleton, forall_mem_cons, nodup_cons]
    constructor
    · rintro ⟨⟨⟩, hx, hnew, hchecks, hseen, hnodup⟩
      exact ⟨⟨hx, hchecks⟩, ⟨hnew, fun y hy hys => hseen y hy (.inl hys)⟩,
        fun hmem => hseen x hmem (.inr rfl), hnodup⟩
    · rintro ⟨⟨hx, hchecks⟩, ⟨hnew, hseen⟩, hmem, hnodup⟩
      refine ⟨(), hx, hnew, hchecks, fun y hy hys => ?_, hnodup⟩
      rcases hys with hys | rfl
      · exact hseen y hy hys
      · exact hmem hy

lemma checkDistinct_ok [DecidableEq α] :
    checkDistinct check repeated [] xs = .ok () ↔
      (∀ x ∈ xs, check x = .ok ()) ∧ xs.Nodup := by
  simp [checkDistinct_ok_aux]

/-! ### Lists, element by element -/

/-- Comparing two lists element by element, through a function on the first. -/
lemma zip_all_eq_iff [DecidableEq β] {f : α → β} :
    (xs.length = ys.length ∧ (xs.zip ys).all (fun (x, y) => decide (f x = y)) = true) ↔
      xs.map f = ys := by
  induction xs generalizing ys with
  | nil =>
    cases ys with
    | nil => simp
    | cons y ys => simp
  | cons x xs ih =>
    cases ys with
    | nil => simp
    | cons y ys =>
      simp only [length_cons, Nat.add_right_cancel_iff, zip_cons_cons, all_cons,
        Bool.and_eq_true, decide_eq_true_eq, map_cons, List.cons.injEq, ← ih]
      tauto

lemma mapM_some_iff {f : α → Option β} :
    xs.mapM f = some ys ↔ List.Forall₂ (fun x y => f x = some y) xs ys := by
  induction xs generalizing ys with
  | nil =>
    rw [mapM_nil, forall₂_nil_left_iff]
    exact ⟨fun h => (Option.some.inj h).symm, fun h => congrArg some h.symm⟩
  | cons x xs ih =>
    rw [mapM_cons, forall₂_cons_left_iff]
    constructor
    · intro h
      obtain ⟨y, hy, h⟩ := Option.bind_eq_some_iff.mp h
      obtain ⟨ys', hys, h⟩ := Option.bind_eq_some_iff.mp h
      exact ⟨y, ys', hy, ih.mp hys, (Option.some.inj h).symm⟩
    · rintro ⟨y, ys', hy, hys, rfl⟩
      exact Option.bind_eq_some_iff.mpr ⟨y, hy, Option.bind_eq_some_iff.mpr
        ⟨ys', ih.mpr hys, rfl⟩⟩

lemma exists_mapM_some {f : α → Option β} (h : ∀ x ∈ xs, ∃ y, f x = some y) :
    ∃ ys, xs.mapM f = some ys := by
  induction xs with
  | nil => exact ⟨[], rfl⟩
  | cons x xs ih =>
    obtain ⟨y, hy⟩ := h x mem_cons_self
    obtain ⟨ys, hys⟩ := ih fun z hz => h z (mem_cons_of_mem x hz)
    exact ⟨y :: ys, mapM_some_iff.mpr (.cons hy (mapM_some_iff.mp hys))⟩

/-- What a map that may fail collects comes from the elements of its list. -/
lemma exists_of_mapM_ok (h : xs.mapM f = .ok ys) {y : β} (hy : y ∈ ys) : ∃ x ∈ xs, f x = .ok y := by
  induction xs generalizing ys with
  | nil =>
    cases h
    cases hy
  | cons x xs ih =>
    rw [mapM_cons] at h
    obtain ⟨z, hz, hrest⟩ := bind_ok.mp h
    obtain ⟨zs, hzs, hall⟩ := bind_ok.mp hrest
    cases hall
    rcases mem_cons.mp hy with rfl | hy
    · exact ⟨x, by simp, hz⟩
    · obtain ⟨x', hx', hfx⟩ := ih hzs hy
      exact ⟨x', by simp [hx'], hfx⟩

/-- A map that fails on no element of a list. -/
lemma mapM_ok {g : α → β} (h : ∀ x ∈ xs, f x = .ok (g x)) : xs.mapM f = .ok (xs.map g) := by
  induction xs with
  | nil => rfl
  | cons x xs ih =>
    obtain ⟨hx, hxs⟩ := forall_mem_cons.mp h
    rw [mapM_cons, hx, bind_ok]
    exact ⟨g x, rfl, bind_ok.mpr ⟨xs.map g, ih hxs, rfl⟩⟩

/-! ### Lists in pieces -/

/-- The pieces of a list, as long as `fuel` allows. -/
def chunksOf (n : ℕ) : ℕ → List α → List (List α)
  | 0, _         => []
  | fuel + 1, xs => if xs.isEmpty then [] else xs.take n :: chunksOf n fuel (xs.drop n)

/-- A list in consecutive pieces of `n` elements, the last one perhaps shorter. -/
def chunks (n : ℕ) (xs : List α) : List (List α) := chunksOf n xs.length xs

lemma flatten_chunksOf {n fuel : ℕ} (hn : 0 < n) (hfuel : xs.length ≤ fuel) :
    (chunksOf n fuel xs).flatten = xs := by
  induction fuel generalizing xs with
  | zero =>
    obtain rfl : xs = [] := length_eq_zero_iff.mp (Nat.le_zero.mp hfuel)
    rfl
  | succ fuel ih =>
    rw [chunksOf]
    split_ifs with hempty
    · exact (isEmpty_iff.mp hempty).symm
    · have hpos : 0 < xs.length := length_pos_iff.mpr (mt isEmpty_iff.mpr hempty)
      rw [flatten_cons, ih (by rw [length_drop]; omega), take_append_drop]

/-- The pieces make up the list. -/
lemma flatten_chunks {n : ℕ} (hn : 0 < n) (xs : List α) : (chunks n xs).flatten = xs :=
  flatten_chunksOf hn le_rfl

end Fallible
