import Mininet.Lib.Fallible

/-!
# Computing in place

A call reads and writes a state in place and may fail. What it had written when it failed stays
written, so that a failed call leaves the state alone is something to prove.
-/

namespace Stateful

open Fallible

variable {σ ε α β : Type}

/-- A computation on a state, which may fail. -/
abbrev InPlace (σ ε α : Type) := ExceptT ε (StateM σ) α

/-- The outcome of a call on a state, and the state it leaves. -/
def InPlace.on (x : InPlace σ ε α) (s : σ) : Except ε α × σ := x.run s

/-- A check that reads nothing but its arguments. -/
def check (x : Except ε α) : InPlace σ ε α := ExceptT.mk (pure x)

variable {f : α → InPlace σ ε β} {s s' : σ} {r : Except ε β} {x : InPlace σ ε α}

@[simp] lemma on_pure (a : α) (s : σ) : (pure a : InPlace σ ε α).on s = (.ok a, s) := rfl

@[simp] lemma on_throw (e : ε) (s : σ) : (throw e : InPlace σ ε α).on s = (.error e, s) := rfl

@[simp] lemma on_check (x : Except ε α) (s : σ) : (check x : InPlace σ ε α).on s = (x, s) := rfl

@[simp] lemma on_get_bind (f : σ → InPlace σ ε β) (s : σ) :
    (get >>= f : InPlace σ ε β).on s = (f s).on s := rfl

@[simp] lemma on_set_bind (t : σ) (f : PUnit → InPlace σ ε β) (s : σ) :
    (set t >>= f : InPlace σ ε β).on s = (f ⟨⟩).on t := rfl

@[simp] lemma on_modify_bind (t : σ → σ) (f : PUnit → InPlace σ ε β) (s : σ) :
    (modify t >>= f : InPlace σ ε β).on s = (f ⟨⟩).on (t s) := rfl

lemma on_bind (x : InPlace σ ε α) (f : α → InPlace σ ε β) (s : σ) :
    (x >>= f).on s = match x.on s with
      | (.ok a, s')    => (f a).on s'
      | (.error e, s') => (.error e, s') := by
  change StateT.bind x (ExceptT.bindCont f) s = _
  unfold StateT.bind InPlace.on ExceptT.run
  rcases x s with ⟨_ | a, mid⟩ <;> rfl

/-- A step that fails ends the call on the state it leaves. -/
lemma on_bind_eq : (x >>= f).on s = (r, s') ↔
      (∃ e, x.on s = (.error e, s') ∧ r = .error e) ∨
        ∃ a mid, x.on s = (.ok a, mid) ∧ (f a).on mid = (r, s') := by
  rw [on_bind]
  rcases x.on s with ⟨_ | a, mid⟩ <;> simp [eq_comm, and_comm]

/-- A check that fails ends the call on the state it was made on. -/
lemma on_check_bind {x : Except ε α} : (check x >>= f : InPlace σ ε β).on s = (r, s') ↔
      (∃ e, x = .error e ∧ r = .error e ∧ s' = s) ∨ ∃ a, x = .ok a ∧ (f a).on s = (r, s') := by
  rw [on_bind, on_check]
  cases x <;> simp [eq_comm]

lemma on_check_bind_ok {x : Except ε α} {b : β} :
    (check x >>= f : InPlace σ ε β).on s = (.ok b, s') ↔
      ∃ a, x = .ok a ∧ (f a).on s = (.ok b, s') := by
  rw [on_bind, on_check]
  cases x <;> simp

lemma on_map_eq {f : α → β} :
    (f <$> x).on s = (r, s') ↔ ∃ r', x.on s = (r', s') ∧ r = r'.map f := by
  rw [map_eq_pure_bind, on_bind]
  rcases x.on s with ⟨_ | a, mid⟩ <;> simp [Except.map, eq_comm, and_comm]

lemma snd_on_map (f : α → β) (x : InPlace σ ε α) (s : σ) : ((f <$> x).on s).2 = (x.on s).2 :=
  congrArg Prod.snd (on_map_eq.mpr ⟨_, rfl, rfl⟩)

/-! ### Part of a state -/

/-- A computation on a part of a state. -/
def zoom {τ ε' : Type} (part : σ → τ) (replace : τ → σ → σ) (f : ε → ε') (x : InPlace τ ε α) :
    InPlace σ ε' α :=
  ExceptT.mk fun s => ((x.on (part s)).1.mapError f, replace (x.on (part s)).2 s)

/-! ### Loops -/

/-- What every turn of a loop keeps, the loop keeps, also when a turn ends it. -/
lemma on_foldlM_invariant {P : σ → Prop} {Q : β → Prop} {f : β → α → InPlace σ ε β} {as : List α}
    (hstep : ∀ b, ∀ a ∈ as, ∀ s, Q b → P s → P ((f b a).on s).2 ∧ ∀ b', ((f b a).on s).1 = .ok b' → Q b')
    {b : β} (hb : Q b) (hs : P s) :
    P ((as.foldlM f b).on s).2 ∧ ∀ b', ((as.foldlM f b).on s).1 = .ok b' → Q b' := by
  induction as generalizing b s with
  | nil =>
    refine ⟨hs, fun b' hb' => ?_⟩
    cases hb'
    exact hb
  | cons a as ih =>
    obtain ⟨hnext, hvalue⟩ := hstep b a List.mem_cons_self s hb hs
    rw [List.foldlM_cons, on_bind]
    rcases hon : (f b a).on s with ⟨_ | b', s'⟩
    · rw [hon] at hnext
      exact ⟨hnext, fun b' hb' => nomatch hb'⟩
    · rw [hon] at hnext hvalue
      exact ih (fun c x hx => hstep c x (List.mem_cons_of_mem _ hx)) (hvalue b' rfl) hnext

end Stateful
