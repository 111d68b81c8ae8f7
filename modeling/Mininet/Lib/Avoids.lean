import Mininet.Lib.Reader

/-!
# Errors that cannot occur

A computation avoids an error when none of its steps raises it.
-/

namespace Fallible

variable {ε α β : Type}

/-- A computation does not end with an error. -/
def Avoids (e : ε) (x : Except ε α) : Prop := x ≠ .error e

variable {e e' : ε} {x : Except ε α}

lemma avoids_ok (e : ε) (a : α) : Avoids e (.ok a) := nofun

lemma avoids_error (h : e' ≠ e) : Avoids e (.error e' : Except ε α) :=
  fun heq => h (Except.error.inj heq)

lemma Avoids.bind {f : α → Except ε β} (hx : Avoids e x)
    (hf : ∀ a, x = .ok a → Avoids e (f a)) : Avoids e (x >>= f) := by
  intro h
  rcases bind_error.mp h with h | ⟨a, ha, h⟩
  · exact hx h
  · exact hf a ha h

lemma avoids_failIf {c : Prop} [Decidable c] (h : e' ≠ e) : Avoids e (failIf c e') :=
  fun heq => h (failIf_error.mp heq).2

lemma avoids_okOr {x : Option α} (h : e' ≠ e) : Avoids e (okOr x e') :=
  fun heq => h (okOr_error.mp heq).2

lemma avoids_mapError {δ : Type} {f : ε → δ} {d : δ} (h : ∀ e, f e ≠ d) :
    Avoids d (x.mapError f) := by
  intro heq
  obtain ⟨e, -, he⟩ := mapError_error.mp heq
  exact h e he

lemma avoids_foldlM {σ : Type} {f : σ → α → Except ε σ} (h : ∀ s a, Avoids e (f s a)) (xs : List α)
    (s : σ) : Avoids e (xs.foldlM f s) := by
  intro heq
  obtain ⟨t, x, -, hx⟩ := exists_of_foldlM_error heq
  exact h t x hx

end Fallible

namespace Codec

open Fallible

variable {ε α β : Type}

/-- No run of a reader ends with an error. -/
def Avoids (e : ε) (p : Reader ε α) : Prop := ∀ bs, Fallible.Avoids e (p.run bs)

variable {e e' : ε} {p : Reader ε α} {n : ℕ}

lemma Avoids.bind {f : α → Reader ε β} (hp : Avoids e p) (hf : ∀ a, Avoids e (f a)) :
    Avoids e (p >>= f) :=
  fun bs => (hp bs).bind fun r _ => hf r.1 r.2

lemma avoids_pure (e : ε) (a : α) : Avoids e (pure a : Reader ε α) := fun _ => nofun

lemma avoids_lift {x : Except ε α} (h : Fallible.Avoids e x) : Avoids e (lift x) :=
  fun _ heq => h (map_error.mp heq)

lemma avoids_take (h : e' ≠ e) (n : ℕ) : Avoids e (take e' n) := by
  intro bs heq
  change (if n ≤ bs.length then _ else _) = _ at heq
  split_ifs at heq
  exact h (Except.error.inj heq)

lemma avoids_word (h : e' ≠ e) (α : Type) [FixedWidth α n] : Avoids e (word e' α) :=
  fun bs => ((avoids_take h n) bs).bind fun _ _ => nofun

lemma avoids_readCount {big : ε} (h : e' ≠ e) (hbig : big ≠ e) (α : Type) [FixedWidth α n] (max : ℕ) :
    Avoids e (readCount e' big α max) := by
  refine (avoids_word h α).bind fun count => ?_
  split_ifs
  · exact fun _ heq => hbig (Except.error.inj heq)
  · exact avoids_pure e _

lemma avoids_readFramed {big : ε} (h : e' ≠ e) (hbig : big ≠ e) (α : Type) [FixedWidth α n]
    (max : ℕ) : Avoids e (readFramed e' big α max) :=
  (avoids_readCount h hbig α max).bind fun len => avoids_take h len

lemma avoids_readMany (hp : Avoids e p) (n : ℕ) : Avoids e (readMany p n) := by
  induction n with
  | zero => exact avoids_pure e []
  | succ n ih => exact hp.bind fun x => ih.bind fun xs => avoids_pure e (x :: xs)

lemma Avoids.whole (hp : Avoids e p) (h : e' ≠ e) (bs : List UInt8) :
    Fallible.Avoids e (whole p e' bs) :=
  (hp bs).bind fun _ _ => (avoids_failIf h).bind fun _ _ => nofun

end Codec
