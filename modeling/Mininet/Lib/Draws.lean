import Mininet.Lib.Fallible

/-!
# Drawing from a source of randomness

A computation that draws values from a source which may run out. The draws are given as a list, so
what is proved of every list holds whatever the source yields.
-/

namespace Draws

open Fallible

variable {δ ε α β : Type}

/-- A computation that draws values and may fail. -/
abbrev Drawing (δ ε α : Type) := StateT (List δ) (Except ε) α

/-- One draw; `e` when the source yields nothing. -/
def draw (e : ε) : Drawing δ ε δ
  | []        => .error e
  | d :: rest => .ok (d, rest)

/-- A loop of `n` draws. -/
def drawMany (e : ε) : ℕ → Drawing δ ε (List δ)
  | 0     => pure []
  | n + 1 => do
    let d ← draw e
    let ds ← drawMany e n
    pure (d :: ds)

/-- A check that draws nothing. -/
def check (x : Except ε α) : Drawing δ ε α := fun s => x.map fun a => (a, s)

variable {s t : List δ} {f : α → Drawing δ ε β}

@[simp] lemma pure_ok {a b : α} : (pure a : Drawing δ ε α) s = .ok (b, t) ↔ a = b ∧ s = t := by
  change Except.ok (a, s) = .ok (b, t) ↔ _
  rw [Except.ok.injEq, Prod.mk.injEq]

lemma bind_ok {x : Drawing δ ε α} {b : β} :
    (x >>= f) s = .ok (b, t) ↔ ∃ a mid, x s = .ok (a, mid) ∧ f a mid = .ok (b, t) := by
  change (x s >>= fun r => f r.1 r.2) = _ ↔ _
  rw [Fallible.bind_ok]
  exact ⟨fun ⟨r, hr, hf⟩ => ⟨r.1, r.2, hr, hf⟩, fun ⟨a, mid, hx, hf⟩ => ⟨(a, mid), hx, hf⟩⟩

lemma check_bind_ok {x : Except ε α} {b : β} :
    (check x >>= f) s = .ok (b, t) ↔ ∃ a, x = .ok a ∧ f a s = .ok (b, t) := by
  rw [bind_ok]
  cases x <;> simp [check, Except.map]

lemma draw_ok {e : ε} {d : δ} : draw e s = .ok (d, t) ↔ s = d :: t := by
  cases s <;> simp [draw]

/-- The draws are taken from the front, in order. -/
lemma drawMany_ok {e : ε} {n : ℕ} {ds : List δ} :
    drawMany e n s = .ok (ds, t) ↔ ds.length = n ∧ s = ds ++ t := by
  induction n generalizing s t ds with
  | zero =>
    rw [drawMany, pure_ok, List.length_eq_zero_iff]
    constructor
    · rintro ⟨rfl, rfl⟩
      exact ⟨rfl, rfl⟩
    · rintro ⟨rfl, rfl⟩
      exact ⟨rfl, rfl⟩
  | succ n ih =>
    simp only [drawMany, bind_ok, draw_ok, pure_ok, ih]
    constructor
    · rintro ⟨d, mid, rfl, ds', mid', ⟨rfl, rfl⟩, rfl, rfl⟩
      exact ⟨rfl, rfl⟩
    · rintro ⟨hlength, rfl⟩
      obtain ⟨d, ds', rfl⟩ := List.exists_cons_of_length_eq_add_one hlength
      exact ⟨d, ds' ++ t, rfl, ds', t, ⟨Nat.succ.inj hlength, rfl⟩, rfl, rfl⟩

end Draws
