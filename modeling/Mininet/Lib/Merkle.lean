import Mininet.Lib.Fallible

/-!
# Merkle trees with promoted nodes

A level is paired up into the next one, and a node without a neighbour is promoted unchanged, so
leaves lie at different depths. A proof is a list of optional siblings, climbed from the bottom. It
takes the directions of its index at the levels where it has a sibling, and the prover chooses
which levels these are.
-/

namespace Merkle

open List

variable {α β γ : Type} {i : ℕ} {xs : List α} {node' : γ → γ → γ} {a : α}

/-! ### Levels -/

def pairUp (node : α → α → α) : List α → List α
  | []             => []
  | [a]            => [a]
  | a :: b :: rest => node a b :: pairUp node rest

/-- All levels, leaves first, as far as `fuel` goes. -/
def levels (node : α → α → α) : ℕ → List α → List (List α)
  | 0, xs        => [xs]
  | fuel + 1, xs => if 1 < xs.length then xs :: levels node fuel (pairUp node xs) else [xs]

def root (ls : List (List α)) : Option α := ls.getLast?.bind List.head?

/-- How often a width is halved, rounding up, before it is one. -/
def depth : ℕ → ℕ → ℕ
  | 0, _            => 0
  | fuel + 1, width => if 1 < width then depth fuel ((width + 1) / 2) + 1 else 0

lemma length_pairUp (node : α → α → α) (xs : List α) :
    (pairUp node xs).length = (xs.length + 1) / 2 := by
  fun_induction pairUp node xs with
  | case1 => simp
  | case2 a => simp
  | case3 a b rest ih => simp only [length_cons, ih]; omega

lemma length_levels (node : α → α → α) (fuel : ℕ) (xs : List α) :
    (levels node fuel xs).length = depth fuel xs.length + 1 := by
  induction fuel generalizing xs with
  | zero => rfl
  | succ fuel ih =>
    unfold levels depth
    split_ifs
    · rw [length_cons, ih, length_pairUp]
    · rfl

lemma pairUp_map {node : α → α → α} {f : α → γ}
    (h : ∀ a b, f (node a b) = node' (f a) (f b)) (xs : List α) :
    pairUp node' (xs.map f) = (pairUp node xs).map f := by
  fun_induction pairUp node xs with
  | case1 => rfl
  | case2 a => rfl
  | case3 a b rest ih => simp only [map_cons, pairUp, ih, h]

/-- Levels are built alike from whatever the nodes are mapped to. -/
lemma root_levels_map {node : α → α → α} {f : α → γ}
    (h : ∀ a b, f (node a b) = node' (f a) (f b)) (fuel : ℕ) (xs : List α) :
    root (levels node' fuel (xs.map f)) = (root (levels node fuel xs)).map f := by
  have hlevels : ∀ fuel xs,
      levels node' fuel (xs.map f) = (levels node fuel xs).map (List.map f) := by
    intro fuel
    induction fuel with
    | zero => exact fun xs => rfl
    | succ fuel ih =>
      intro xs
      unfold levels
      rw [length_map, pairUp_map h]
      split_ifs
      · rw [ih, map_cons]
      · rfl
  rw [hlevels, root, root, List.getLast?_map]
  cases (levels node fuel xs).getLast? with
  | none => rfl
  | some l => cases l <;> rfl

/-! ### Proofs -/

/-- What a node becomes on the way up, for an index and the siblings that a proof has. -/
def climb (node : α → α → α) : ℕ → List (Option α) → α → α
  | _, [], a             => a
  | i, none :: ss, a     => climb node (i / 2) ss a
  | i, some sib :: ss, a => climb node (i / 2) ss (if i % 2 = 1 then node sib a else node a sib)

/-- The siblings of an index at every level but the last. -/
def siblings : ℕ → List (List α) → List (Option α)
  | _, []                    => []
  | _, [_]                   => []
  | i, level :: next :: rest =>
    level[if i % 2 = 1 then i - 1 else i + 1]? :: siblings (i / 2) (next :: rest)

lemma length_siblings (i : ℕ) (ls : List (List α)) : (siblings i ls).length = ls.length - 1 := by
  fun_induction siblings i ls with
  | case1 => rfl
  | case2 => rfl
  | case3 i level next rest ih => simp only [length_cons, ih]; omega

/-- A node at an even place is paired with the next one, if there is one. -/
lemma getElem?_pairUp (node : α → α → α) (xs : List α) (j : ℕ) :
    (pairUp node xs)[j]? = xs[2 * j]?.map fun a => xs[2 * j + 1]?.elim a (node a) := by
  fun_induction pairUp node xs generalizing j with
  | case1 => simp
  | case2 a => cases j <;> simp [Nat.mul_add]
  | case3 a b rest ih =>
    cases j with
    | zero => rfl
    | succ j => simpa [Nat.mul_add] using ih j

/-- One level of an honest proof. -/
lemma climb_pairUp (node : α → α → α) (ha : xs[i]? = some a) (ss : List (Option α)) :
    ∃ b, (pairUp node xs)[i / 2]? = some b ∧
      climb node i (xs[if i % 2 = 1 then i - 1 else i + 1]? :: ss) a = climb node (i / 2) ss b := by
  rw [getElem?_pairUp]
  obtain hparity | hparity := Nat.mod_two_eq_zero_or_one i
  · have hi : 2 * (i / 2) = i := by omega
    rw [hi, ha, if_neg (by omega)]
    cases xs[i + 1]? with
    | none => exact ⟨a, rfl, rfl⟩
    | some b => exact ⟨node a b, rfl, by simp only [climb, hparity, Nat.zero_ne_one, if_false]⟩
  · have hi : 2 * (i / 2) = i - 1 := by omega
    have hlt := (List.getElem?_eq_some_iff.mp ha).1
    have hsib := List.getElem?_eq_getElem (show i - 1 < xs.length by omega)
    rw [hi, Nat.sub_add_cancel (by omega), ha, if_pos hparity, hsib]
    exact ⟨node _ a, rfl, by simp only [climb, hparity, if_true]⟩

lemma root_singleton (hlength : xs.length ≤ 1) (ha : xs[i]? = some a) : root [xs] = some a := by
  have hlt := (List.getElem?_eq_some_iff.mp ha).1
  obtain rfl : i = 0 := by omega
  rwa [← List.head?_eq_getElem?] at ha

/-- The siblings of an index lead to the root. -/
lemma root_levels_eq_climb {node : α → α → α} {fuel : ℕ}
    (hfuel : xs.length ≤ fuel + 1) (ha : xs[i]? = some a) :
    root (levels node fuel xs) = some (climb node i (siblings i (levels node fuel xs)) a) := by
  induction fuel generalizing xs i a with
  | zero => exact root_singleton hfuel ha
  | succ fuel ih =>
    unfold levels
    split_ifs with hlength
    · -- the levels above are never empty, so this one gives a sibling
      obtain ⟨next, rest, hnext⟩ :=
        exists_cons_of_length_eq_add_one (length_levels node fuel (pairUp node xs))
      obtain ⟨b, hb, hclimb⟩ := climb_pairUp node ha (siblings (i / 2) (next :: rest))
      have hshort : (pairUp node xs).length ≤ fuel + 1 := by rw [length_pairUp]; omega
      rw [hnext, siblings, hclimb, ← hnext, ← ih hshort hb, hnext, root, root,
        List.getLast?_cons_cons]
    · exact root_singleton (not_lt.mp hlength) ha

/-! ### Trees -/

inductive Tree (β : Type) where
  | leaf (b : β)
  | node (l r : Tree β)

/-- What is hashed: the content of a leaf, or the hashes of two nodes. -/
inductive Input (β α : Type) where
  | leaf (b : β)
  | node (l r : α)

variable (digest : Input β α → α)

def Tree.hash : Tree β → α
  | leaf b   => digest (.leaf b)
  | node l r => digest (.node l.hash r.hash)

/-- What a node is the hash of. -/
def Tree.top : Tree β → Input β α
  | leaf b   => .leaf b
  | node l r => .node (l.hash digest) (r.hash digest)

def Tree.inputs : Tree β → List (Input β α)
  | leaf b   => [.leaf b]
  | node l r => .node (l.hash digest) (r.hash digest) :: (l.inputs ++ r.inputs)

/-- The node at the end of a path, where `true` is to the right. -/
def Tree.sub : Tree β → List Bool → Option (Tree β)
  | t, []              => some t
  | leaf _, _ :: _     => none
  | node l r, d :: ds  => (if d then r else l).sub ds

/-- The leaf at the end of a path. -/
def Tree.leafAt (t : Tree β) (ds : List Bool) : Option β :=
  match t.sub ds with
  | some (.leaf b) => some b
  | _              => none

/-- The directions of an index at so many levels, from the top. -/
def directions : ℕ → ℕ → List Bool
  | 0, _     => []
  | d + 1, i => directions d (i / 2) ++ [decide (i % 2 = 1)]

/-- What a proof hashes beyond the leaf. -/
def climbInputs : ℕ → List (Option α) → α → List (Input β α)
  | _, [], _             => []
  | i, none :: ss, a     => climbInputs (i / 2) ss a
  | i, some sib :: ss, a =>
    (if i % 2 = 1 then .node sib a else .node a sib) ::
      climbInputs (i / 2) ss (digest (if i % 2 = 1 then .node sib a else .node a sib))

variable {digest} {ds : List Bool}

lemma Tree.hash_eq (t : Tree β) : t.hash digest = digest (t.top digest) := by
  cases t <;> rfl

lemma Tree.top_mem_inputs (t : Tree β) : t.top digest ∈ t.inputs digest := by
  cases t
  · exact mem_singleton_self _
  · exact mem_cons_self

lemma Tree.sub_append {t : Tree β} {d : Bool} :
    t.sub (ds ++ [d]) = (t.sub ds).bind (·.sub [d]) := by
  induction ds generalizing t with
  | nil => rfl
  | cons d' ds ih =>
    cases t with
    | leaf b => rfl
    | node l r => exact ih

lemma Tree.inputs_sub {t u : Tree β} (h : t.sub ds = some u) :
    u.inputs digest ⊆ t.inputs digest := by
  induction ds generalizing t with
  | nil => cases h; exact List.Subset.refl _
  | cons d ds ih =>
    cases t with
    | leaf b => cases h
    | node l r =>
      cases d with
      | false => exact fun y hy => mem_cons_of_mem _ (mem_append_left _ (ih h hy))
      | true => exact fun y hy => mem_cons_of_mem _ (mem_append_right _ (ih h hy))

lemma climb_some (i : ℕ) (sib a : α) (ss : List (Option α)) :
    climb (fun l r => digest (.node l r)) i (some sib :: ss) a =
      climb (fun l r => digest (.node l r)) (i / 2) ss
        (digest (if i % 2 = 1 then .node sib a else .node a sib)) := by
  rw [climb, apply_ite digest]

lemma Tree.exists_sub_of_top {v : Tree β} {sib a : α}
    (h : (if i % 2 = 1 then .node sib a else .node a sib) = v.top digest) :
    ∃ u, v.sub [decide (i % 2 = 1)] = some u ∧ u.hash digest = a := by
  cases v with
  | leaf b => split_ifs at h <;> cases h
  | node l r =>
    split_ifs at h with hodd <;> cases h
    · exact ⟨r, by simp [Tree.sub, hodd], rfl⟩
    · exact ⟨l, by simp [Tree.sub, hodd], rfl⟩

lemma Tree.exists_top_of_sub {v u : Tree β} (h : v.sub [decide (i % 2 = 1)] = some u) :
    ∃ sib, (if i % 2 = 1 then .node sib (u.hash digest) else .node (u.hash digest) sib) =
      v.top digest := by
  cases v with
  | leaf b => cases h
  | node l r =>
    by_cases hodd : i % 2 = 1
    · obtain rfl : r = u := by simpa [Tree.sub, hodd] using h
      exact ⟨l.hash digest, if_pos hodd⟩
    · obtain rfl : l = u := by simpa [Tree.sub, hodd] using h
      exact ⟨r.hash digest, if_neg hodd⟩

/-- A climb that ends at the root of a tree began at a node of it: the one that the directions at
the levels with a sibling lead to. -/
lemma exists_sub_of_climb {t : Tree β} {ss : List (Option α)} {y : Input β α}
    (hinj : Set.InjOn digest {z | z ∈ t.inputs digest ++ y :: climbInputs digest i ss (digest y)})
    (h : climb (fun l r => digest (.node l r)) i ss (digest y) = t.hash digest) :
    ∃ ds u, ds ∈ (directions ss.length i).sublists ∧ t.sub ds = some u ∧ y = u.top digest := by
  induction ss generalizing i y with
  | nil =>
    refine ⟨[], t, by simp, rfl, hinj (by simp) ?_ (h.trans t.hash_eq)⟩
    exact mem_append_left _ t.top_mem_inputs
  | cons s ss ih =>
    cases s with
    | none =>
      obtain ⟨ds, u, hds, hu, hy⟩ := ih hinj h
      refine ⟨ds, u, ?_, hu, hy⟩
      rw [mem_sublists] at hds ⊢
      exact hds.trans (sublist_append_left _ _)
    | some sib =>
      rw [climb_some] at h
      obtain ⟨ds, v, hds, hv, htop⟩ := ih (hinj.mono (by grind [climbInputs])) h
      obtain ⟨u, hu, hhash⟩ := Tree.exists_sub_of_top htop
      have hsub : t.sub (ds ++ [decide (i % 2 = 1)]) = some u := by
        rw [Tree.sub_append, hv]
        exact hu
      refine ⟨_, u, ?_, hsub, hinj (by simp) ?_ (hhash.symm.trans u.hash_eq)⟩
      · rw [mem_sublists] at hds ⊢
        exact hds.append_right _
      · exact mem_append_left _ (Tree.inputs_sub hsub u.top_mem_inputs)

/-- Every path that leaves out some of the directions of an index is climbed by a proof, made of
the hashes of the tree. -/
lemma exists_climb_of_sub (digest : Input β α → α) {t u : Tree β} {d i : ℕ}
    (hds : ds ∈ (directions d i).sublists) (h : t.sub ds = some u) :
    ∃ ss : List (Option α), ss.length = d ∧
      climb (fun l r => digest (.node l r)) i ss (u.hash digest) = t.hash digest ∧
        climbInputs digest i ss (u.hash digest) ⊆ t.inputs digest := by
  rw [mem_sublists] at hds
  induction d generalizing i ds u with
  | zero =>
    cases sublist_nil.mp hds
    cases h
    exact ⟨[], rfl, rfl, nil_subset _⟩
  | succ d ih =>
    obtain ⟨ds', last, rfl, hds', hlast⟩ := sublist_append_iff.mp hds
    obtain rfl | rfl := sublist_singleton.mp hlast
    · rw [append_nil] at h
      obtain ⟨ss, hlength, hclimb, hinputs⟩ := ih hds' h
      exact ⟨none :: ss, by rw [length_cons, hlength], hclimb, hinputs⟩
    · rw [Tree.sub_append] at h
      obtain ⟨v, hv, hu⟩ := Option.bind_eq_some_iff.mp h
      obtain ⟨ss, hlength, hclimb, hinputs⟩ := ih hds' hv
      obtain ⟨sib, htop⟩ := Tree.exists_top_of_sub hu
      refine ⟨some sib :: ss, by rw [length_cons, hlength], ?_, ?_⟩
      · rw [climb_some, htop, ← hclimb, v.hash_eq]
      · rw [v.hash_eq] at hinputs
        rw [climbInputs, htop]
        exact cons_subset.mpr ⟨Tree.inputs_sub hv v.top_mem_inputs, hinputs⟩

end Merkle
