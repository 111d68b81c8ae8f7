import Mininet.Lib.Reader

/-!
# Sums and listings of ordered maps

What a map's values add up to under a weight, and how inserting and erasing one key changes it; that
a map is determined by the list of its entries in key order; and a reader for such lists.
-/

namespace TreeMaps

open Std List

variable {κ ν : Type} {cmp : κ → κ → Ordering} [TransCmp cmp]

/-- What the values add up to. -/
def total (f : ν → ℕ) (m : ExtTreeMap κ ν cmp) : ℕ := (m.toList.map fun e => f e.2).sum

variable {m : ExtTreeMap κ ν cmp} {k : κ} {v : ν} {es : List (κ × ν)}

lemma nodup_toList (m : ExtTreeMap κ ν cmp) : m.toList.Nodup :=
  ExtTreeMap.ordered_keys_toList.imp fun {a b} h heq => by
    have hself : cmp b.1 b.1 = .eq := ReflCmp.compare_self
    rw [heq, hself] at h
    cases h

lemma nodup_keys_toList (m : ExtTreeMap κ ν cmp) : (m.toList.map Prod.fst).Nodup :=
  nodup_iff_pairwise_ne.mpr (pairwise_map.mpr (ExtTreeMap.distinct_keys_toList.imp
    fun hne heq => hne (by rw [heq]; exact ReflCmp.compare_self)))

@[simp] lemma toList_empty : (∅ : ExtTreeMap κ ν cmp).toList = [] :=
  length_eq_zero_iff.mp (by simp [ExtTreeMap.length_toList])

@[simp] lemma total_empty (f : ν → ℕ) : total f (∅ : ExtTreeMap κ ν cmp) = 0 := by
  simp [total]

@[simp] lemma values_empty : (∅ : ExtTreeMap κ ν cmp).values = [] := rfl

variable [LawfulEqCmp cmp]

lemma mem_toList {e : κ × ν} : e ∈ m.toList ↔ m[e.1]? = some e.2 :=
  ExtTreeMap.mem_toList_iff_getElem?_eq_some

/-- Listing what the entries give is listing what their keys give. -/
lemma map_toList_eq_map_keys {β : Type} {f : κ × ν → β} {g : κ → β}
    (h : ∀ (k : κ) (v : ν), m[k]? = some v → f (k, v) = g k) : m.toList.map f = m.keys.map g := by
  rw [← ExtTreeMap.map_fst_toList_eq_keys, map_map]
  exact map_congr_left fun e he => h e.1 e.2 (mem_toList.mp he)

omit [LawfulEqCmp cmp] in
/-- Keys come in order, so two maps with the same keys list them alike. -/
lemma keys_eq_of_perm {μ : Type} {m' : ExtTreeMap κ μ cmp} (h : m.keys.Perm m'.keys) :
    m.keys = m'.keys := by
  refine h.eq_of_pairwise (fun a b _ _ hab hba => ?_) ExtTreeMap.ordered_keys
    ExtTreeMap.ordered_keys
  cases hab.symm.trans (OrientedCmp.gt_of_lt hba)

/-- Whatever an absent key's entry would be, it is the only thing that inserting it adds. -/
lemma toList_insert_perm [DecidableEq κ] (m : ExtTreeMap κ ν cmp) (k : κ) (v : ν) :
    (m.insert k v).toList.Perm ((k, v) :: (m.erase k).toList) := by
  refine (perm_ext_iff_of_nodup (nodup_toList _) ?_).mpr fun e => ?_
  · refine nodup_cons.mpr ⟨fun h => ?_, nodup_toList _⟩
    simp [mem_toList] at h
  · obtain ⟨a, b⟩ := e
    rw [mem_cons, mem_toList, mem_toList, ExtTreeMap.getElem?_insert,
      ExtTreeMap.getElem?_erase, Prod.mk.injEq]
    by_cases h : k = a
    · simp [h, eq_comm (a := b)]
    · simp [h, Ne.symm h]

lemma insert_eq_self (h : m[k]? = some v) : m.insert k v = m := by
  refine ExtTreeMap.ext_getElem? fun a => ?_
  rw [ExtTreeMap.getElem?_insert]
  split_ifs with hk
  · rw [← LawfulEqCmp.eq_of_compare hk, h]
  · rfl

/-- What holds of the new entry and of the others holds of every entry. -/
lemma forall_getElem?_insert {P : κ → ν → Prop} (hk : P k v)
    (h : ∀ a w, a ≠ k → m[a]? = some w → P a w) (a : κ) (w : ν) (ha : (m.insert k v)[a]? = some w) :
    P a w := by
  rw [ExtTreeMap.getElem?_insert] at ha
  split_ifs at ha with hcmp
  · obtain rfl := LawfulEqCmp.eq_of_compare hcmp
    cases ha
    exact hk
  · refine h a w ?_ ha
    rintro rfl
    exact hcmp Std.ReflCmp.compare_self

lemma toList_perm_erase [DecidableEq κ] (h : m[k]? = some v) :
    m.toList.Perm ((k, v) :: (m.erase k).toList) := by
  conv_lhs => rw [← insert_eq_self h]
  exact toList_insert_perm m k v

lemma erase_eq_self (h : m[k]? = none) : m.erase k = m := by
  refine ExtTreeMap.ext_getElem? fun a => ?_
  rw [ExtTreeMap.getElem?_erase]
  split_ifs with hk
  · rw [← LawfulEqCmp.eq_of_compare hk, h]
  · rfl

lemma total_erase [DecidableEq κ] (f : ν → ℕ) (m : ExtTreeMap κ ν cmp) (k : κ) :
    total f (m.erase k) + (m[k]?).elim 0 f = total f m := by
  cases h : m[k]? with
  | none => simp [erase_eq_self h]
  | some v =>
    have hsum := ((toList_perm_erase h).map fun e => f e.2).sum_eq
    simp only [map_cons, sum_cons] at hsum
    simp only [total, Option.elim_some]
    omega

lemma total_insert [DecidableEq κ] (f : ν → ℕ) (m : ExtTreeMap κ ν cmp) (k : κ) (v : ν) :
    total f (m.insert k v) + (m[k]?).elim 0 f = total f m + f v := by
  have hsum := ((toList_insert_perm m k v).map fun e => f e.2).sum_eq
  have herase := total_erase f m k
  simp only [map_cons, sum_cons] at hsum
  simp only [total] at hsum herase ⊢
  omega

/-! ### Listings -/

/-- Insert the entries of a list, first to last. -/
def insertAll (m : ExtTreeMap κ ν cmp) (es : List (κ × ν)) : ExtTreeMap κ ν cmp :=
  es.foldl (fun m e => m.insert e.1 e.2) m

section

omit [LawfulEqCmp cmp]

lemma getElem?_insertAll_of_notMem (h : ∀ e ∈ es, cmp e.1 k ≠ .eq) :
    (insertAll m es)[k]? = m[k]? := by
  induction es generalizing m with
  | nil => rfl
  | cons e es ih =>
    rw [insertAll, foldl_cons, ← insertAll, ih fun e' he' => h e' (by simp [he'])]
    rw [ExtTreeMap.getElem?_insert, if_neg (h e (by simp))]

lemma getElem?_insertAll_of_mem (hkeys : es.Pairwise fun a b => cmp a.1 b.1 = .lt) (h : (k, v) ∈ es) :
    (insertAll m es)[k]? = some v := by
  induction es generalizing m with
  | nil => simp at h
  | cons e es ih =>
    obtain ⟨hfirst, hrest⟩ := pairwise_cons.mp hkeys
    rw [insertAll, foldl_cons, ← insertAll]
    rcases mem_cons.mp h with rfl | h
    · -- later entries have larger keys
      rw [getElem?_insertAll_of_notMem fun e he heq => ?_, ExtTreeMap.getElem?_insert_self]
      have hlt := hfirst e he
      rw [OrientedCmp.eq_symm heq] at hlt
      cases hlt
    · exact ih hrest h

lemma size_insertAll_le (m : ExtTreeMap κ ν cmp) (es : List (κ × ν)) :
    (insertAll m es).size ≤ m.size + es.length := by
  induction es generalizing m with
  | nil => exact le_rfl
  | cons e es ih =>
    have hstep := ih (m.insert e.1 e.2)
    rw [ExtTreeMap.size_insert] at hstep
    rw [insertAll, foldl_cons, ← insertAll, length_cons]
    split_ifs at hstep <;> omega

end

/-- An entry was there before or is one of those inserted. -/
lemma mem_of_getElem?_insertAll (h : (insertAll m es)[k]? = some v) :
    m[k]? = some v ∨ (k, v) ∈ es := by
  induction es generalizing m with
  | nil => exact .inl h
  | cons e es ih =>
    rcases ih h with h | h
    · rw [ExtTreeMap.getElem?_insert] at h
      split_ifs at h with heq
      · rw [← LawfulEqCmp.eq_of_compare heq, ← Option.some.inj h]
        exact .inr (by simp)
      · exact .inl h
    · exact .inr (mem_cons_of_mem _ h)

/-- Inserting keys whose values a function gives. -/
lemma getElem?_insertAll_map [DecidableEq κ] (m : ExtTreeMap κ ν cmp) (ks : List κ) (f : κ → ν)
    (k : κ) :
    (insertAll m (ks.map fun k' => (k', f k')))[k]? = if k ∈ ks then some (f k) else m[k]? := by
  induction ks generalizing m with
  | nil => simp [insertAll]
  | cons k' ks ih =>
    rw [map_cons, insertAll, foldl_cons, ← insertAll, ih, ExtTreeMap.getElem?_insert]
    by_cases hk : k' = k
    · simp [hk]
    · simp [hk, Ne.symm hk]

/-- Inserting entries that are there already changes nothing. -/
lemma insertAll_eq_self (h : ∀ e ∈ es, m[e.1]? = some e.2) : insertAll m es = m := by
  induction es with
  | nil => rfl
  | cons e es ih =>
    rw [insertAll, foldl_cons, ← insertAll, insert_eq_self (h e (by simp))]
    exact ih fun e' he' => h e' (by simp [he'])

/-- Entries whose keys are new and distinct are all that inserting them adds. -/
lemma toList_insertAll_perm [DecidableEq κ] (hnew : ∀ e ∈ es, e.1 ∉ m)
    (hnodup : (es.map Prod.fst).Nodup) : (insertAll m es).toList.Perm (m.toList ++ es) := by
  induction es generalizing m with
  | nil => simp [insertAll]
  | cons e es ih =>
    rw [map_cons] at hnodup
    obtain ⟨hfirst, hrest⟩ := nodup_cons.mp hnodup
    have hlater : ∀ e' ∈ es, e'.1 ∉ m.insert e.1 e.2 := by
      intro e' he' hmem
      rcases ExtTreeMap.mem_insert.mp hmem with heq | hmem
      · have hkey : e.1 = e'.1 := LawfulEqCmp.eq_of_compare heq
        exact hfirst (hkey ▸ mem_map_of_mem he')
      · exact hnew e' (by simp [he']) hmem
    have hinsert := toList_insert_perm m e.1 e.2
    rw [erase_eq_self (ExtTreeMap.getElem?_eq_none (hnew e (by simp)))] at hinsert
    rw [insertAll, foldl_cons, ← insertAll]
    have hrest : (insertAll (m.insert e.1 e.2) es).toList.Perm ((m.insert e.1 e.2).toList ++ es) :=
      ih hlater hrest
    exact hrest.trans ((hinsert.append_right es).trans perm_middle.symm)

/-- Entries with distinct keys are the entries of the map they make. -/
lemma toList_insertAll_empty_perm [DecidableEq κ] (h : (es.map Prod.fst).Nodup) :
    (insertAll (∅ : ExtTreeMap κ ν cmp) es).toList.Perm es := by
  have hperm := toList_insertAll_perm (m := (∅ : ExtTreeMap κ ν cmp))
    (fun _ _ => ExtTreeMap.not_mem_empty) h
  rwa [toList_empty, nil_append] at hperm

/-- A map is what inserting its entries builds. -/
lemma insertAll_toList (m : ExtTreeMap κ ν cmp) : insertAll ∅ m.toList = m := by
  refine ExtTreeMap.ext_getElem? fun k => ?_
  cases h : m[k]? with
  | none =>
    rw [getElem?_insertAll_of_notMem fun e he heq => ?_]
    · simp
    · rw [← LawfulEqCmp.eq_of_compare heq, mem_toList.mp he] at h
      cases h
  | some v =>
    exact getElem?_insertAll_of_mem ExtTreeMap.ordered_keys_toList (mem_toList.mpr h)

/-! ### Reading a listing -/

section Read

open Codec Fallible

variable {ε : Type}

/-- Read entries one by one, refusing a key that does not come strictly after the one before. -/
def readEntries (bad : ε) (key : Reader ε κ) (value : Reader ε ν) :
    ℕ → Option κ → ExtTreeMap κ ν cmp → Reader ε (ExtTreeMap κ ν cmp)
  | 0, _, m            => pure m
  | n + 1, previous, m => do
    let k ← key
    lift (failIf (∃ prior ∈ previous, cmp prior k ≠ .lt) bad)
    let v ← value
    readEntries bad key value n (some k) (m.insert k v)

omit [LawfulEqCmp cmp] in
lemma reads_readEntries (bad : ε) {key : Reader ε κ} {value : Reader ε ν}
    {keyBytes : κ → List UInt8} {valueBytes : ν → List UInt8} {es : List (κ × ν)}
    (previous : Option κ) (m : ExtTreeMap κ ν cmp)
    (hkeys : es.Pairwise fun a b => cmp a.1 b.1 = .lt)
    (hprevious : ∀ prior ∈ previous, ∀ e ∈ es, cmp prior e.1 = .lt)
    (hentry : ∀ e ∈ es, Reads key (keyBytes e.1) e.1 ∧ Reads value (valueBytes e.2) e.2) :
    Reads (readEntries bad key value es.length previous m)
      (es.flatMap fun e => keyBytes e.1 ++ valueBytes e.2) (insertAll m es) := by
  induction es generalizing previous m with
  | nil => exact Reads.pure m
  | cons e es ih =>
    obtain ⟨hfirst, hrest⟩ := pairwise_cons.mp hkeys
    obtain ⟨hkey, hvalue⟩ := hentry e (by simp)
    rw [flatMap_cons, append_assoc]
    refine hkey.bind (Reads.failIf_bind ?_ (hvalue.bind ?_))
    · rintro ⟨prior, hprior, hne⟩
      exact hne (hprevious prior hprior e (by simp))
    · refine ih _ _ hrest ?_ fun e' he' => hentry e' (by simp [he'])
      intro prior hprior e' he'
      rw [← Option.some.inj hprior]
      exact hfirst e' he'

end Read

end TreeMaps
