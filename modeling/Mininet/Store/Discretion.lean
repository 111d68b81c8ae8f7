import Mininet.Objects.Canonical
import Mininet.Store.Operations

/-!
# Private content and advertised tiers

A tier is declared for an identifier and content is stored under it, in either order. Both ways of
declaring a tier look at the content that is there, and inserting an object looks at the tier; only
inserting a private envelope looks at nothing.
-/

namespace Mininet

open Codec Fallible Stateful Identity Objects

/-! ### Discretion -/

namespace Store

/-- The tier of an identifier is one that peers are told of. -/
def Advertised (s : Store) (id : ObjectId) : Prop :=
  ∃ tier, s.cacheTier id = .ok tier ∧ tier.advertises = true

/-- No private content is under an advertised tier. -/
def Discreet (s : Store) : Prop :=
  ∀ id content, s.blobs id = some content → content.isPrivate = true → ¬ s.Advertised id

variable {s : Store} {id : ObjectId} {tier : CacheTier}

lemma cacheTier_setTier (s : Store) (id : ObjectId) (tier : CacheTier) :
    (s.setTier id tier).cacheTier id = .ok tier := by
  simp [cacheTier, setTier, okOr]

lemma cacheTier_setTier_of_ne {id' : ObjectId} (h : id' ≠ id) :
    (s.setTier id tier).cacheTier id' = s.cacheTier id' := by
  simp [cacheTier, setTier, Function.update_of_ne h]

lemma cacheTier_congr {s' : Store} (h : s'.tiers id = s.tiers id) :
    s'.cacheTier id = s.cacheTier id := by
  rw [cacheTier, cacheTier, h]

variable [KeyPrimitives] {o : Object}

lemma Discreet.put (h : s.Discreet) (hadmits : s.Admits o) : (s.put o).Discreet := by
  intro id content hcontent hprivate
  have hsame : (s.put o).Advertised id ↔ s.Advertised id := Iff.rfl
  rw [hsame]
  by_cases hid : id = o.id
  · subst hid
    obtain rfl : content = .object o := by simpa [Store.put, eq_comm] using hcontent
    have hchecked := hadmits.checked
    have hencrypted : o.payload.isEncrypted = true := hprivate
    rw [checkPrivate, if_pos hencrypted] at hchecked
    obtain ⟨tier, htier, hquiet⟩ := bind_ok.mp hchecked
    rintro ⟨tier', htier', hadvertises⟩
    obtain rfl : tier = tier' := Except.ok.inj (htier.symm.trans htier')
    exact failIf_ok.mp hquiet hadvertises
  · exact h id content ((Function.update_of_ne hid _ _).symm.trans hcontent) hprivate

/-- Content that is read as an object with a public payload is not private. -/
lemma not_isPrivate_of_get {content : Content} (hget : s.get id = .ok o)
    (hpublic : ¬ o.payload.isEncrypted = true) (hcontent : s.blobs id = some content) :
    ¬ content.isPrivate = true := by
  obtain ⟨ho, -, content', hcontent', hbytes⟩ := get_ok.mp hget
  obtain rfl := Option.some.inj (hcontent.symm.trans hcontent')
  cases content with
  | object o' =>
    rw [ho.eq_of_toBytes hbytes.symm]
    exact hpublic
  | envelope e =>
    exact absurd (Object.fromBytes_ok.mpr ⟨hbytes, ho⟩) (e.fromBytes_toBytes o)

lemma Discreet.setTier (h : s.Discreet) (hchecked : s.checkTier id tier = .ok ()) :
    (s.setTier id tier).Discreet := by
  intro id' content hcontent hprivate
  have hcontent' : s.blobs id' = some content := hcontent
  rintro ⟨tier', htier', hadvertises⟩
  by_cases hid : id' = id
  · subst hid
    obtain rfl := Except.ok.inj ((cacheTier_setTier s id' tier).symm.trans htier')
    have hthere : s.contains id' = true := by simp [contains, hcontent']
    rw [checkTier, if_pos ⟨hadvertises, hthere⟩] at hchecked
    obtain ⟨o, hget, hpublic⟩ := bind_ok.mp hchecked
    exact not_isPrivate_of_get hget (failIf_ok.mp hpublic) hcontent' hprivate
  · rw [cacheTier_setTier_of_ne hid] at htier'
    exact h id' content hcontent' hprivate ⟨tier', htier', hadvertises⟩

omit [KeyPrimitives] in
lemma Discreet.remove (h : s.Discreet) (o : Object) : (s.remove o).Discreet := by
  intro id content hcontent hprivate hadvertised
  by_cases hid : id = o.id
  · subst hid
    simp [Store.remove] at hcontent
  · refine h id content ((Function.update_of_ne hid _ _).symm.trans hcontent) hprivate ?_
    rwa [Advertised, cacheTier_congr (s := s) (Function.update_of_ne hid _ _)] at hadvertised

omit [KeyPrimitives] in
lemma Discreet.removeAll {objects : List Object} (h : s.Discreet) :
    (objects.foldl Store.remove s).Discreet := by
  induction objects generalizing s with
  | nil => exact h
  | cons o objects ih => exact ih (h.remove o)

lemma Discreet.next (h : s.Discreet) {call : Call}
    (hcall : ∀ e, call = .insertPrivate e → ¬ s.Advertised e.id) : (s.next call).Discreet := by
  generalize s.next call = s', stepped_next s call = hstep
  cases hstep with
  | same => exact h
  | inserted admits => exact h.put admits
  | insertedPrivate e =>
    intro id content hcontent hprivate
    by_cases hid : id = e.id
    · subst hid
      exact hcall e rfl
    · exact h id content ((Function.update_of_ne hid _ _).symm.trans hcontent) hprivate
  | tier checked => exact h.setTier checked
  | stored admits | applied subject_eq admits newer => exact h.put admits
  | evicted evictable => exact h.removeAll

lemma blobs_next_insertPrivate (s : Store) (e : ObjectEnvelopeV2) :
    (s.next (.insertPrivate e)).blobs e.id = some (.envelope e) := by
  change Function.update s.blobs e.id (some (.envelope e)) e.id = _
  rw [Function.update_self]

/-- Private content is never advertised exactly when no private envelope is inserted under a tier
that is advertised already. -/
theorem discreet_iff (calls : List Call) :
    (∀ k, (after (calls.take k)).Discreet) ↔
      ∀ k e, calls[k]? = some (.insertPrivate e) → ¬ (after (calls.take k)).Advertised e.id := by
  have hstep : ∀ {k call}, calls[k]? = some call →
      after (calls.take (k + 1)) = (after (calls.take k)).next call := by
    intro k call hcall
    rw [List.take_add_one, hcall, Option.toList_some, after_concat]
  constructor
  · intro h k e hcall
    have hdiscreet := h (k + 1)
    rw [hstep hcall] at hdiscreet
    exact hdiscreet e.id (.envelope e) (blobs_next_insertPrivate _ _) rfl
  · intro h k
    induction k with
    | zero => exact fun id content hcontent => nomatch hcontent
    | succ k ih =>
      cases hcall : calls[k]? with
      | none =>
        have hlength := List.getElem?_eq_none_iff.mp hcall
        rwa [List.take_of_length_le (by omega), ← List.take_of_length_le hlength]
      | some call =>
        rw [hstep hcall]
        refine ih.next fun e he => h k e ?_
        rw [hcall, he]

end Store

/-- An envelope with nothing inside. -/
def sampleEnvelope : ObjectEnvelopeV2 :=
  ⟨.chaCha20Poly1305, Hash.zero, .standard, Vector.replicate 12 0, []⟩

/-- A tier declared before the envelope arrives advertises it. -/
theorem sample_advertised :
    ∃ calls id, (@Store.after .sample calls).blobs id = some (.envelope sampleEnvelope) ∧
      (@Store.after .sample calls).Advertised id := by
  let := KeyPrimitives.sample
  refine ⟨[.setCacheTier sampleEnvelope.id .seedCache, .insertPrivate sampleEnvelope],
    sampleEnvelope.id, ?_⟩
  change ((Store.new.setTier _ _).next (.insertPrivate _)).blobs _ = _ ∧
    ((Store.new.setTier _ _).next (.insertPrivate _)).Advertised _
  refine ⟨Store.blobs_next_insertPrivate _ _, .seedCache, ?_, rfl⟩
  exact Store.cacheTier_setTier Store.new sampleEnvelope.id .seedCache

end Mininet
