import Mininet.Objects.Canonical
import Mininet.Store.Operations

/-!
# What a store holds

Whatever the calls, a store holds contents that it was given, each under the identifier derived
from its bytes, and the index has the links of every object that can be read and no others.
-/

namespace Mininet

open Codec Fallible Stateful Identity Objects List

/-- The identifiers that content links to. -/
def Content.targets : Content → List ObjectId
  | .object o   => o.links.map Link.target
  | .envelope _ => []

namespace Store

/-- What a call is given to store. -/
def Call.contents : Call → List Content
  | .insert o | .applyHead o => [.object o]
  | .insertPrivate e         => [.envelope e]
  | _                        => []

variable [KeyPrimitives]

/-- The contents that calls are given have different digests, unless they are the same bytes. -/
def CollisionFree (calls : List Call) : Prop :=
  ∀ c ∈ calls.flatMap Call.contents, ∀ c' ∈ calls.flatMap Call.contents,
    blake3 c.bytes = blake3 c'.bytes → c.bytes = c'.bytes

variable {calls : List Call} {given : List Content} {s : Store} {id : ObjectId} {content : Content}
  {o : Object} {calls' : List Call} {target : ObjectId} {call : Call}

lemma CollisionFree.left (h : CollisionFree (calls ++ calls')) : CollisionFree calls := by
  rw [CollisionFree, flatMap_append] at h
  exact fun c hc c' hc' => h c (mem_append_left _ hc) c' (mem_append_left _ hc')

lemma CollisionFree.right (h : CollisionFree (calls ++ calls')) : CollisionFree calls' := by
  rw [CollisionFree, flatMap_append] at h
  exact fun c hc c' hc' => h c (mem_append_right _ hc) c' (mem_append_right _ hc')

/-! ### What is stored was given -/

/-- What is stored is from a list, under its own identifier. -/
def Given (given : List Content) (s : Store) : Prop :=
  ∀ id content, s.blobs id = some content → content ∈ given ∧ id = ObjectId.of content.bytes

lemma Given.update {s' : Store} (h : Given given s) (hcontent : content ∈ given)
    (hid : id = ObjectId.of content.bytes)
    (hblobs : s'.blobs = Function.update s.blobs id (some content)) : Given given s' := by
  intro id' content' hcontent'
  rw [hblobs] at hcontent'
  by_cases hsame : id' = id
  · subst hsame
    rw [Function.update_self] at hcontent'
    cases hcontent'
    exact ⟨hcontent, hid⟩
  · rw [Function.update_of_ne hsame] at hcontent'
    exact h id' content' hcontent'

lemma Given.put (h : Given given s) (hadmits : s.Admits o) (ho : .object o ∈ given) :
    Given given (s.put o) :=
  h.update ho hadmits.id_eq rfl

lemma Given.remove (h : Given given s) (o : Object) : Given given (s.remove o) := by
  intro id content hcontent
  by_cases hid : id = o.id
  · subst hid
    simp [Store.remove] at hcontent
  · exact h id content ((Function.update_of_ne hid _ _).symm.trans hcontent)

lemma Given.next (h : Given given s)
    (hcall : ∀ content ∈ call.contents, content ∈ given) : Given given (s.next call) := by
  generalize s.next call = s', stepped_next s call = hstep
  cases hstep with
  | same => exact h
  | inserted admits => exact h.put admits (hcall _ (mem_singleton_self _))
  | insertedPrivate e => exact h.update (hcall (.envelope e) (mem_singleton_self _)) rfl rfl
  | tier checked => exact h
  | stored admits
  | applied subject_eq admits newer => exact h.put admits (hcall _ (mem_singleton_self _))
  | @evicted ids objects evictable =>
    clear evictable
    induction objects generalizing s with
    | nil => exact h
    | cons o objects ih => exact ih (h.remove o)

/-! ### The index -/

/-- The rows of the index are the links of what is stored. Of content that cannot be read nothing is
known but that its own links are there. -/
structure Rows (s : Store) : Prop where
  sound : ∀ target id, (target, id) ∈ s.links → ∃ content, s.blobs id = some content ∧
    ∀ o, Object.fromBytes content.bytes = .ok o → target ∈ content.targets
  complete : ∀ target id content, s.blobs id = some content → target ∈ content.targets →
    (target, id) ∈ s.links

/-- Content with the bytes of an object that can be read has its links. -/
lemma targets_eq (h : Object.fromBytes content.bytes = .ok o) :
    content.targets = o.links.map Link.target := by
  obtain ⟨hbytes, ho⟩ := Object.fromBytes_ok.mp h
  cases content with
  | object o' => rw [ho.eq_of_toBytes hbytes.symm]; rfl
  | envelope e => exact absurd h (e.fromBytes_toBytes o)

omit [KeyPrimitives] in
lemma mem_links_put : (target, id) ∈ (s.put o).links ↔
      (target, id) ∈ s.links ∨ id = o.id ∧ target ∈ o.links.map Link.target := by
  simp only [Store.put, Finset.mem_union, mem_toFinset, mem_map, Prod.mk.injEq]
  refine or_congr_right ⟨?_, ?_⟩
  · rintro ⟨l, hl, rfl, rfl⟩
    exact ⟨rfl, l, hl, rfl⟩
  · rintro ⟨rfl, l, hl, rfl⟩
    exact ⟨l, hl, rfl, rfl⟩

lemma Rows.put (h : Rows s)
    (hsame : ∀ content, s.blobs o.id = some content → content.bytes = o.toBytes) :
    Rows (s.put o) := by
  have hblob : (s.put o).blobs o.id = some (.object o) := Function.update_self _ _ _
  have hother : ∀ {id}, id ≠ o.id → (s.put o).blobs id = s.blobs id :=
    fun hid => Function.update_of_ne hid _ _
  constructor
  · intro target id hrow
    rcases mem_links_put.mp hrow with hold | ⟨rfl, htarget⟩
    · obtain ⟨content, hcontent, hreadable⟩ := h.sound target id hold
      by_cases hid : id = o.id
      · subst hid
        refine ⟨_, hblob, fun o' ho' => ?_⟩
        have hread : Object.fromBytes content.bytes = .ok o' := by
          rw [hsame content hcontent]
          exact ho'
        rw [targets_eq ho', ← targets_eq hread]
        exact hreadable o' hread
      · exact ⟨content, (hother hid).trans hcontent, hreadable⟩
    · exact ⟨_, hblob, fun _ _ => htarget⟩
  · intro target id content hcontent htarget
    rw [mem_links_put]
    by_cases hid : id = o.id
    · subst hid
      cases hblob.symm.trans hcontent
      exact .inr ⟨rfl, htarget⟩
    · exact .inl (h.complete target id content ((hother hid).symm.trans hcontent) htarget)

lemma Rows.insertPrivate (h : Rows s) (e : ObjectEnvelopeV2) : Rows (s.putPrivate e) := by
  constructor
  · intro target id hrow
    by_cases hid : id = e.id
    · subst hid
      exact ⟨_, Function.update_self _ _ _, fun o ho => absurd ho (e.fromBytes_toBytes o)⟩
    · obtain ⟨content, hcontent, hreadable⟩ := h.sound target id hrow
      exact ⟨content, (Function.update_of_ne hid _ _).trans hcontent, hreadable⟩
  · intro target id content hcontent htarget
    by_cases hid : id = e.id
    · subst hid
      cases (Function.update_self _ _ _).symm.trans hcontent
      cases htarget
    · exact h.complete target id content ((Function.update_of_ne hid _ _).symm.trans hcontent)
        htarget

omit [KeyPrimitives] in
lemma mem_links_remove : (target, id) ∈ (s.remove o).links ↔
      (target, id) ∈ s.links ∧ ¬ (id = o.id ∧ target ∈ o.links.map Link.target) := by
  simp only [Store.remove, Finset.mem_sdiff, mem_toFinset, mem_map, Prod.mk.injEq]
  refine and_congr_right fun _ => not_congr ⟨?_, ?_⟩
  · rintro ⟨l, hl, rfl, rfl⟩
    exact ⟨rfl, l, hl, rfl⟩
  · rintro ⟨rfl, l, hl, rfl⟩
    exact ⟨l, hl, rfl, rfl⟩

/-- An object that is read is removed with all its rows. -/
lemma Rows.remove (h : Rows s)
    (hread : ∀ content, s.blobs o.id = some content → Object.fromBytes content.bytes = .ok o) :
    Rows (s.remove o) := by
  constructor
  · intro target id hrow
    obtain ⟨hold, hkept⟩ := mem_links_remove.mp hrow
    obtain ⟨content, hcontent, hreadable⟩ := h.sound target id hold
    have hid : id ≠ o.id := by
      rintro rfl
      refine hkept ⟨rfl, ?_⟩
      rw [← targets_eq (hread content hcontent)]
      exact hreadable o (hread content hcontent)
    exact ⟨content, (Function.update_of_ne hid _ _).trans hcontent, hreadable⟩
  · intro target id content hcontent htarget
    have hid : id ≠ o.id := by
      rintro rfl
      simp [Store.remove] at hcontent
    exact mem_links_remove.mpr
      ⟨h.complete target id content ((Function.update_of_ne hid _ _).symm.trans hcontent) htarget,
        fun hsame => hid hsame.1⟩

lemma Rows.removeAll {objects : List Object} (h : Rows s)
    (hread : ∀ o ∈ objects, s.get o.id = .ok o) : Rows (objects.foldl Store.remove s) := by
  -- an object that was removed before has no blob any more
  have hrun : ∀ (objects : List Object) (s : Store), Rows s →
      (∀ o ∈ objects, ∀ content, s.blobs o.id = some content →
        Object.fromBytes content.bytes = .ok o) → Rows (objects.foldl Store.remove s) := by
    intro objects
    induction objects with
    | nil => exact fun s hs _ => hs
    | cons o objects ih =>
      intro s hs hall
      obtain ⟨ho, hrest⟩ := forall_mem_cons.mp hall
      refine ih _ (hs.remove ho) fun o' ho' content hcontent => ?_
      by_cases hid : o'.id = o.id
      · simp [Store.remove, hid] at hcontent
      · exact hrest o' ho' content ((Function.update_of_ne hid _ _).symm.trans hcontent)
  refine hrun objects s h fun o ho content hcontent => ?_
  obtain ⟨hportable, -, content', hcontent', hbytes⟩ := get_ok.mp (hread o ho)
  cases hcontent.symm.trans hcontent'
  exact Object.fromBytes_ok.mpr ⟨hbytes, hportable⟩

lemma Rows.next (h : Rows s)
    (hsame : ∀ content ∈ call.contents, ∀ content',
      s.blobs (ObjectId.of content.bytes) = some content' → content'.bytes = content.bytes) :
    Rows (s.next call) := by
  generalize s.next call = s', stepped_next s call = hstep
  have hput : ∀ {o : Object}, s.Admits o → .object o ∈ call.contents → Rows (s.put o) := by
    intro o hadmits ho
    refine h.put fun content hcontent => hsame _ ho content ?_
    rwa [Content.bytes, ← hadmits.id_eq]
  cases hstep with
  | same => exact h
  | inserted admits => exact hput admits (mem_singleton_self _)
  | insertedPrivate e => exact h.insertPrivate e
  | tier checked => exact ⟨h.sound, h.complete⟩
  | stored admits => exact hput admits (mem_singleton_self _)
  | applied subject_eq admits newer =>
    have hrows := hput admits (mem_singleton_self _)
    exact ⟨hrows.sound, hrows.complete⟩
  | evicted evictable => exact h.removeAll fun o ho => (evictable o ho).1

/-- After every run, what is stored was given and the index is right. -/
lemma given_rows_after [LawfulKeys] (hfree : CollisionFree calls) :
    Given (calls.flatMap Call.contents) (after calls) ∧ Rows (after calls) := by
  have hrun : ∀ (rest : List Call) (s : Store), Given (calls.flatMap Call.contents) s → Rows s →
      (∀ call ∈ rest, call ∈ calls) →
      Given (calls.flatMap Call.contents) (rest.foldl Store.next s) ∧
        Rows (rest.foldl Store.next s) := by
    intro rest
    induction rest with
    | nil => exact fun s hgiven hrows _ => ⟨hgiven, hrows⟩
    | cons call rest ih =>
      intro s hgiven hrows hmem
      obtain ⟨hcall, hrest⟩ := forall_mem_cons.mp hmem
      have hcontents : ∀ content ∈ call.contents, content ∈ calls.flatMap Call.contents :=
        fun content hcontent => mem_flatMap.mpr ⟨call, hcall, hcontent⟩
      refine ih _ (hgiven.next hcontents) (hrows.next fun content hcontent content' hthere => ?_)
        hrest
      obtain ⟨hcontent', hid⟩ := hgiven _ content' hthere
      exact hfree content' hcontent' content (hcontents content hcontent)
        (ObjectId.blake3_of_of hid.symm)
  refine hrun calls new ?_ ⟨?_, ?_⟩ fun _ hcall => hcall
  · exact fun id content hcontent => nomatch hcontent
  · exact fun target id hrow => absurd hrow (Finset.notMem_empty _)
  · exact fun target id content hcontent => nomatch hcontent

/-- What is stored under the identifier of given content has its bytes. -/
lemma bytes_eq_of_stored [LawfulKeys] (hfree : CollisionFree calls) {content' : Content}
    (hgiven : content ∈ calls.flatMap Call.contents)
    (hstored : (after calls).blobs (ObjectId.of content.bytes) = some content') :
    content'.bytes = content.bytes := by
  obtain ⟨hcontent', hid⟩ := (given_rows_after hfree).1 _ content' hstored
  exact hfree content' hcontent' content hgiven (ObjectId.blake3_of_of hid.symm)

/-- The identifiers that link to a target are those of the objects with such a link. -/
def Indexed (s : Store) : Prop :=
  ∀ id o, s.get id = .ok o →
    ∀ target, id ∈ s.linkingTo target ↔ target ∈ o.links.map Link.target

lemma Rows.indexed (h : Rows s) : Indexed s := by
  intro id o hget target
  obtain ⟨ho, -, content, hcontent, hbytes⟩ := get_ok.mp hget
  have hread : Object.fromBytes content.bytes = .ok o := Object.fromBytes_ok.mpr ⟨hbytes, ho⟩
  rw [mem_linkingTo, ← targets_eq hread]
  constructor
  · intro hrow
    obtain ⟨content', hcontent', hreadable⟩ := h.sound target id hrow
    cases hcontent.symm.trans hcontent'
    exact hreadable o hread
  · exact h.complete target id content hcontent

lemma indexed_after [LawfulKeys] (hfree : CollisionFree calls) : Indexed (after calls) :=
  (given_rows_after hfree).2.indexed

/-! ### Storing objects that anybody may see -/

/-- An object that every store takes and returns. -/
structure Public (o : Object) : Prop where
  portable : o.Portable
  not_encrypted : o.payload.isEncrypted = false

section

variable {os : List Object} (hos : ∀ o ∈ os, Public o)
include hos

variable {id : ObjectId} {o : Object}

lemma after_inserts (calls : List Call) :
    after (calls ++ os.map .insert) = os.foldl put (after calls) := by
  have hrun : ∀ s : Store, (os.map Call.insert).foldl next s = os.foldl put s := by
    induction os with
    | nil => exact fun s => rfl
    | cons o os ih =>
      intro s
      obtain ⟨ho, hrest⟩ := forall_mem_cons.mp hos
      have hadmits : s.Admits o := ⟨ho.portable.id_eq, by simp [checkPrivate, ho.not_encrypted]⟩
      have hnext : s.next (.insert o) = s.put o := congrArg Prod.snd hadmits.insert_on
      rw [map_cons, foldl_cons, foldl_cons, hnext]
      exact ih hrest _
  rw [after, foldl_append]
  exact hrun _

omit [KeyPrimitives] hos in
lemma blobs_putAll_of_notMem {s : Store} (hid : id ∉ os.map Object.id) :
    (os.foldl put s).blobs id = s.blobs id := by
  induction os generalizing s with
  | nil => rfl
  | cons o os ih =>
    rw [map_cons, mem_cons, not_or] at hid
    rw [foldl_cons, ih hid.2]
    exact Function.update_of_ne hid.1 _ _

/-- What was stored under different identifiers is there. -/
lemma get_inserted (calls : List Call) (hnodup : (os.map Object.id).Nodup)
    (ho : o ∈ os) : (after (calls ++ os.map .insert)).get o.id = .ok o := by
  have hput : ∀ s : Store, (os.foldl put s).blobs o.id = some (.object o) := by
    clear hos
    induction os with
    | nil => cases ho
    | cons o' os ih =>
      intro s
      obtain ⟨hnot, hnodup⟩ := nodup_cons.mp hnodup
      rcases mem_cons.mp ho with rfl | ho
      · rw [foldl_cons, blobs_putAll_of_notMem hnot]
        exact Function.update_self _ _ _
      · exact ih hnodup ho _
  rw [after_inserts hos]
  exact get_ok.mpr ⟨(hos o ho).portable, rfl, _, hput _, rfl⟩

/-- A store that was given some objects holds these. -/
lemma get_inserted_iff (hnodup : (os.map Object.id).Nodup) :
    (after (os.map .insert)).get id = .ok o ↔ o ∈ os ∧ o.id = id := by
  constructor
  · intro hget
    have hmem : id ∈ os.map Object.id := by
      by_contra hnot
      obtain ⟨-, -, content, hcontent, -⟩ := get_ok.mp hget
      have hafter : after (os.map .insert) = os.foldl put (after []) := after_inserts hos []
      rw [hafter, blobs_putAll_of_notMem hnot] at hcontent
      cases hcontent
    obtain ⟨o', ho', rfl⟩ := mem_map.mp hmem
    cases hget.symm.trans (get_inserted hos [] hnodup ho')
    exact ⟨ho', rfl⟩
  · rintro ⟨ho, rfl⟩
    exact get_inserted hos [] hnodup ho

/-- Objects of different identifiers have different digests. -/
lemma collisionFree_inserts (hnodup : (os.map Object.id).Nodup) :
    CollisionFree (os.map .insert) := by
  have hcontents : (os.map Call.insert).flatMap Call.contents = os.map .object := by
    rw [flatMap_map]
    exact map_eq_flatMap.symm
  intro c hc c' hc' hdigest
  rw [hcontents] at hc hc'
  obtain ⟨o, ho, rfl⟩ := mem_map.mp hc
  obtain ⟨o', ho', rfl⟩ := mem_map.mp hc'
  have hid : o.id = o'.id := by
    rw [(hos o ho).portable.id_eq, (hos o' ho').portable.id_eq, ObjectId.of, ObjectId.of, multihash,
      multihash]
    exact congrArg (fun digest : Hash => ObjectId.mk ("z" ++ base58 ([0x1e, 32] ++ digest.bytes)))
      hdigest
  rw [inj_on_of_nodup_map hnodup ho ho' hid]

/-- What links to a target there are the objects with such a link. -/
lemma mem_linkingTo_inserted [LawfulKeys] (hnodup : (os.map Object.id).Nodup) {target : ObjectId} :
    id ∈ (after (os.map .insert)).linkingTo target ↔
      ∃ o ∈ os, o.id = id ∧ target ∈ o.links.map Link.target := by
  have hrows := (given_rows_after (collisionFree_inserts hos hnodup)).2
  constructor
  · intro hlinking
    obtain ⟨content, hcontent, -⟩ := hrows.sound target id (mem_linkingTo.mp hlinking)
    have hmem : id ∈ os.map Object.id := by
      by_contra hnot
      have hafter : after (os.map .insert) = os.foldl put (after []) := after_inserts hos []
      rw [hafter, blobs_putAll_of_notMem hnot] at hcontent
      cases hcontent
    obtain ⟨o, ho, rfl⟩ := mem_map.mp hmem
    have hget := (get_inserted_iff hos hnodup).mpr ⟨ho, rfl⟩
    exact ⟨o, ho, rfl, (hrows.indexed _ o hget target).mp hlinking⟩
  · rintro ⟨o, ho, rfl, htarget⟩
    have hget := (get_inserted_iff hos hnodup).mpr ⟨ho, rfl⟩
    exact (hrows.indexed _ o hget target).mpr htarget

/-- Different objects have different identifiers when their bytes do not collide. -/
lemma nodup_ids [LawfulKeys] {calls : List Call} (hfree : CollisionFree (calls ++ os.map .insert))
    (hnodup : os.Nodup) : (os.map Object.id).Nodup := by
  refine List.Nodup.map_on (fun o ho o' ho' hid => ?_) hnodup
  have hcontent : ∀ o ∈ os, .object o ∈ (calls ++ os.map Call.insert).flatMap Call.contents :=
    fun o ho => mem_flatMap.mpr
      ⟨.insert o, mem_append_right _ (mem_map_of_mem ho), mem_singleton_self _⟩
  have hdigest : blake3 o.toBytes = blake3 o'.toBytes := by
    refine ObjectId.blake3_of_of ?_
    rw [← (hos o ho).portable.id_eq, ← (hos o' ho').portable.id_eq, hid]
  have hbytes : o.toBytes = o'.toBytes := hfree _ (hcontent o ho) _ (hcontent o' ho') hdigest
  rw [(hos o ho).portable.eq_of_toBytes hbytes, ← hid]

end

end Store

end Mininet
