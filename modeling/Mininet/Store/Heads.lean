import Mininet.Store.Index

/-!
# Heads

The slot of an author and a subject holds the sequence number and the identifier of the latest head
that was applied. The head itself is an object of the store like the others: what resolving a head
gives depends on whether it is still there.
-/

namespace Mininet.Store

open Codec Fallible Stateful Identity Objects

variable {o w : Object} {subject : String} {calls : List Call} {call : Call} {author : Did}
  {s : Store} {content : Content}

lemma notAfter_iff {slot : UInt64 × String} :
    notAfter o slot ↔ toLex (o.sequence.toNat, o.id.asStr) ≤ toLex (slot.1.toNat, slot.2) := by
  rw [Prod.Lex.toLex_le_toLex, UInt64.toNat_inj]
  rfl

lemma headSubject_ok : headSubject o = .ok subject ↔
      o.objectType = .head ∧ ¬ o.payload.isEncrypted ∧ ofUtf8 o.payload.bytes = some subject ∧
        ¬ (subject = "" ∨ maxSubjectBytes < (utf8 subject).length ∨
          ¬ (utf8 subject).all nameByte) ∧ o.links.map Link.rel = ["target"] := by
  simp only [headSubject, bind_ok, okOr_ok, failIf_ok, not_not, pure_ok, ne_eq]
  constructor
  · rintro ⟨⟨⟩, htype, ⟨⟩, hpublic, s, hs, ⟨⟩, hname, ⟨⟩, hlinks, rfl⟩
    exact ⟨htype, hpublic, hs, hname, hlinks⟩
  · rintro ⟨htype, hpublic, hs, hname, hlinks⟩
    exact ⟨(), htype, (), hpublic, subject, hs, (), hname, (), hlinks, rfl⟩

variable [KeyPrimitives]

/-! ### The heads applied in a run -/

/-- An object that was applied as a head of an author and a subject: the call succeeded. -/
def Applied (calls : List Call) (author : Did) (subject : String) (o : Object) : Prop :=
  o.authorHuman = author ∧ headSubject o = .ok subject ∧
    ∃ k state, calls[k]? = some (.applyHead o) ∧
      ((applyHead o).on (after (calls.take k))).1 = .ok state

lemma applied_concat : Applied (calls ++ [call]) author subject o ↔
      Applied calls author subject o ∨
        call = .applyHead o ∧ o.authorHuman = author ∧ headSubject o = .ok subject ∧
          ∃ state, ((applyHead o).on (after calls)).1 = .ok state := by
  constructor
  · rintro ⟨hauthor, hsubject, k, state, hcall, hstate⟩
    rcases Nat.lt_trichotomy k calls.length with hk | rfl | hk
    · rw [List.getElem?_append_left hk] at hcall
      rw [List.take_append_of_le_length hk.le] at hstate
      exact .inl ⟨hauthor, hsubject, k, state, hcall, hstate⟩
    · rw [List.getElem?_concat_length] at hcall
      rw [List.take_left] at hstate
      exact .inr ⟨Option.some.inj hcall, hauthor, hsubject, state, hstate⟩
    · rw [List.getElem?_eq_none (by simpa using hk)] at hcall
      cases hcall
  · rintro (⟨hauthor, hsubject, k, state, hcall, hstate⟩ |
      ⟨rfl, hauthor, hsubject, state, hstate⟩)
    · have hk := (List.getElem?_eq_some_iff.mp hcall).1
      refine ⟨hauthor, hsubject, k, state, ?_, ?_⟩
      · rw [List.getElem?_append_left hk, hcall]
      · rwa [List.take_append_of_le_length hk.le]
    · refine ⟨hauthor, hsubject, calls.length, state, List.getElem?_concat_length, ?_⟩
      rwa [List.take_left]

lemma Applied.mem_contents (h : Applied calls author subject o) :
    .object o ∈ calls.flatMap Call.contents := by
  obtain ⟨-, -, k, -, hcall, -⟩ := h
  exact List.mem_flatMap.mpr ⟨_, List.mem_of_getElem? hcall, List.mem_singleton_self _⟩

lemma Applied.id_eq (h : Applied calls author subject o) : o.id = ObjectId.of o.toBytes := by
  obtain ⟨-, -, k, state, -, hstate⟩ := h
  rcases applyHead_on (Prod.ext hstate rfl) with ⟨⟨e, herror⟩, -⟩ | ⟨-, -, hadmits, -⟩
  · cases herror
  · exact hadmits.id_eq

/-- A head has one link, to its target. -/
lemma Applied.exists_target (h : Applied calls author subject o) :
    ∃ target, o.links = [⟨"target", target⟩] := by
  obtain ⟨-, hsubject, -⟩ := h
  obtain ⟨-, -, -, -, hrels⟩ := headSubject_ok.mp hsubject
  obtain ⟨⟨rel, target⟩, hlinks, rfl⟩ := List.map_eq_singleton_iff.mp hrels
  exact ⟨target, hlinks⟩

/-- The latest of the heads that were applied: the greatest by sequence number and identifier. -/
structure Latest (calls : List Call) (author : Did) (subject : String) (w : Object) : Prop where
  applied : Applied calls author subject w
  greatest : ∀ o, Applied calls author subject o → notAfter o (w.sequence, w.id.asStr)

/-- Two that are latest have one sequence number and one identifier. -/
lemma Latest.stamp_eq {calls' : List Call} {w' : Object} (h : Latest calls author subject w)
    (h' : Latest calls' author subject w')
    (hsame : ∀ o, Applied calls author subject o ↔ Applied calls' author subject o) :
    w.sequence = w'.sequence ∧ w.id = w'.id := by
  have hle := notAfter_iff.mp (h.greatest w' ((hsame w').mpr h'.applied))
  have hge := notAfter_iff.mp (h'.greatest w ((hsame w).mp h.applied))
  obtain ⟨hsequence, hid⟩ := Prod.ext_iff.mp (toLex_inj.mp (le_antisymm hge hle))
  exact ⟨UInt64.toNat_inj.mp hsequence, ObjectId.asStr_injective hid⟩

/-! ### The slots -/

/-- What the slots hold after a run. -/
structure Headed (calls : List Call) : Prop where
  empty : ∀ author subject, (after calls).heads author subject = none →
    ∀ o, ¬ Applied calls author subject o
  slot : ∀ author subject bytes, (after calls).heads author subject = some bytes →
    ∃ w, Latest calls author subject w ∧ bytes = encodeSlot w.sequence w.id.asStr

lemma headed_nil : Headed [] where
  empty := by
    rintro author subject - o ⟨-, -, k, state, hcall, -⟩
    simp at hcall
  slot author subject bytes h := nomatch h

/-- A slot is as it was when its heads are. -/
lemma Headed.slot_of_same (h : Headed calls)
    (happlied : ∀ o, Applied (calls ++ [call]) author subject o ↔ Applied calls author subject o)
    {slot : Option Bytes} (hslot : (after calls).heads author subject = slot) :
    (slot = none → ∀ o, ¬ Applied (calls ++ [call]) author subject o) ∧
      ∀ bytes, slot = some bytes → ∃ w, Latest (calls ++ [call]) author subject w ∧
        bytes = encodeSlot w.sequence w.id.asStr := by
  refine ⟨fun hnone o => ?_, fun bytes hbytes => ?_⟩
  · rw [happlied]
    exact h.empty author subject (hslot.trans hnone) o
  · obtain ⟨w, hw, hsame⟩ := h.slot author subject bytes (hslot.trans hbytes)
    refine ⟨w, ⟨(happlied w).mpr hw.applied, fun o ho => ?_⟩, hsame⟩
    exact hw.greatest o ((happlied o).mp ho)

/-- A call that changes no slot and applies nothing. -/
lemma Headed.concat_of_same (h : Headed calls)
    (hheads : ((after calls).next call).heads = (after calls).heads)
    (hnone : ∀ o, call = .applyHead o → ∀ state, ((applyHead o).on (after calls)).1 ≠ .ok state) :
    Headed (calls ++ [call]) := by
  have hsame : ∀ author subject o, Applied (calls ++ [call]) author subject o ↔
      Applied calls author subject o := by
    intro author subject o
    rw [applied_concat, or_iff_left]
    rintro ⟨hcall, -, -, state, hstate⟩
    exact hnone o hcall state hstate
  constructor
  · intro author subject hslot
    rw [after_concat, hheads] at hslot
    exact (h.slot_of_same (hsame author subject) rfl).1 hslot
  · intro author subject bytes hslot
    rw [after_concat, hheads] at hslot
    exact (h.slot_of_same (hsame author subject) rfl).2 bytes hslot

omit [KeyPrimitives] in
@[simp] lemma heads_removeAll (objects : List Object) (s : Store) :
    (objects.foldl remove s).heads = s.heads := by
  induction objects generalizing s with
  | nil => rfl
  | cons o objects ih => exact ih (s.remove o)

/-- Only applying a head changes a slot. -/
lemma heads_next (h : ∀ o, call ≠ .applyHead o) : (s.next call).heads = s.heads := by
  generalize s.next call = s', stepped_next s call = hstep
  cases hstep with
  | stored | applied => exact absurd rfl (h _)
  | evicted => exact heads_removeAll _ _
  | _ => rfl

omit [KeyPrimitives] in
lemma heads_setHead (s : Store) (o : Object) (subject : String) :
    (s.setHead o subject).heads o.authorHuman subject =
      some (encodeSlot o.sequence o.id.asStr) := by
  simp [setHead]

omit [KeyPrimitives] in
lemma heads_setHead_of_ne {subject' : String} (h : ¬ (author = o.authorHuman ∧ subject' = subject)) :
    (s.setHead o subject).heads author subject' = s.heads author subject' := by
  by_cases hauthor : author = o.authorHuman
  · subst hauthor
    simp [setHead, Function.update_of_ne fun hs => h ⟨rfl, hs⟩]
  · simp [setHead, Function.update_of_ne hauthor]

/-- What a slot that a head is compared with holds. -/
lemma Headed.slotKeeps_eq (h : Headed calls) {keeps : Bool}
    (hkeeps : ((after calls).put o).slotKeeps o subject = .ok keeps) :
    ((after calls).heads o.authorHuman subject = none ∧ keeps = false) ∨
      ∃ w, Latest calls o.authorHuman subject w ∧
        (after calls).heads o.authorHuman subject =
          some (encodeSlot w.sequence w.id.asStr) ∧
        keeps = decide (notAfter o (w.sequence, w.id.asStr)) := by
  have hslot : ((after calls).put o).heads o.authorHuman subject =
      (after calls).heads o.authorHuman subject := rfl
  rw [slotKeeps, hslot] at hkeeps
  split at hkeeps
  next existing hexisting =>
    obtain ⟨w, hw, rfl⟩ := h.slot _ _ _ hexisting
    rw [decodeSlot_encodeSlot] at hkeeps
    cases hkeeps
    exact .inr ⟨w, hw, hexisting, rfl⟩
  next hnone =>
    cases hkeeps
    exact .inl ⟨hnone, rfl⟩

/-- One call keeps the slots right. -/
lemma Headed.concat (h : Headed calls) (call : Call) : Headed (calls ++ [call]) := by
  by_cases happly : ∃ o, call = .applyHead o
  swap
  · exact h.concat_of_same (heads_next fun o ho => happly ⟨o, ho⟩)
      fun o ho => absurd ⟨o, ho⟩ happly
  obtain ⟨o, rfl⟩ := happly
  obtain ⟨⟨r, s'⟩, hon⟩ : ∃ out, (applyHead o).on (after calls) = out := ⟨_, rfl⟩
  have hnext : (after calls).next (.applyHead o) = s' :=
    (snd_on_map _ _ _).trans (congrArg Prod.snd hon)
  rcases applyHead_on hon with ⟨⟨e, rfl⟩, hs'⟩ | ⟨subject, hsubject, hadmits, hcase⟩
  · -- a failed call may have stored the object, and no more
    refine h.concat_of_same ?_ fun o' ho' state hstate => ?_
    · rw [hnext]
      rcases hs' with rfl | ⟨-, rfl⟩ <;> rfl
    · cases ho'
      rw [hon] at hstate
      cases hstate
  have hnew : ∀ author subject' o', Applied (calls ++ [.applyHead o]) author subject' o' ↔
      Applied calls author subject' o' ∨
        o' = o ∧ author = o.authorHuman ∧ subject' = subject := by
    intro author subject' o'
    have hok : ∃ state, r = .ok state := by
      rcases hcase with ⟨hr, -⟩ | ⟨hr, -⟩
      · exact ⟨_, hr⟩
      · exact ⟨_, hr⟩
    rw [applied_concat]
    refine or_congr_right ⟨?_, ?_⟩
    · rintro ⟨hcall, rfl, hsubject', -⟩
      cases hcall
      exact ⟨rfl, rfl, Except.ok.inj (hsubject'.symm.trans hsubject)⟩
    · rintro ⟨rfl, rfl, rfl⟩
      exact ⟨rfl, rfl, hsubject, by rw [hon]; exact hok⟩
  -- the slots of the others are as they were
  have hother : ∀ author subject', ¬ (author = o.authorHuman ∧ subject' = subject) →
      (∀ o', Applied (calls ++ [.applyHead o]) author subject' o' ↔
        Applied calls author subject' o') ∧
      s'.heads author subject' = (after calls).heads author subject' := by
    intro author subject' hne
    refine ⟨fun o' => ?_, ?_⟩
    · rw [hnew, or_iff_left fun hsame => hne hsame.2]
    · rcases hcase with ⟨-, -, rfl⟩ | ⟨-, -, rfl⟩
      · rfl
      · exact heads_setHead_of_ne hne
  have hown : ∃ w, Latest (calls ++ [.applyHead o]) o.authorHuman subject w ∧
      s'.heads o.authorHuman subject = some (encodeSlot w.sequence w.id.asStr) := by
    rcases hcase with ⟨-, hkeeps, rfl⟩ | ⟨-, hkeeps, rfl⟩
    · obtain ⟨-, hfalse⟩ | ⟨w, hw, hslot, hafter⟩ := h.slotKeeps_eq hkeeps
      · cases hfalse
      refine ⟨w, ⟨(hnew _ _ _).mpr (.inl hw.applied), fun o' ho' => ?_⟩, hslot⟩
      rcases (hnew _ _ _).mp ho' with hold | ⟨rfl, -⟩
      · exact hw.greatest o' hold
      · exact of_decide_eq_true hafter.symm
    · refine ⟨o, ⟨(hnew _ _ _).mpr (.inr ⟨rfl, rfl, rfl⟩), fun o' ho' => ?_⟩, heads_setHead _ _ _⟩
      rcases (hnew _ _ _).mp ho' with hold | ⟨rfl, -⟩
      swap
      · exact notAfter_iff.mpr le_rfl
      rcases h.slotKeeps_eq hkeeps with ⟨hnone, -⟩ | ⟨w, hw, -, hafter⟩
      · exact absurd hold (h.empty _ _ hnone o')
      · have hlt := of_decide_eq_false hafter.symm
        rw [notAfter_iff, not_le] at hlt
        exact notAfter_iff.mpr ((notAfter_iff.mp (hw.greatest o' hold)).trans hlt.le)
  constructor
  · intro author subject' hslot
    rw [after_concat, hnext] at hslot
    by_cases hsame : author = o.authorHuman ∧ subject' = subject
    · obtain ⟨rfl, rfl⟩ := hsame
      obtain ⟨w, -, hw⟩ := hown
      rw [hw] at hslot
      cases hslot
    · obtain ⟨happlied, hheads⟩ := hother author subject' hsame
      exact (h.slot_of_same happlied rfl).1 (hheads ▸ hslot)
  · intro author subject' bytes hslot
    rw [after_concat, hnext] at hslot
    by_cases hsame : author = o.authorHuman ∧ subject' = subject
    · obtain ⟨rfl, rfl⟩ := hsame
      obtain ⟨w, hw, hbytes⟩ := hown
      exact ⟨w, hw, Option.some.inj (hslot.symm.trans hbytes)⟩
    · obtain ⟨happlied, hheads⟩ := hother author subject' hsame
      exact (h.slot_of_same happlied rfl).2 bytes (hheads ▸ hslot)

/-- After every run the slots hold the latest heads. -/
lemma headed (calls : List Call) : Headed calls := by
  induction calls using List.reverseRecOn with
  | nil => exact headed_nil
  | append_singleton calls call ih => exact ih.concat call

/-! ### Resolving -/

variable [LawfulKeys] {id : ObjectId}

/-- Resolving reads the latest head from the store. -/
lemma resolveHead_eq (h : Latest calls author subject w) :
    (after calls).resolveHead author subject =
      ((after calls).get w.id).map fun head => head.links.head?.map Link.target := by
  cases hslot : (after calls).heads author subject with
  | none => exact absurd h.applied ((headed calls).empty author subject hslot w)
  | some bytes =>
    obtain ⟨w', hw', rfl⟩ := (headed calls).slot author subject bytes hslot
    obtain ⟨-, hid⟩ := h.stamp_eq hw' fun _ => Iff.rfl
    have hvalid : ObjectId.parse w'.id.asStr = .ok w'.id := by
      rw [hw'.applied.id_eq]
      exact ObjectId.valid_of _
    rw [resolveHead, hslot, hid]
    simp only [decodeSlot_encodeSlot]
    change ((ObjectId.parse w'.id.asStr).mapError StoreError.object >>= _) = _
    rw [hvalid]
    change ((after calls).get w'.id >>= _) = _
    cases (after calls).get w'.id <;> rfl

/-- What is stored under the identifier of a head has the bytes of the head. -/
lemma Applied.bytes_eq (hfree : CollisionFree calls) (h : Applied calls author subject w)
    (hcontent : (after calls).blobs w.id = some content) : content.bytes = w.toBytes := by
  rw [h.id_eq] at hcontent
  exact bytes_eq_of_stored hfree h.mem_contents hcontent

/-- The latest head is resolved when it is there and can be read, and not otherwise. -/
lemma resolveHead_ok (hfree : CollisionFree calls) {target : ObjectId}
    (h : Latest calls author subject w) (htarget : w.links = [⟨"target", target⟩]) :
    (after calls).resolveHead author subject = .ok (some target) ↔
      (after calls).contains w.id = true ∧ w.Portable := by
  rw [resolveHead_eq h, map_ok, contains, Option.isSome_iff_exists]
  constructor
  · rintro ⟨head, hget, -⟩
    obtain ⟨hhead, hid, content, hcontent, hbytes⟩ := get_ok.mp hget
    rw [h.applied.bytes_eq hfree hcontent] at hbytes
    have hsame := hhead.eq_of_toBytes hbytes.symm
    rw [← hid] at hsame
    exact ⟨⟨content, hcontent⟩, by rwa [hsame]⟩
  · rintro ⟨⟨content, hcontent⟩, hw⟩
    refine ⟨w, get_ok.mpr ⟨hw, rfl, content, hcontent, ?_⟩, by rw [htarget]; rfl⟩
    exact h.applied.bytes_eq hfree hcontent

omit [LawfulKeys] in
/-- What is found under an identifier depends on the bytes there. -/
lemma get_congr {s' : Store} {content' : Content} (h : s.blobs id = some content)
    (h' : s'.blobs id = some content') (hbytes : content.bytes = content'.bytes) :
    s.get id = s'.get id := by
  rw [get, get, h, h']
  simp only [hbytes]

omit [LawfulKeys] in
lemma get_ne_notFound (h : s.blobs id = some content) : s.get id ≠ .error .notFound := by
  rw [get, h]
  dsimp only
  cases Object.fromBytes content.bytes with
  | error e => simp [Except.mapError, bind, Except.bind]
  | ok o => by_cases hid : o.id = id <;> simp [Except.mapError, bind, Except.bind, failIf, hid]

omit [LawfulKeys] in
/-- Either nothing was applied, or there is a latest head. -/
lemma resolveHead_none_or (calls : List Call) (author : Did) (subject : String) :
    (∀ o, ¬ Applied calls author subject o) ∧
        (after calls).resolveHead author subject = .ok none ∨
      ∃ w, Latest calls author subject w := by
  cases hslot : (after calls).heads author subject with
  | none =>
    exact .inl ⟨(headed calls).empty author subject hslot, by rw [resolveHead, hslot]⟩
  | some bytes =>
    obtain ⟨w, hw, -⟩ := (headed calls).slot author subject bytes hslot
    exact .inr ⟨w, hw⟩

lemma resolveHead_eq_notFound (h : Latest calls author subject w) :
    (after calls).resolveHead author subject = .error .notFound ↔
      (after calls).contains w.id = false := by
  rw [resolveHead_eq h, contains]
  cases hcontent : (after calls).blobs w.id with
  | none => simp [get, hcontent, Except.map]
  | some content =>
    have hget := get_ne_notFound hcontent
    cases hread : (after calls).get w.id with
    | error e =>
      rw [hread] at hget
      simpa [Except.map] using hget
    | ok o => simp [Except.map]

/-- Heads resolve to the target of the latest one exactly when it is still stored and can be read,
and two stores that applied the same heads agree exactly when they store it both or neither. -/
theorem resolveHead_iff {calls calls' : List Call} (hfree : CollisionFree (calls ++ calls'))
    (author : Did) (subject : String) :
    ((∀ o, ¬ Applied calls author subject o) ∧
        (after calls).resolveHead author subject = .ok none ∨
      ∃ w target, Latest calls author subject w ∧ w.links = [⟨"target", target⟩] ∧
        ((after calls).resolveHead author subject = .ok (some target) ↔
          (after calls).contains w.id = true ∧ w.Portable)) ∧
    ((∀ o, Applied calls author subject o ↔ Applied calls' author subject o) →
      ((after calls).resolveHead author subject = (after calls').resolveHead author subject ↔
        ∀ w, Latest calls author subject w →
          (after calls).contains w.id = (after calls').contains w.id)) := by
  refine ⟨(resolveHead_none_or calls author subject).imp_right ?_, fun hsame => ?_⟩
  · rintro ⟨w, hw⟩
    obtain ⟨target, htarget⟩ := hw.applied.exists_target
    exact ⟨w, target, hw, htarget, resolveHead_ok hfree.left hw htarget⟩
  have hlatest : ∀ {w}, Latest calls author subject w → Latest calls' author subject w :=
    fun {w} hw => ⟨(hsame w).mp hw.applied, fun o ho => hw.greatest o ((hsame o).mpr ho)⟩
  constructor
  · intro heq w hw
    have hmissing := resolveHead_eq_notFound hw
    rw [heq, resolveHead_eq_notFound (hlatest hw)] at hmissing
    cases hstored : (after calls).contains w.id with
    | false => exact (hmissing.mpr hstored).symm
    | true =>
      refine (Bool.eq_true_of_not_eq_false fun hfalse => ?_).symm
      cases hstored.symm.trans (hmissing.mp hfalse)
  · intro hstored
    rcases resolveHead_none_or calls author subject with ⟨hnone, hresolve⟩ | ⟨w, hw⟩
    · rcases resolveHead_none_or calls' author subject with ⟨-, hresolve'⟩ | ⟨w, hw⟩
      · rw [hresolve, hresolve']
      · exact absurd ((hsame w).mpr hw.applied) (hnone w)
    have hboth := hstored w hw
    cases hcontent : (after calls).blobs w.id with
    | none =>
      have hmissing : (after calls).contains w.id = false := by rw [contains, hcontent]; rfl
      rw [(resolveHead_eq_notFound hw).mpr hmissing,
        (resolveHead_eq_notFound (hlatest hw)).mpr (hboth.symm.trans hmissing)]
    | some content =>
      rw [contains, contains, hcontent] at hboth
      obtain ⟨content', hcontent'⟩ := Option.isSome_iff_exists.mp hboth.symm
      rw [resolveHead_eq hw, resolveHead_eq (hlatest hw), get_congr hcontent hcontent']
      rw [hw.applied.bytes_eq hfree.left hcontent, (hlatest hw).applied.bytes_eq hfree.right hcontent']

/-! ### Sample heads -/

omit [LawfulKeys] in
/-- What applying the first head of a subject does. -/
lemma applyHead_on_of_none (hsubject : headSubject o = .ok subject) (hadmits : s.Admits o)
    (hnone : s.heads o.authorHuman subject = none) :
    (applyHead o).on s = (.ok .applied, (s.put o).setHead o subject) := by
  have hkeeps : s.slotKeeps o subject = .ok false := by rw [slotKeeps, hnone]
  exact (hadmits.applyHead_on hsubject hkeeps).trans rfl

omit [LawfulKeys] in
/-- An object that nothing else links to is evicted. -/
lemma next_evictCached_singleton (h : s.evictable [o.id] o.id = .ok (some o)) :
    s.next (.evictCached [o.id]) = s.remove o := by
  have hmapM : [o.id].mapM (s.evictable [o.id]) = .ok [some o] := by
    rw [List.mapM_cons, h]
    rfl
  refine (snd_on_map _ _ _).trans ?_
  change ((check ([o.id].mapM (s.evictable [o.id])) >>= _ :
    InPlace Store StoreError EvictReport).on s).2 = _
  rw [hmapM]
  rfl

end Mininet.Store

namespace Mininet

open Codec Fallible Stateful Identity Objects Store

lemma exists_sample_head :
    ∃ o target, @Object.Portable .sample o ∧ headSubject o = .ok "main" ∧
      o.links = [⟨"target", target⟩] ∧ o.payload.isEncrypted = false := by
  let := KeyPrimitives.sample
  have := lawfulKeys_sample
  obtain ⟨c, o, -, hdid, hcurrent, ho⟩ := exists_sample_signed
    (b := ⟨.head, 0, 0, [⟨"target", ObjectId.of []⟩], .pub (utf8 "main")⟩) (by decide +kernel)
  have htarget : ∀ l ∈ [Link.mk "target" (ObjectId.of [])], l.target.Valid :=
    List.forall_mem_singleton.mpr (ObjectId.valid_of [])
  refine ⟨o, ObjectId.of [], (ObjectBuilder.portable_iff hdid hdid htarget ho).mpr ?_, ?_⟩
  · exact ⟨nofun, List.forall_mem_singleton.mpr (by decide), by rw [hcurrent]; decide⟩
  · obtain ⟨-, -, -, key, -, sigs, -, rfl⟩ := ObjectBuilder.sign_ok.mp ho
    refine ⟨?_, rfl, rfl⟩
    exact headSubject_ok.mpr ⟨rfl, Bool.false_ne_true, ofUtf8_utf8 "main", by decide, rfl⟩

section

variable [KeyPrimitives]

lemma admits_new_of_portable {o : Object} (ho : o.Portable)
    (hpublic : o.payload.isEncrypted = false) : Store.new.Admits o :=
  ⟨ho.id_eq, by rw [checkPrivate, if_neg (by simp [hpublic])]⟩

end

/-- The first head of a subject resolves. -/
theorem sample_resolveHead :
    ∃ o target, o.links = [⟨"target", target⟩] ∧
      @resolveHead .sample (@after .sample [.applyHead o]) o.authorHuman "main" =
        .ok (some target) := by
  let := KeyPrimitives.sample
  have := lawfulKeys_sample
  obtain ⟨o, target, ho, hsubject, htarget, hpublic⟩ := exists_sample_head
  have hon := applyHead_on_of_none hsubject (admits_new_of_portable ho hpublic) rfl
  have happlied : Applied [.applyHead o] o.authorHuman "main" o :=
    ⟨rfl, hsubject, 0, .applied, rfl, congrArg Prod.fst hon⟩
  have hfree : Store.CollisionFree ([Call.applyHead o] ++ []) := by
    intro a ha b hb _
    obtain rfl : a = .object o := by simpa [Call.contents] using ha
    obtain rfl : b = .object o := by simpa [Call.contents] using hb
    rfl
  rcases (resolveHead_iff hfree o.authorHuman "main").1 with
    ⟨hnone, -⟩ | ⟨w, target', hw, htarget', hiff⟩
  · exact absurd happlied (hnone o)
  obtain rfl : w = o := by simpa [Call.contents] using hw.applied.mem_contents
  refine ⟨w, target', htarget', hiff.mpr ⟨?_, ho⟩⟩
  have hafter : after [.applyHead w] = (Store.new.put w).setHead w "main" :=
    (snd_on_map _ _ _).trans (congrArg Prod.snd hon)
  rw [hafter]
  simp [contains, setHead, put]

/-- A head that nothing links to is evicted as any object, and does not resolve any more. -/
theorem sample_head_evicted :
    ∃ o target, o.links = [⟨"target", target⟩] ∧
      @Applied .sample [.applyHead o, .evictCached [o.id]] o.authorHuman "main" o ∧
      @resolveHead .sample (@after .sample [.applyHead o, .evictCached [o.id]])
        o.authorHuman "main" = .error .notFound := by
  let := KeyPrimitives.sample
  have := lawfulKeys_sample
  obtain ⟨o, target, ho, hsubject, htarget, hpublic⟩ := exists_sample_head
  have hon := applyHead_on_of_none hsubject (admits_new_of_portable ho hpublic) rfl
  have happlied : Applied [.applyHead o, .evictCached [o.id]] o.authorHuman "main" o :=
    ⟨rfl, hsubject, 0, .applied, rfl, congrArg Prod.fst hon⟩
  have hevictable : ((Store.new.put o).setHead o "main").evictable [o.id] o.id =
      .ok (some o) := by
    have hget : ((Store.new.put o).setHead o "main").get o.id = .ok o :=
      get_ok.mpr ⟨ho, rfl, .object o, by simp [setHead, put], rfl⟩
    rw [evictable, hget]
    refine bind_ok.mpr ⟨.ephemeralCache, rfl, failIf_bind_ok.mpr ⟨by simp [hpublic], ?_⟩⟩
    refine failIf_bind_ok.mpr ⟨?_, rfl⟩
    rintro ⟨linker, hlinker, hother⟩
    rw [mem_linkingTo] at hlinker
    obtain ⟨-, rfl⟩ : _ ∧ linker = o.id := by
      simpa [setHead, put, new, htarget] using hlinker
    exact hother (List.mem_singleton_self _)
  have hafter : after [.applyHead o, .evictCached [o.id]] =
      ((Store.new.put o).setHead o "main").remove o := by
    rw [← next_evictCached_singleton hevictable]
    exact congrArg (Store.next · _) ((snd_on_map _ _ _).trans (congrArg Prod.snd hon))
  obtain ⟨hnone, -⟩ | ⟨w, hw⟩ := resolveHead_none_or
    [.applyHead o, .evictCached [o.id]] o.authorHuman "main"
  · exact absurd happlied (hnone o)
  obtain rfl : w = o := by simpa [Call.contents] using hw.applied.mem_contents
  refine ⟨w, target, htarget, happlied, (resolveHead_eq_notFound hw).mpr ?_⟩
  rw [hafter]
  simp [contains, remove]

end Mininet
