import Mininet.Identity.History
import Mininet.Objects.Object

/-!
# Objects are determined by their bytes

The decoder gives back an encoded object when that is within its limits. Here the other object need
not be: whatever has the bytes of an object within the limits is that object.
-/

namespace Mininet.Objects

open Codec Identity List

namespace ObjectType

def tag : ObjectType → UInt16
  | .wellKnown tag => tag
  | .custom _      => customTypeMarker

def name : ObjectType → Bytes
  | .wellKnown _ => []
  | .custom name => utf8 name

lemma encode_eq (t : ObjectType) : t.encode = toBeBytes t.tag ++ framed UInt32 t.name := by
  cases t <;> rfl

lemma Portable.length_name_le {t : ObjectType} (h : t.Portable) : t.name.length ≤ maxTypeBytes := by
  cases t with
  | wellKnown tag => simp [name]
  | custom name => exact h.2

/-- A type within the limits is not the custom type without a name, nor its twin. -/
lemma Portable.eq_of_encode {t t' : ObjectType} (h : t.Portable) (htag : t.tag = t'.tag)
    (hname : t.name = t'.name) : t = t' := by
  cases t with
  | wellKnown tag =>
    cases t' with
    | wellKnown tag' => exact congrArg wellKnown htag
    | custom name' => exact absurd htag h
  | custom name =>
    cases t' with
    | wellKnown tag' => exact absurd (utf8_injective (show utf8 name = utf8 "" from hname)) h.1
    | custom name' => exact congrArg custom (utf8_injective hname)

end ObjectType

/-- Links whose texts have lengths that fit are told apart by their encodings. -/
lemma Link.encode_append_inj {l l' : Link} {r s : Bytes} (hl : l.encode.length < 2 ^ 32)
    (hl' : l'.encode.length < 2 ^ 32) (h : l.encode ++ r = l'.encode ++ s) : l = l' ∧ r = s := by
  simp only [encode, length_append, length_framed] at hl hl'
  simp only [encode, append_assoc] at h
  obtain ⟨hrel, hrest⟩ := framed_append_inj (by omega) (by omega) h
  obtain ⟨htarget, hrest⟩ := framed_append_inj (by omega) (by omega) hrest
  refine ⟨?_, hrest⟩
  rw [Link.mk.injEq, ObjectId.mk.injEq]
  exact ⟨utf8_injective hrel, utf8_injective htarget⟩

lemma Payload.encode_append_inj {p p' : Payload} {r s : Bytes} (hp : p.bytes.length < 2 ^ 32)
    (hp' : p'.bytes.length < 2 ^ 32) (h : p.encode ++ r = p'.encode ++ s) : p = p' ∧ r = s := by
  cases p <;> cases p' <;> simp only [encode, append_assoc] at h
  case pub.pub =>
    obtain ⟨-, hbody⟩ := append_inj h rfl
    obtain ⟨rfl, hrest⟩ := framed_append_inj hp hp' hbody
    exact ⟨rfl, hrest⟩
  case encrypted.encrypted =>
    obtain ⟨-, hbody⟩ := append_inj h rfl
    obtain ⟨rfl, hrest⟩ := framed_append_inj hp hp' hbody
    exact ⟨rfl, hrest⟩
  all_goals exact absurd (append_inj h rfl).1 (by decide)

namespace Object

variable {o : Object} {o' : Object}

/-- What has the bytes of an object that is short is that object, but for the identifier. -/
lemma eq_of_toBytes (htype : o.objectType.Portable)
    (hlength : o.toBytes.length < 2 ^ 32) (h : o.toBytes = o'.toBytes) :
    o' = { o with id := o'.id } := by
  have hlength' : o'.toBytes.length < 2 ^ 32 := h ▸ hlength
  have hpayload : ∀ p : Payload, p.bytes.length ≤ p.encode.length := by
    intro p
    cases p <;> simp [Payload.encode, Payload.bytes] <;> omega
  have hp := hpayload o.payload
  have hp' := hpayload o'.payload
  simp only [toBytes, signingBytes, ObjectType.encode_eq, encodeSigs, length_append,
    length_framed] at hlength hlength'
  simp only [toBytes, signingBytes, ObjectType.encode_eq, encodeSigs, append_assoc] at h
  obtain ⟨-, h⟩ := append_inj h rfl
  obtain ⟨hsuite, h⟩ := append_inj h rfl
  obtain ⟨htag, h⟩ := append_inj h (by simp)
  obtain ⟨hname, h⟩ := framed_append_inj (by omega) (by omega) h
  obtain ⟨hhuman, h⟩ := framed_append_inj (by omega) (by omega) h
  obtain ⟨hdevice, h⟩ := framed_append_inj (by omega) (by omega) h
  obtain ⟨htimestamp, h⟩ := append_inj h (by simp)
  obtain ⟨hsequence, h⟩ := append_inj h (by simp)
  obtain ⟨hlinks, h⟩ := counted_append_inj (fun l => by simp [Link.encode, framed])
    (fun l l' r s hl hl' heq => Link.encode_append_inj hl hl' heq) (by omega) (by omega) h
  obtain ⟨hpayloads, h⟩ := Payload.encode_append_inj (by omega) (by omega) h
  rw [← append_nil (o.signatures.flatMap _), ← append_nil (o'.signatures.flatMap _)] at h
  obtain ⟨hsigs, -⟩ := counted_append_inj (fun s => by simp [encodeSig])
    (fun s t r r' _ _ heq => encodeSig_append_inj heq) (by omega) (by omega) h
  have hobject := htype.eq_of_encode (toBeBytes_injective htag) hname
  obtain ⟨id', suite', objectType', human', device', timestamp', sequence', links', payload',
    sigs'⟩ := o'
  rw [Object.mk.injEq]
  exact ⟨rfl, (tag_injective (singleton_inj.mp hsuite)).symm, hobject.symm,
    (Did.asStr_injective (utf8_injective hhuman)).symm,
    (Did.asStr_injective (utf8_injective hdevice)).symm, (toBeBytes_injective htimestamp).symm,
    (toBeBytes_injective hsequence).symm, hlinks.symm, hpayloads.symm, hsigs.symm⟩

/-- What the decoder returns is short. -/
lemma Portable.length_toBytes_lt [KeyPrimitives] (h : o.Portable) : o.toBytes.length < 2 ^ 32 := by
  have hlinks : (o.links.flatMap Link.encode).length ≤ maxLinks * 168 := by
    rw [length_flatMap]
    refine (sum_le_card_nsmul _ 168 fun n hn => ?_).trans ?_
    · obtain ⟨l, hl, rfl⟩ := mem_map.mp hn
      have hrel := (h.links.2 l hl).rel_length
      have htarget := (h.links.2 l hl).target_length
      simp only [maxRelBytes, maxIdBytes] at hrel htarget
      simp only [Link.encode, length_append, length_framed]
      omega
    · rw [length_map, smul_eq_mul]
      exact Nat.mul_le_mul_right _ h.links.1
  have hname := h.objectType.length_name_le
  have hsigs : (encodeSigs o.signatures).length ≤ 4 + maxSignatures * 3318 := by
    rw [encodeSigs, length_append, length_countBytes, length_flatMap]
    refine Nat.add_le_add_left ((sum_le_card_nsmul _ 3318 fun n hn => ?_).trans ?_) 4
    · obtain ⟨s, -, rfl⟩ := mem_map.mp hn
      have hsig := s.signature.length_eq
      cases hs : s.signature.suite <;> rw [hs, SignatureSuite.signatureLen] at hsig <;>
        simp [encodeSig, hsig]
    · rw [length_map, smul_eq_mul]
      exact Nat.mul_le_mul_right _ h.signatures.2
  have hpayload : o.payload.encode.length = 5 + o.payload.bytes.length := by
    cases o.payload <;> simp [Payload.encode, Payload.bytes] <;> omega
  have hhuman := h.authorHuman.2
  have hdevice := h.authorDevice.2
  have hbytes := h.payload
  simp only [maxLinks, maxTypeBytes, maxSignatures, maxDidBytes, maxPayloadBytes] at *
  simp only [toBytes, signingBytes, ObjectType.encode_eq, length_append, length_framed,
    length_toBeBytes, length_countBytes, length_singleton, hpayload]
  omega

lemma Portable.eq_of_toBytes [KeyPrimitives] (h : o.Portable)
    (heq : o.toBytes = o'.toBytes) : o' = { o with id := o'.id } :=
  Object.eq_of_toBytes h.objectType h.length_toBytes_lt heq

end Object

end Mininet.Objects
