import Mathlib.Order.PiLex
import Mininet.Forge.Release

/-!
# Versions of releases

A release names its version as a text. The versions that can be compared are dotted numbers, and a
version is above another when it is so in the lexicographic order of their components, the missing
ones being zero. A device moves from a release to another only when the version goes up.
-/

namespace Mininet.Forge

open Codec Fallible Identity Objects

/-- The components of a version. -/
structure Version where
  components : List UInt32
  deriving DecidableEq

namespace Version

def maxVersionComponents : ℕ := 8

/-- Take one more decimal digit, within 32 bits. -/
def pushDigit (n : UInt32) (c : Char) : Except ForgeError UInt32 := do
  failIf (¬ c.isDigit) .badVersion
  let m := 10 * n.toNat + (c.toNat - '0'.toNat)
  failIf (2 ^ 32 ≤ m) .badVersion
  return UInt32.ofNat m

/-- Read a number as the standard library does, which accepts a sign in front of it. -/
def parseU32 : List Char → Except ForgeError UInt32
  | []            => .error .badVersion
  | ['+']         => .error .badVersion
  | '+' :: digits => digits.foldlM pushDigit 0
  | digits        => digits.foldlM pushDigit 0

def parseComponent (part : List Char) : Except ForgeError UInt32 := do
  failIf (part = [] ∨ (1 < part.length ∧ part.head? = some '0')) .badVersion
  parseU32 part

def parse (s : String) : Except ForgeError Version := do
  failIf (s = "") .badVersion
  let parts := s.toList.splitOn '.'
  failIf (parts = [] ∨ maxVersionComponents < parts.length) .badVersion
  let components ← parts.mapM parseComponent
  return ⟨components⟩

/-- The components up to a length, with zeros for those that are missing. -/
def resize (v : Version) (len : ℕ) : List UInt32 :=
  v.components ++ List.replicate (len - v.components.length) 0

/-- The components of a version as a sequence, in the lexicographic order. -/
def padded (v : Version) : Lex (ℕ → ℕ) := toLex fun k => (v.components.getD k 0).toNat

variable {v : Version} {len : ℕ}

lemma getElem_resize {k : ℕ} (hk : k < (v.resize len).length) :
    (v.resize len)[k] = v.components.getD k 0 := by
  simp only [resize, List.getElem_append, List.getElem_replicate]
  split
  next hlt => rw [List.getD_eq_getElem _ _ hlt]
  next hge => rw [List.getD_eq_default _ _ (not_lt.mp hge)]

lemma length_resize (hle : v.components.length ≤ len) : (v.resize len).length = len := by
  rw [resize, List.length_append, List.length_replicate, Nat.add_sub_cancel' hle]

/-- Versions that are filled up to one length are compared as sequences. -/
lemma resize_lt_iff {w : Version} (hv : v.components.length ≤ len) (hw : w.components.length ≤ len) :
    v.resize len < w.resize len ↔ v.padded < w.padded := by
  rw [List.lt_iff_exists]
  constructor
  · rintro (⟨-, hlt⟩ | ⟨k, hk, hk', hsame, hlt⟩)
    · rw [length_resize hv, length_resize hw] at hlt
      exact absurd hlt (lt_irrefl _)
    refine ⟨k, fun j hj => ?_, ?_⟩
    · have heq := hsame j hj
      rw [getElem_resize, getElem_resize] at heq
      exact congrArg UInt32.toNat heq
    · rw [getElem_resize, getElem_resize] at hlt
      exact UInt32.lt_iff_toNat_lt.mp hlt
  · rintro ⟨k, hsame, hlt⟩
    change (v.components.getD k 0).toNat < (w.components.getD k 0).toNat at hlt
    -- past the length both components are zero
    have hk : k < len := by
      by_contra hge
      rw [List.getD_eq_default _ _ (hw.trans (not_lt.mp hge))] at hlt
      exact absurd hlt (Nat.not_lt_zero _)
    refine .inr ⟨k, by rwa [length_resize hv], by rwa [length_resize hw], fun j hj => ?_, ?_⟩
    · rw [getElem_resize, getElem_resize]
      exact UInt32.toNat_inj.mp (hsame j hj)
    · rw [getElem_resize, getElem_resize]
      exact UInt32.lt_iff_toNat_lt.mpr hlt

end Version

def checkNoRollback (running : Option Version) (candidate : Version) : Except ForgeError Unit :=
  match running with
  | none         => .ok ()
  | some running =>
    let len := max running.components.length candidate.components.length
    failIf (candidate.resize len ≤ running.resize len) .rollbackRejected

/-- What is accepted after a version is above it. -/
lemma checkNoRollback_ok {running candidate : Version} :
    checkNoRollback (some running) candidate = .ok () ↔ running.padded < candidate.padded := by
  rw [checkNoRollback, failIf_ok, List.not_le]
  exact Version.resize_lt_iff (le_max_left _ _) (le_max_right _ _)

section

variable [KeyPrimitives]

/-- The version of a release that is stored. -/
def releaseVersion (s : Store) (releaseId : ObjectId) : Except ForgeError Version := do
  let rel ← (s.get releaseId).mapError .store
  failIf (rel.objectType ≠ .release) .badObject
  let (version, _, _, _) ← parseReleasePayload rel
  Version.parse version

end

end Mininet.Forge
