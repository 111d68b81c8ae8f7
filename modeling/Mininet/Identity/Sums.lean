import Mininet.Identity.Delegation

/-!
# Different identities

To evaluate what many identities do together, as many of them are needed as are wanted. Here a
digest repeats the sum of a message, so that a byte that can be chosen freely tells identities
apart.
-/

namespace Mininet.Identity

open Codec Fallible

/-- A digest that repeats the sum of a message. -/
def checksum (bs : Bytes) : Hash := Vector.replicate 32 bs.sum

/-- Keys to evaluate the model with: a key signs with itself and the message's checksum. -/
@[reducible] def KeyPrimitives.uncheckedSums : KeyPrimitives where
  toPrimitives := {
    Primitives.sample with
    blake3 := checksum
    ed25519Verify := fun key message signature =>
      decide (signature = key ++ (checksum message).bytes)
    mlDsa65Verify := fun _ _ _ => false }
  base58 := latin
  base58Decode := unlatin
  ed25519Public seed := seed
  ed25519Sign seed message := seed ++ checksum message
  mlDsa65Public _ := Vector.replicate 1952 0

@[reducible] def KeyPrimitives.sums : KeyPrimitives :=
  { KeyPrimitives.uncheckedSums with
    validateScid := fun scid => do
      let bytes ← @decodeMultibase .uncheckedSums scid
      let _ ← Multihash.fromBytes bytes
      return () }

lemma lawfulKeys_sums : @LawfulKeys .sums := by
  let := KeyPrimitives.sums
  refine ⟨unlatin_latin, latin_of_unlatin, fun bs => (utf8_latin bs).1,
    fun bs => (utf8_latin bs).2.1, fun bs => (utf8_latin bs).2.2, fun _ => rfl, fun _ => rfl,
    fun seed message => ?_⟩
  exact decide_eq_true (Vector.toList_append)

end Mininet.Identity
