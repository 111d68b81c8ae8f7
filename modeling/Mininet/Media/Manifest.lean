import Mininet.Store.Operations

/-!
# Manifests

A large payload is stored in chunks, and a manifest lists them with the length and the digest of the
whole. What is assembled from the store is what the manifest says.
-/

namespace Mininet.Media

open Codec Fallible Identity Objects

def chunkSize : ℕ := 1024 * 1024

def maxChunks : ℕ := maxLinks

def chunkType : String := "mini/chunk"

def maxContentTypeBytes : ℕ := 128

def maxTotalLen : ℕ := maxChunks * chunkSize

def mediaManifest : ObjectType := .wellKnown 6

/-- Why a media operation failed. -/
inductive MediaError where
  | badManifest
  | badChunk
  | digestMismatch
  | incomplete
  | store (e : StoreError)
  deriving DecidableEq

structure Manifest where
  id : ObjectId
  contentType : String
  totalLen : UInt64
  digest : Bytes
  chunks : List ObjectId
  deriving DecidableEq

/-- Read the content type, the length and the digest. -/
def manifestPayload : Reader MediaError (String × UInt64 × Bytes) := do
  let raw ← readFramed .badManifest .badManifest UInt32 maxContentTypeBytes
  let contentType ← lift (okOr (ofUtf8 raw) .badManifest)
  let totalLen ← word .badManifest UInt64
  let digest ← take .badManifest 32
  return (contentType, totalLen, digest)

def readManifest (o : Object) : Except MediaError Manifest := do
  failIf (o.objectType ≠ mediaManifest) .badManifest
  failIf o.payload.isEncrypted .badManifest
  let (contentType, totalLen, digest) ← whole manifestPayload .badManifest o.payload.bytes
  let chunks := (o.links.filter fun l => l.rel = "chunk").map Link.target
  failIf (chunks = [] ∨ maxChunks < chunks.length) .badManifest
  -- no more than the chunks can carry
  failIf (maxTotalLen < totalLen.toNat ∨ chunks.length * chunkSize < totalLen.toNat) .badManifest
  return ⟨o.id, contentType, totalLen, digest, chunks⟩

/-- The chunks that are still to be fetched. -/
def missingChunks (s : Store) (manifest : Manifest) : List ObjectId :=
  manifest.chunks.filter fun c => !s.contains c

section

variable [KeyPrimitives]

def takeChunk (s : Store) (cap : ℕ) (out : Bytes) (c : ObjectId) : Except MediaError Bytes := do
  let o ← (s.get c).mapError .store
  failIf (o.objectType ≠ .custom chunkType) .badChunk
  match o.payload with
  | .pub bytes => do
    failIf (chunkSize < bytes.length ∨ cap < out.length + bytes.length) .digestMismatch
    return out ++ bytes
  | .encrypted _ => .error .badChunk

def assemble (s : Store) (manifest : Manifest) : Except MediaError Bytes := do
  failIf (missingChunks s manifest ≠ []) .incomplete
  let cap := min manifest.totalLen.toNat maxTotalLen
  let out ← manifest.chunks.foldlM (takeChunk s cap) []
  failIf (UInt64.ofNat out.length ≠ manifest.totalLen ∨ (blake3 out).bytes ≠ manifest.digest)
    .digestMismatch
  return out

end

end Mininet.Media
