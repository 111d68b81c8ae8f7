import Mininet.Crypto
import Mininet.Lib.Merkle

/-!
# Chunk proofs of a snapshot

A snapshot is fetched in chunks, each with a membership proof under the root of its manifest. The
verifier takes an absent sibling at any level, so a proof for one index can lead to a chunk that
lies higher up in the tree.
-/

namespace Mininet

open Merkle List

section

variable [Primitives]

def leafPrefix : UInt8 := 0x00

def nodePrefix : UInt8 := 0x01

def leafHash (chunk : Bytes) : Hash := blake3 (leafPrefix :: chunk)

def nodeHash (left right : Hash) : Hash := blake3 (nodePrefix :: (left.bytes ++ right.bytes))

def buildLevels (leaves : List Hash) : List (List Hash) := levels nodeHash leaves.length leaves

def proofDepth (leafCount : ℕ) : ℕ := depth leafCount leafCount

structure ChunkProof where
  siblings : List (Option Hash)

def prove (levels : List (List Hash)) (index : ℕ) : ChunkProof where
  siblings := siblings index levels

def ChunkProof.verify (p : ChunkProof) (chunk : Bytes) (index chunkCount : ℕ) (root : Hash) :
    Bool :=
  if chunkCount = 0 ∨ chunkCount ≤ index then false
  else if p.siblings.length ≠ proofDepth chunkCount then false
  else climb nodeHash index p.siblings (leafHash chunk) = root

/-! ### What is hashed -/

/-- The bytes that a leaf or a node is the hash of. -/
def hashInput : Input Bytes Hash → Bytes
  | .leaf chunk      => leafPrefix :: chunk
  | .node left right => nodePrefix :: (left.bytes ++ right.bytes)

/-- The tree that the levels over the chunks are the hashes of. -/
def chunkTree (chunks : List Bytes) : Option (Merkle.Tree Bytes) :=
  root (levels .node chunks.length (chunks.map .leaf))

def treeDigest (y : Input Bytes Hash) : Hash := blake3 (hashInput y)

/-- What building a tree hashes. -/
def treeInputs (t : Merkle.Tree Bytes) : List (Input Bytes Hash) := t.inputs treeDigest

/-- What verifying a proof hashes. -/
def ChunkProof.inputs (p : ChunkProof) (chunk : Bytes) (index : ℕ) : List (Input Bytes Hash) :=
  .leaf chunk :: climbInputs treeDigest index p.siblings (leafHash chunk)

/-- No two of these have the same hash. -/
def CollisionFree (ys : List (Input Bytes Hash)) : Prop :=
  Set.InjOn blake3 {bs | bs ∈ ys.map hashInput}

variable {chunk : Bytes} {index chunkCount : ℕ} {t : Merkle.Tree Bytes} {p : ChunkProof}

omit [Primitives] in
lemma hashInput_injective : Function.Injective hashInput := by
  intro y z h
  cases y with
  | leaf b =>
    cases z with
    | leaf c => rw [(List.cons.inj h).2]
    | node l r => exact absurd (List.cons.inj h).1 (by decide)
  | node l r =>
    cases z with
    | leaf c => exact absurd (List.cons.inj h).1 (by decide)
    | node l' r' =>
      obtain ⟨hl, hr⟩ := append_inj (List.cons.inj h).2 (by simp)
      rw [Hash.bytes_injective hl, Hash.bytes_injective hr]

lemma CollisionFree.injOn {ys : List (Input Bytes Hash)} (h : CollisionFree ys) :
    Set.InjOn treeDigest {y | y ∈ ys} := by
  intro y hy z hz heq
  exact hashInput_injective (h (mem_map_of_mem hy) (mem_map_of_mem hz) heq)

/-- The root over the leaf hashes is the hash of the tree of the chunks. -/
lemma root_buildLevels (chunks : List Bytes) :
    root (buildLevels (chunks.map leafHash)) =
      (chunkTree chunks).map (Merkle.Tree.hash treeDigest) := by
  have hnode : ∀ l r : Merkle.Tree Bytes,
      (l.node r).hash treeDigest = nodeHash (l.hash treeDigest) (r.hash treeDigest) :=
    fun _ _ => rfl
  rw [chunkTree, ← root_levels_map hnode, buildLevels, map_map, length_map]
  rfl

lemma ChunkProof.verify_true {root : Hash} (h : index < chunkCount) :
    p.verify chunk index chunkCount root = true ↔
      p.siblings.length = proofDepth chunkCount ∧
        climb nodeHash index p.siblings (leafHash chunk) = root := by
  rw [verify, if_neg (by omega)]
  split_ifs with hlength
  · simp [hlength]
  · simp [not_not.mp hlength]

/-- The proof made for an index verifies for the chunk there. -/
lemma verify_prove {chunks : List Bytes} {i : ℕ} (hi : i < chunks.length) {root : Hash}
    (hroot : Merkle.root (buildLevels (chunks.map leafHash)) = some root) :
    (prove (buildLevels (chunks.map leafHash)) i).verify chunks[i] i chunks.length root = true := by
  have hleaf : (chunks.map leafHash)[i]? = some (leafHash chunks[i]) := by simp [hi]
  have hclimb := hroot.symm.trans (root_levels_eq_climb (Nat.le_succ _) hleaf)
  rw [ChunkProof.verify_true hi, prove, length_siblings, buildLevels, length_levels]
  exact ⟨by simp [proofDepth], (Option.some.inj hclimb).symm⟩

/-- A proof that verifies leads to a leaf of the tree. -/
lemma ChunkProof.leafAt_of_verify
    (hindex : index < chunkCount) (hfree : CollisionFree (treeInputs t ++ p.inputs chunk index))
    (h : p.verify chunk index chunkCount (t.hash treeDigest) = true) :
    ∃ ds ∈ (directions (proofDepth chunkCount) index).sublists, t.leafAt ds = some chunk := by
  obtain ⟨hlength, hclimb⟩ := (verify_true hindex).mp h
  obtain ⟨ds, u, hds, hu, htop⟩ := exists_sub_of_climb (y := .leaf chunk) hfree.injOn hclimb
  rw [hlength] at hds
  cases u with
  | leaf c =>
    cases htop
    exact ⟨ds, hds, by rw [Merkle.Tree.leafAt, hu]⟩
  | node l r => cases htop

/-- Every leaf at directions of an index, with some left out, has a proof for that index. -/
lemma exists_verify_of_leafAt (hindex : index < chunkCount) {ds : List Bool}
    (hds : ds ∈ (directions (proofDepth chunkCount) index).sublists) (h : t.leafAt ds = some chunk) :
    ∃ p : ChunkProof, p.inputs chunk index ⊆ treeInputs t ∧
      p.verify chunk index chunkCount (t.hash treeDigest) = true := by
  obtain hu : t.sub ds = some (.leaf chunk) := by
    unfold Merkle.Tree.leafAt at h
    split at h
    · rename_i hu
      cases h
      exact hu
    · cases h
  obtain ⟨ss, hlength, hclimb, hinputs⟩ := exists_climb_of_sub treeDigest hds hu
  refine ⟨⟨ss⟩, ?_, (ChunkProof.verify_true hindex).mpr ⟨hlength, hclimb⟩⟩
  exact cons_subset.mpr ⟨Merkle.Tree.inputs_sub hu (mem_singleton_self _), hinputs⟩

/-- A chunk proof binds its position exactly where the directions of the index, with any of them
left out, lead to no other chunk. The proof that is made for an index always verifies. -/
theorem ChunkProof.binds_iff {chunks : List Bytes} {i : ℕ} (hi : i < chunks.length) {root : Hash}
    (hroot : Merkle.root (buildLevels (chunks.map leafHash)) = some root)
    {t : Merkle.Tree Bytes} (ht : chunkTree chunks = some t)
    (hfree : CollisionFree (treeInputs t)) :
    ((∀ (x : Bytes) (p : ChunkProof), CollisionFree (treeInputs t ++ p.inputs x i) →
        p.verify x i chunks.length root = true → x = chunks[i]) ↔
      ∀ ds ∈ (directions (proofDepth chunks.length) i).sublists, ∀ c ∈ t.leafAt ds, c = chunks[i]) ∧
      (prove (buildLevels (chunks.map leafHash)) i).verify chunks[i] i chunks.length root =
        true := by
  refine ⟨?_, verify_prove hi hroot⟩
  obtain rfl : t.hash treeDigest = root := by
    rw [root_buildLevels, ht] at hroot
    exact Option.some.inj hroot
  constructor
  · intro hbinds ds hds c hc
    obtain ⟨p, hinputs, hverify⟩ := exists_verify_of_leafAt hi hds hc
    refine hbinds c p (hfree.mono ?_) hverify
    intro bs hbs
    obtain ⟨y, hy, rfl⟩ := mem_map.mp hbs
    exact mem_map_of_mem ((mem_append.mp hy).elim id (hinputs ·))
  · intro hreach x p hfree' hverify
    obtain ⟨ds, hds, hc⟩ := p.leafAt_of_verify hi hfree' hverify
    exact hreach ds hds x hc

end

/-- Three chunks, where the last one lies higher up than the others. -/
def sampleChunks : List Bytes := [[1], [2], [3]]

def sampleTree : Merkle.Tree Bytes := .node (.node (.leaf [1]) (.leaf [2])) (.leaf [3])

theorem ChunkProof.binds_first :
    letI := Primitives.sample
    ∃ root, Merkle.root (buildLevels (sampleChunks.map leafHash)) = some root ∧
      ∀ (x : Bytes) (p : ChunkProof), CollisionFree (treeInputs sampleTree ++ p.inputs x 0) →
        p.verify x 0 3 root = true → x = [1] := by
  let := Primitives.sample
  have hpairs : ∀ a ∈ (treeInputs sampleTree).map hashInput,
      ∀ b ∈ (treeInputs sampleTree).map hashInput, blake3 a = blake3 b → a = b := by
    decide +kernel
  have hfree : CollisionFree (treeInputs sampleTree) := fun a ha b hb => hpairs a ha b hb
  have hbinds := ChunkProof.binds_iff (show 0 < sampleChunks.length by decide) rfl rfl hfree
  exact ⟨_, rfl, hbinds.1.mpr (by decide)⟩

/-- The last of three chunks verifies in the place of the second. -/
theorem ChunkProof.verify_displaced :
    letI := Primitives.sample
    ∃ root, Merkle.root (buildLevels (sampleChunks.map leafHash)) = some root ∧
      (⟨[some (nodeHash (leafHash [1]) (leafHash [2])), none]⟩ : ChunkProof).verify [3] 1 3 root =
        true ∧ sampleChunks[1]? = some [2] := by
  let := Primitives.sample
  exact ⟨_, rfl, (verify_true (by decide)).mpr ⟨rfl, rfl⟩, rfl⟩

end Mininet
