import Mininet.Crypto

/-!
# Frames in chunks

A frame is split into chunks that fit one radio write, each with its index and the number of chunks
of its frame; the other side puts them together again. The reassembler knows of the frame in
progress only how many chunks it has and how many there are, and keeps both when it refuses a chunk.
So the chunks of two frames of the same count can make up a third, unless a frame that loses a chunk
loses its first one as well.
-/

namespace Mininet.Bearer

open Codec List

def maxFrameBytes : ℕ := 16 * 1024 * 1024

def chunkHeaderBytes : ℕ := 4

inductive BearerError where
  | frameTooLarge (max got : ℕ)
  | mtuTooSmall (min got : ℕ)
  | tooManyChunks (max needed : ℕ)
  | truncated
  | badChunk
  | outOfOrderChunk (expected got : ℕ)
  deriving DecidableEq, Repr

def encodeChunk (index count : ℕ) (payload : Bytes) : Bytes :=
  beBytes 2 index ++ (beBytes 2 count ++ payload)

/-- How many chunks a frame takes; an empty frame takes one. -/
def chunkCount (frame : Bytes) (payloadPerChunk : ℕ) : ℕ :=
  max (frame.length ⌈/⌉ payloadPerChunk) 1

/-- The payload of the chunk at an index. -/
def payloadAt (frame : Bytes) (payloadPerChunk index : ℕ) : Bytes :=
  (frame.drop (index * payloadPerChunk)).take payloadPerChunk

/-- Split a frame into chunks of at most `mtu` bytes, headers included. -/
def chunkFrame (frame : Bytes) (mtu : ℕ) : Except BearerError (List Bytes) :=
  if maxFrameBytes < frame.length then .error (.frameTooLarge maxFrameBytes frame.length)
  else if mtu ≤ chunkHeaderBytes then .error (.mtuTooSmall (chunkHeaderBytes + 1) mtu)
  else
    let payloadPerChunk := mtu - chunkHeaderBytes
    let count := chunkCount frame payloadPerChunk
    if 65535 < count then .error (.tooManyChunks 65535 count)
    else .ok ((List.range count).map fun index =>
      encodeChunk index count (payloadAt frame payloadPerChunk index))

/-- The frame in progress: how many of its chunks are in, how many there are, and their bytes. -/
structure ChunkReassembler where
  expectedIndex : ℕ := 0
  total : Option ℕ := none
  buf : Bytes := []
  deriving DecidableEq, Repr

namespace ChunkReassembler

/-- A chunk that continues the frame in progress. -/
def accept (r : ChunkReassembler) (count : ℕ) (payload : Bytes) :
    Except BearerError (Option Bytes) × ChunkReassembler :=
  let newLen := r.buf.length + payload.length
  if maxFrameBytes < newLen then (.error (.frameTooLarge maxFrameBytes newLen), r)
  else if r.expectedIndex + 1 = count then (.ok (some (r.buf ++ payload)), {})
  else (.ok none, { r with buf := r.buf ++ payload, expectedIndex := r.expectedIndex + 1 })

/-- Feed one chunk: the frame once its last chunk is in, or nothing yet. -/
def pushChunk (r : ChunkReassembler) (chunk : Bytes) :
    Except BearerError (Option Bytes) × ChunkReassembler :=
  if chunk.length < chunkHeaderBytes then (.error .truncated, r)
  else
    let index := ofBeBytes (chunk.take 2)
    let count := ofBeBytes ((chunk.drop 2).take 2)
    let payload := chunk.drop chunkHeaderBytes
    if count = 0 then (.error .badChunk, r)
    else match r.total with
      | none =>
        if index ≠ 0 then (.error (.outOfOrderChunk 0 index), r)
        else accept { r with total := some count } count payload
      | some expectedCount =>
        if count ≠ expectedCount then (.error .badChunk, r)
        else if index ≠ r.expectedIndex then (.error (.outOfOrderChunk r.expectedIndex index), r)
        else accept r count payload

/-- The frames a list of chunks yields, and the state it leaves. -/
def feed : ChunkReassembler → List Bytes → List Bytes × ChunkReassembler
  | r, [] => ([], r)
  | r, chunk :: chunks =>
    match r.pushChunk chunk with
    | (.ok (some frame), r') => (frame :: (r'.feed chunks).1, (r'.feed chunks).2)
    | (_, r')                => r'.feed chunks

lemma feed_append (r : ChunkReassembler) (xs ys : List Bytes) :
    r.feed (xs ++ ys) =
      ((r.feed xs).1 ++ ((r.feed xs).2.feed ys).1, ((r.feed xs).2.feed ys).2) := by
  induction xs generalizing r with
  | nil => rfl
  | cons x xs ih =>
    rw [cons_append, feed, feed]
    split <;> simp [ih]

/-- What a chunk with a proper header is taken for. -/
lemma pushChunk_encodeChunk (r : ChunkReassembler) {index count : ℕ} (payload : Bytes)
    (hindex : index < count) (hcount : count ≤ 65535) :
    r.pushChunk (encodeChunk index count payload) = match r.total with
      | none =>
        if index ≠ 0 then (.error (.outOfOrderChunk 0 index), r)
        else accept { r with total := some count } count payload
      | some expectedCount =>
        if count ≠ expectedCount then (.error .badChunk, r)
        else if index ≠ r.expectedIndex then (.error (.outOfOrderChunk r.expectedIndex index), r)
        else accept r count payload := by
  have hlen : ¬ (encodeChunk index count payload).length < chunkHeaderBytes := by
    simp [encodeChunk, chunkHeaderBytes]
    omega
  have htake : (encodeChunk index count payload).take 2 = beBytes 2 index := by
    simp [encodeChunk]
  have hdrop : ((encodeChunk index count payload).drop 2).take 2 = beBytes 2 count := by
    simp [encodeChunk]
  have hpayload : (encodeChunk index count payload).drop chunkHeaderBytes = payload := by
    simp [encodeChunk, chunkHeaderBytes, drop_append]
  unfold pushChunk
  rw [if_neg hlen, htake, hdrop, hpayload, ofBeBytes_beBytes (by omega),
    ofBeBytes_beBytes (by omega)]
  simp only [show count ≠ 0 by omega, if_false]

/-- What a chunk of any content does: its payload completes a frame, is kept or is dropped. -/
lemma pushChunk_cases (r : ChunkReassembler) (chunk : Bytes) :
    let (out, r') := r.pushChunk chunk
    let buf := r.buf ++ chunk.drop chunkHeaderBytes
    buf.length ≤ maxFrameBytes ∧ out = .ok (some buf) ∧ r' = {} ∨
      (∀ frame, out ≠ .ok (some frame)) ∧
        (r'.buf = r.buf ∨ buf.length ≤ maxFrameBytes ∧ r'.buf = buf) := by
  unfold pushChunk accept
  cases htotal : r.total <;> dsimp only <;> split_ifs <;> simp_all

/-- Whatever chunks arrive, neither a frame handed out nor what is kept of the next one is longer
than a frame may be, and together they are part of the payloads received, in order. -/
theorem feed_sublist (chunks : List Bytes) :
    let (frames, r) := feed {} chunks
    (∀ frame ∈ frames, frame.length ≤ maxFrameBytes) ∧ r.buf.length ≤ maxFrameBytes ∧
      frames.flatten ++ r.buf <+ (chunks.map (drop chunkHeaderBytes)).flatten := by
  induction chunks using reverseRecOn with
  | nil => simp [feed]
  | append_singleton chunks chunk ih =>
    rw [feed_append, map_append, flatten_append]
    generalize feed {} chunks = out at ih ⊢
    obtain ⟨frames, r⟩ := out
    obtain ⟨hframes, hkept, hsub⟩ := ih
    have hcases := r.pushChunk_cases chunk
    have hnext := hsub.append_right (chunk.drop chunkHeaderBytes)
    rw [append_assoc] at hnext
    simp only [feed, map_singleton, flatten_singleton]
    generalize r.pushChunk chunk = out at hcases ⊢
    obtain ⟨out, r'⟩ := out
    obtain ⟨hle, rfl, rfl⟩ | ⟨hnone, hbuf⟩ := hcases
    · exact ⟨forall_mem_append.mpr ⟨hframes, by simpa using hle⟩, Nat.zero_le _, by simpa using hnext⟩
    · split
      next heq => cases heq; exact absurd rfl (hnone _)
      · cases ‹_ = _›
        rcases hbuf with hbuf | ⟨hle, hbuf⟩ <;> rw [hbuf]
        · exact ⟨by simpa, hkept, by simpa using hsub.trans (sublist_append_left _ _)⟩
        · exact ⟨by simpa, hle, by simpa using hnext⟩

end ChunkReassembler

open ChunkReassembler

/-! ### One frame -/

section Frame

variable {frame : Bytes} {p : ℕ}

/-- The state once the chunks below an index are in. -/
def upTo (frame : Bytes) (p i : ℕ) : ChunkReassembler where
  expectedIndex := i
  total := if i = 0 then none else some (chunkCount frame p)
  buf := frame.take (i * p)

lemma length_le_chunkCount_mul (hp : 0 < p) : frame.length ≤ chunkCount frame p * p := by
  calc frame.length ≤ p • (frame.length ⌈/⌉ p) := le_smul_ceilDiv hp
    _ = frame.length ⌈/⌉ p * p := by rw [smul_eq_mul, mul_comm]
    _ ≤ chunkCount frame p * p := Nat.mul_le_mul_right _ (le_max_left _ _)

/-- The next chunk of a frame completes it or leads to the next state. -/
lemma pushChunk_upTo (hlen : frame.length ≤ maxFrameBytes) (hp : 0 < p)
    (hcount : chunkCount frame p ≤ 65535) {i : ℕ} (hi : i < chunkCount frame p) :
    (upTo frame p i).pushChunk (encodeChunk i (chunkCount frame p) (payloadAt frame p i)) =
      if i + 1 = chunkCount frame p then (.ok (some frame), {})
      else (.ok none, upTo frame p (i + 1)) := by
  have hbuf : frame.take (i * p) ++ payloadAt frame p i = frame.take ((i + 1) * p) := by
    rw [payloadAt, Nat.succ_mul, take_add]
  have haccept : accept { upTo frame p i with total := some (chunkCount frame p) }
      (chunkCount frame p) (payloadAt frame p i) =
      if i + 1 = chunkCount frame p then (.ok (some frame), {})
      else (.ok none, upTo frame p (i + 1)) := by
    have hfits : ¬ maxFrameBytes < (frame.take (i * p)).length + (payloadAt frame p i).length := by
      rw [← length_append, hbuf]
      exact not_lt.mpr ((length_take_le' _ _).trans hlen)
    simp only [accept, upTo, if_neg hfits, hbuf]
    split
    next hlast =>
      rw [hlast, take_of_length_le (length_le_chunkCount_mul hp)]
    · simp
  rw [pushChunk_encodeChunk _ _ hi hcount]
  rcases Nat.eq_zero_or_pos i with rfl | hpos
  · simpa [upTo] using haccept
  · simpa [upTo, hpos.ne'] using haccept

/-- The chunks of a frame from an index on. -/
def chunksFrom (frame : Bytes) (p i : ℕ) : List Bytes :=
  (List.range' i (chunkCount frame p - i)).map fun index =>
    encodeChunk index (chunkCount frame p) (payloadAt frame p index)

/-- From each of its states on, the rest of the frame yields the frame. -/
lemma feed_chunksFrom (hlen : frame.length ≤ maxFrameBytes) (hp : 0 < p)
    (hcount : chunkCount frame p ≤ 65535) {i : ℕ} (hi : i < chunkCount frame p) :
    (upTo frame p i).feed (chunksFrom frame p i) = ([frame], {}) := by
  -- on the number of chunks that follow the next one
  induction hk : chunkCount frame p - (i + 1) generalizing i with
  | zero =>
    have hone : chunkCount frame p - i = 1 := by omega
    rw [chunksFrom, hone, List.range'_one, map_singleton, feed,
      pushChunk_upTo hlen hp hcount hi, if_pos (by omega)]
    rfl
  | succ k ih =>
    have hsucc : chunkCount frame p - i = chunkCount frame p - (i + 1) + 1 := by omega
    rw [chunksFrom, hsucc, List.range'_succ, map_cons, feed, pushChunk_upTo hlen hp hcount hi,
      if_neg (by omega)]
    exact ih (i := i + 1) (by omega) (by omega)

/-- Chunks past the first leave an idle reassembler idle. -/
lemma feed_of_sublist_tail (hcount : chunkCount frame p ≤ 65535) {chunks : List Bytes}
    (h : chunks.Sublist (chunksFrom frame p 1)) :
    ({} : ChunkReassembler).feed chunks = ([], {}) := by
  induction chunks with
  | nil => rfl
  | cons chunk chunks ih =>
    obtain ⟨index, hindex, rfl⟩ := mem_map.mp (h.subset mem_cons_self)
    rw [mem_range'_1] at hindex
    rw [feed, pushChunk_encodeChunk _ _ (by omega) hcount]
    simpa [show index ≠ 0 by omega] using ih ((sublist_cons_self _ _).trans h)

end Frame

lemma chunkFrame_ok {frame : Bytes} {mtu : ℕ} {chunks : List Bytes}
    (h : chunkFrame frame mtu = .ok chunks) :
    ∃ p, frame.length ≤ maxFrameBytes ∧ 0 < p ∧ chunkCount frame p ≤ 65535 ∧
      chunks = chunksFrom frame p 0 := by
  unfold chunkFrame at h
  split at h
  · cases h
  split at h
  · cases h
  dsimp only at h
  split at h
  · cases h
  cases h
  refine ⟨mtu - chunkHeaderBytes, by omega, by omega, by omega, ?_⟩
  rw [chunksFrom, Nat.sub_zero, range_eq_range']

/-! ### A lossy stream -/

/-- A frame that was split and sent, and those of its chunks that arrived. -/
structure Delivery where
  frame : Bytes
  mtu : ℕ
  chunks : List Bytes
  arrived : List Bytes
  chunked : chunkFrame frame mtu = .ok chunks
  sublist : arrived.Sublist chunks

namespace Delivery

/-- Every chunk arrived, or the first one did not. -/
def Clean (d : Delivery) : Prop := d.arrived = d.chunks ∨ d.arrived.Sublist d.chunks.tail

instance (d : Delivery) : Decidable d.Clean := inferInstanceAs (Decidable (_ ∨ _))

/-- A clean delivery yields its frame if it is complete, and leaves the reassembler idle. -/
lemma feed_arrived {d : Delivery} (h : d.Clean) :
    ({} : ChunkReassembler).feed d.arrived =
      (if d.arrived = d.chunks then [d.frame] else [], {}) := by
  obtain ⟨p, hlen, hp, hcount, hchunks⟩ := chunkFrame_ok d.chunked
  have hpos : 0 < chunkCount d.frame p := by simp [chunkCount]
  have hfirst : upTo d.frame p 0 = {} := by simp [upTo]
  have htail : d.chunks.tail = chunksFrom d.frame p 1 := by
    rw [hchunks, chunksFrom, chunksFrom, ← map_tail, tail_range', Nat.sub_zero, zero_add]
  split
  next hall =>
    have hfeed := feed_chunksFrom hlen hp hcount hpos
    rwa [hfirst, ← hchunks, ← hall] at hfeed
  next hnot => exact feed_of_sublist_tail hcount (htail ▸ h.resolve_left hnot)

end Delivery

/-- When every frame that loses a chunk loses its first one, the reassembler returns the frames all
of whose chunks arrived, in order, and no others. -/
theorem feed_of_clean (sent : List Delivery) (h : ∀ d ∈ sent, d.Clean) :
    (({} : ChunkReassembler).feed (sent.flatMap (·.arrived))) =
      ((sent.filter fun d => d.arrived = d.chunks).map (·.frame), {}) := by
  induction sent with
  | nil => rfl
  | cons d sent ih =>
    rw [forall_mem_cons] at h
    rw [flatMap_cons, feed_append, Delivery.feed_arrived h.1, ih h.2]
    by_cases hall : d.arrived = d.chunks <;> simp [hall]

/-- Two frames of two chunks each, the first without its first chunk. -/
theorem sample_feed_of_clean :
    ({} : ChunkReassembler).feed [[0, 1, 0, 2, 2], [0, 0, 0, 2, 3], [0, 1, 0, 2, 4]] =
      ([[3, 4]], {}) :=
  feed_of_clean
    [⟨[1, 2], 5, [[0, 0, 0, 2, 1], [0, 1, 0, 2, 2]], [[0, 1, 0, 2, 2]], by decide, by decide⟩,
      ⟨[3, 4], 5, [[0, 0, 0, 2, 3], [0, 1, 0, 2, 4]], [[0, 0, 0, 2, 3], [0, 1, 0, 2, 4]],
        by decide, by decide⟩] (by decide)

/-- The first chunk of one frame and the second of another are returned as a frame that was never
sent; and after the first chunk alone, a whole frame of another count is refused. -/
theorem sample_mixed_frame :
    chunkFrame [1, 2] 5 = .ok [[0, 0, 0, 2, 1], [0, 1, 0, 2, 2]] ∧
    chunkFrame [3, 4] 5 = .ok [[0, 0, 0, 2, 3], [0, 1, 0, 2, 4]] ∧
    chunkFrame [5] 5 = .ok [[0, 0, 0, 1, 5]] ∧
    (({} : ChunkReassembler).feed [[0, 0, 0, 2, 1], [0, 1, 0, 2, 4]]).1 = [[1, 4]] ∧
    (({} : ChunkReassembler).feed [[0, 0, 0, 2, 1], [0, 0, 0, 1, 5]]).1 = [] := by
  decide

end Mininet.Bearer
