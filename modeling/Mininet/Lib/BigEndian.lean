import Mathlib

/-!
# Big-endian byte strings

`beBytes n x` is the fixed-width big-endian encoding of `x` in `n` bytes, truncated as an integer
cast truncates, and `ofBeBytes` reads such a string back. UTF-8 text is a byte string as well:
`utf8` and `ofUtf8` are the two directions, the second one partial.
-/

namespace Codec

/-- The `n` low-order bytes of `x`, most significant byte first. -/
def beBytes : ℕ → ℕ → List UInt8
  | 0, _     => []
  | n + 1, x => beBytes n (x / 256) ++ [UInt8.ofNat x]

/-- The number a big-endian byte string denotes. -/
def ofBeBytes (bs : List UInt8) : ℕ := bs.foldl (fun acc b => acc * 256 + b.toNat) 0

@[simp] lemma beBytes_zero (x : ℕ) : beBytes 0 x = [] := rfl

lemma beBytes_succ (n x : ℕ) : beBytes (n + 1) x = beBytes n (x / 256) ++ [UInt8.ofNat x] := rfl

@[simp] lemma length_beBytes (n x : ℕ) : (beBytes n x).length = n := by
  induction n generalizing x with
  | zero => rfl
  | succ n ih => simp [beBytes_succ, ih]

@[simp] lemma ofBeBytes_nil : ofBeBytes [] = 0 := rfl

@[simp] lemma ofBeBytes_concat (bs : List UInt8) (b : UInt8) :
    ofBeBytes (bs ++ [b]) = ofBeBytes bs * 256 + b.toNat := by
  simp [ofBeBytes]

lemma ofBeBytes_lt (bs : List UInt8) : ofBeBytes bs < 256 ^ bs.length := by
  induction bs using List.reverseRecOn with
  | nil => simp
  | append_singleton bs b ih =>
    have hb : b.toNat < 256 := b.toNat_lt
    rw [ofBeBytes_concat, List.length_append, List.length_singleton, pow_succ]
    omega

lemma ofBeBytes_beBytes {n x : ℕ} (h : x < 256 ^ n) : ofBeBytes (beBytes n x) = x := by
  induction n generalizing x with
  | zero =>
    have hx : x = 0 := by simpa using h
    simp [hx]
  | succ n ih =>
    have hdiv : x / 256 < 256 ^ n := by
      rw [Nat.div_lt_iff_lt_mul (by norm_num), ← pow_succ]
      exact h
    have hlast : (UInt8.ofNat x).toNat = x % 256 := by simp
    rw [beBytes_succ, ofBeBytes_concat, ih hdiv, hlast]
    omega

lemma beBytes_ofBeBytes (bs : List UInt8) : beBytes bs.length (ofBeBytes bs) = bs := by
  induction bs using List.reverseRecOn with
  | nil => rfl
  | append_singleton bs b ih =>
    have hb : b.toNat < 256 := b.toNat_lt
    have hdiv : (ofBeBytes bs * 256 + b.toNat) / 256 = ofBeBytes bs := by omega
    have hlast : UInt8.ofNat (ofBeBytes bs * 256 + b.toNat) = b := by
      apply UInt8.toNat_inj.mp
      simp only [UInt8.toNat_ofNat']
      omega
    rw [List.length_append, List.length_singleton, beBytes_succ, ofBeBytes_concat, hdiv, hlast, ih]

/-- Encodings of one width agree only on equal numbers, as long as both fit the width. -/
lemma beBytes_inj {n x y : ℕ} (hx : x < 256 ^ n) (hy : y < 256 ^ n)
    (h : beBytes n x = beBytes n y) : x = y := by
  rw [← ofBeBytes_beBytes hx, h, ofBeBytes_beBytes hy]

/-! ### Text -/

/-- The bytes of a string's UTF-8 encoding. -/
def utf8 (s : String) : List UInt8 := s.toByteArray.data.toList

/-- The string a byte string encodes, if it is well formed UTF-8. -/
def ofUtf8 (bs : List UInt8) : Option String := String.fromUTF8? ⟨bs.toArray⟩

@[simp] lemma ofUtf8_utf8 (s : String) : ofUtf8 (utf8 s) = some s := by
  have hbytes : (⟨(utf8 s).toArray⟩ : ByteArray) = s.toByteArray := by
    cases s
    simp [utf8]
  simp only [ofUtf8, String.fromUTF8?, hbytes]
  rw [dif_pos s.isValidUTF8]
  rfl

lemma utf8_of_ofUtf8 {bs : List UInt8} {s : String} (h : ofUtf8 bs = some s) : utf8 s = bs := by
  simp only [ofUtf8, String.fromUTF8?] at h
  split_ifs at h with hv
  cases h
  simp [utf8, String.fromUTF8]

lemma utf8_injective : Function.Injective utf8 := by
  intro s t h
  have hs := ofUtf8_utf8 s
  rw [h, ofUtf8_utf8] at hs
  exact (Option.some.inj hs).symm

end Codec
