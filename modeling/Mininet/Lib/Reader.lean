import Mininet.Lib.BigEndian
import Mininet.Lib.Fallible

/-!
# Bounds-checked readers

A reader consumes a byte string from the front and fails on truncation. `Reads p bs a` says that
`p` reads exactly the string `bs`, whatever follows it, and returns `a`: the rules below build such
facts along a reader's own structure, so a round trip is proved field by field.
-/

namespace Codec

open Fallible List

variable {ε α β : Type}

/-- A cursor over untrusted bytes; the state is the part not read yet. -/
abbrev Reader (ε : Type) := StateT (List UInt8) (Except ε)

/-- Take the next `n` bytes, or fail with `e` when fewer are left. -/
def take (e : ε) (n : ℕ) : Reader ε (List UInt8) := fun bs =>
  if n ≤ bs.length then .ok (bs.take n, bs.drop n) else .error e

/-- Run a reader `n` times and collect what it returns. -/
def readMany (p : Reader ε α) : ℕ → Reader ε (List α)
  | 0     => pure []
  | n + 1 => do
    let x ← p
    let xs ← readMany p n
    pure (x :: xs)

/-- Thread an accumulator through `n` runs of a reader. -/
def readFold (p : α → Reader ε α) : ℕ → α → Reader ε α
  | 0, acc     => pure acc
  | n + 1, acc => p acc >>= readFold p n

/-- `p` reads exactly `bs`, whatever follows, and returns `a`. -/
def Reads (p : Reader ε α) (bs : List UInt8) (a : α) : Prop :=
  ∀ rest, p.run (bs ++ rest) = .ok (a, rest)

variable {p : Reader ε α} {bs cs r s rest : List UInt8} {a : α} {f : α → Reader ε β} {b : β} {e : ε}
  {n max : ℕ} {x : Except ε α} {enc : α → List UInt8} {xs ys : List α} {P : α → Prop} {κ : Type}

lemma Reads.run (h : Reads p bs a) : p.run bs = .ok (a, []) := by
  simpa using h []

/-- A reader cannot tell two encodings apart only if they carry the same value: what it reads is
determined by the string, and so is what is left over. -/
lemma Reads.inj {b : α} (ha : Reads p bs a) (hb : Reads p cs b) (h : bs ++ r = cs ++ s) :
    a = b ∧ r = s := by
  have hab : (Except.ok (a, r) : Except ε (α × List UInt8)) = .ok (b, s) := by
    rw [← ha r, ← hb s, h]
  simpa using hab

/-- Taking a successful chain of readers apart. -/
lemma run_bind_ok {r : β × List UInt8} :
    (p >>= f).run bs = .ok r ↔ ∃ a rest, p.run bs = .ok (a, rest) ∧ (f a).run rest = .ok r := by
  rw [StateT.run_bind, bind_ok]
  exact ⟨fun ⟨⟨a, rest⟩, h⟩ => ⟨a, rest, h⟩, fun ⟨a, rest, h⟩ => ⟨(a, rest), h⟩⟩

lemma Reads.pure (a : α) : Reads (pure a : Reader ε α) [] a := by
  intro rest
  rfl

lemma Reads.bind (hp : Reads p bs a) (hf : Reads (f a) cs b) : Reads (p >>= f) (bs ++ cs) b := by
  intro rest
  rw [StateT.run_bind, append_assoc, hp]
  exact hf rest

/-- The last field of a record: nothing is read after it. -/
lemma Reads.bind_pure {f : α → β} (hp : Reads p bs a) :
    Reads (p >>= fun x => Pure.pure (f x)) bs (f a) := by
  have h : Reads (p >>= fun x => Pure.pure (f x)) (bs ++ []) (f a) := hp.bind (Reads.pure (f a))
  rwa [append_nil] at h

lemma Reads.map (f : α → β) (hp : Reads p bs a) : Reads (f <$> p) bs (f a) := by
  rw [map_eq_pure_bind]
  exact hp.bind_pure

/-- A check that passes on the value read does not change what is read. -/
lemma Reads.check {c : Prop} [Decidable c] (hc : ¬ c) (hp : Reads p bs a) :
    Reads (if c then throw e else p) bs a := by
  rwa [if_neg hc]

lemma reads_take (h : bs.length = n) : Reads (take e n) bs bs := by
  intro rest
  subst h
  simp [take, StateT.run]

/-- A fallible step that reads nothing. -/
def lift (x : Except ε α) : Reader ε α := fun bs => x.map fun a => (a, bs)

lemma run_lift_ok : (lift x).run bs = .ok (a, rest) ↔ x = .ok a ∧ bs = rest := by
  cases x <;> simp [lift, StateT.run, Except.map]

lemma reads_lift (h : x = .ok a) : Reads (lift x) [] a := by
  intro rest
  subst h
  rfl

/-- A fallible step between two reads. -/
lemma Reads.lift_bind (hx : x = .ok a) (hf : Reads (f a) bs b) : Reads (lift x >>= f) bs b := by
  simpa using (reads_lift hx).bind hf

/-- A fallible step at the end. -/
lemma Reads.bind_lift {f : α → Except ε β} (hp : Reads p bs a) (hf : f a = .ok b) :
    Reads (p >>= fun x => lift (f x)) bs b := by
  have h : Reads (p >>= fun x => lift (f x)) (bs ++ []) b := hp.bind (reads_lift hf)
  rwa [append_nil] at h

/-- A fallible step before the end. -/
lemma Reads.bind_lift_pure {γ : Type} {f : α → Except ε β} {g : β → γ} (hp : Reads p bs a)
    (hf : f a = .ok b) :
    Reads (p >>= fun x => lift (f x) >>= fun y => Pure.pure (g y)) bs (g b) := by
  have h := hp.bind (f := fun x => lift (f x) >>= fun y => Pure.pure (g y))
    (reads_lift hf).bind_pure
  rwa [append_nil] at h

/-- A check between two reads. -/
lemma Reads.failIf_bind {c : Prop} [Decidable c] {f : Unit → Reader ε β} (hc : ¬ c)
    (hf : Reads (f ()) bs b) : Reads (lift (failIf c e) >>= f) bs b :=
  Reads.lift_bind (failIf_ok.mpr hc) hf

/-! A reader may fail behind a string it has read, on a value that it checks. -/

/-- `p` reads exactly `bs`, whatever follows, and ends with `x`. -/
def ReadsTo (p : Reader ε α) (bs : List UInt8) (x : Except ε α) : Prop :=
  ∀ rest, p.run (bs ++ rest) = x.map fun a => (a, rest)

lemma Reads.readsTo (h : Reads p bs a) : ReadsTo p bs (.ok a) := h

lemma Reads.bindTo {x : Except ε β} (hp : Reads p bs a) (hf : ReadsTo (f a) cs x) :
    ReadsTo (p >>= f) (bs ++ cs) x := by
  intro rest
  rw [StateT.run_bind, append_assoc, hp]
  exact hf rest

lemma ReadsTo.lift_bind_of_eq {y : Except ε β} (hx : x = .ok a) (hf : ReadsTo (f a) bs y) :
    ReadsTo (lift x >>= f) bs y := by
  simpa using (reads_lift hx).bindTo hf

lemma ReadsTo.lift_bind {g : α → Except ε β} (hf : ∀ a, x = .ok a → ReadsTo (f a) bs (g a)) :
    ReadsTo (lift x >>= f) bs (x >>= g) := by
  intro rest
  cases x with
  | error e => rfl
  | ok a => exact hf a rfl rest

/-- Read a fixed tag, failing with `bad` on any other bytes. -/
def expect (e bad : ε) (tag : List UInt8) : Reader ε Unit := do
  let bs ← take e tag.length
  if bs ≠ tag then throw bad

lemma reads_expect (e bad : ε) (tag : List UInt8) : Reads (expect e bad tag) tag () := by
  have htake : Reads (take e tag.length) tag tag := reads_take rfl
  have h := htake.bind (f := fun bs => if bs ≠ tag then throw bad else Pure.pure ())
    (Reads.check (by simp) (Reads.pure ()))
  rwa [append_nil] at h

lemma reads_readMany (h : ∀ x ∈ xs, Reads p (enc x) x) :
    Reads (readMany p xs.length) (xs.flatMap enc) xs := by
  induction xs with
  | nil => exact Reads.pure []
  | cons x xs ih =>
    have hxs := ih fun y hy => h y (by simp [hy])
    exact (h x (by simp)).bind hxs.bind_pure

/-! ### Fixed-width integers -/

/-- A machine integer type of `n` bytes. -/
class FixedWidth (α : Type) (n : outParam ℕ) where
  toNat : α → ℕ
  ofNat : ℕ → α
  toNat_lt : ∀ x, toNat x < 256 ^ n
  ofNat_toNat : ∀ x, ofNat (toNat x) = x
  toNat_ofNat : ∀ m, m < 256 ^ n → toNat (ofNat m) = m

/-- The 128-bit unsigned integers. -/
abbrev U128 := Fin (2 ^ 128)

instance neZeroU128 : NeZero (2 ^ 128) := inferInstance

instance : FixedWidth UInt8 1 where
  toNat := UInt8.toNat
  ofNat := UInt8.ofNat
  toNat_lt x := x.toNat_lt
  ofNat_toNat _ := UInt8.ofNat_toNat
  toNat_ofNat _ h := UInt8.toNat_ofNat_of_lt h

instance : FixedWidth UInt16 2 where
  toNat := UInt16.toNat
  ofNat := UInt16.ofNat
  toNat_lt x := x.toNat_lt
  ofNat_toNat _ := UInt16.ofNat_toNat
  toNat_ofNat _ h := UInt16.toNat_ofNat_of_lt h

instance : FixedWidth UInt32 4 where
  toNat := UInt32.toNat
  ofNat := UInt32.ofNat
  toNat_lt x := x.toNat_lt
  ofNat_toNat _ := UInt32.ofNat_toNat
  toNat_ofNat _ h := UInt32.toNat_ofNat_of_lt h

instance : FixedWidth UInt64 8 where
  toNat := UInt64.toNat
  ofNat := UInt64.ofNat
  toNat_lt x := x.toNat_lt
  ofNat_toNat _ := UInt64.ofNat_toNat
  toNat_ofNat _ h := UInt64.toNat_ofNat_of_lt h

/-- Signed integers travel as their two's complement. -/
instance : FixedWidth Int64 8 where
  toNat x := x.toUInt64.toNat
  ofNat x := (UInt64.ofNat x).toInt64
  toNat_lt x := x.toUInt64.toNat_lt
  ofNat_toNat x := by rw [UInt64.ofNat_toNat, Int64.toInt64_toUInt64]
  toNat_ofNat m h := by rw [UInt64.toUInt64_toInt64]; exact UInt64.toNat_ofNat_of_lt h

instance : FixedWidth U128 16 where
  toNat := Fin.val
  ofNat := Fin.ofNat _
  toNat_lt x := x.isLt
  ofNat_toNat x := by simp
  toNat_ofNat m h := Nat.mod_eq_of_lt h

section FixedWidth

variable {n : ℕ} [FixedWidth α n]

/-- The big-endian bytes of a machine integer. -/
def toBeBytes (x : α) : List UInt8 := beBytes n (FixedWidth.toNat x)

/-- Read one machine integer. -/
def word (e : ε) (α : Type) {n : ℕ} [FixedWidth α n] : Reader ε α :=
  (fun bs => FixedWidth.ofNat (ofBeBytes bs)) <$> take e n

@[simp] lemma length_toBeBytes (x : α) : (toBeBytes x).length = n := by simp [toBeBytes]

lemma reads_word (e : ε) (x : α) : Reads (word e α) (toBeBytes x) x := by
  have h : Reads (word e α) (toBeBytes x) (FixedWidth.ofNat (ofBeBytes (toBeBytes x))) :=
    Reads.map _ (reads_take (length_toBeBytes x))
  rwa [toBeBytes, ofBeBytes_beBytes (FixedWidth.toNat_lt x), FixedWidth.ofNat_toNat] at h

lemma toBeBytes_injective : Function.Injective (toBeBytes : α → List UInt8) := by
  intro x y h
  have hx : x = y ∧ ([] : List UInt8) = [] :=
    (reads_word () x).inj (reads_word () y) (by simpa using h)
  exact hx.1

/-- A count or length, cast to the width of `α`. -/
def countBytes (α : Type) {n : ℕ} [FixedWidth α n] (count : ℕ) : List UInt8 :=
  toBeBytes (FixedWidth.ofNat count : α)

/-- Read a count, refusing one beyond `max`. -/
def readCount (e big : ε) (α : Type) {n : ℕ} [FixedWidth α n] (max : ℕ) : Reader ε ℕ := do
  let count ← word e α
  if max < FixedWidth.toNat count then throw big
  return FixedWidth.toNat count

@[simp] lemma length_countBytes (count : ℕ) : (countBytes α count).length = n := by
  simp [countBytes]

lemma reads_readCount (e big : ε) {max count : ℕ} (hmax : count ≤ max) (hfit : count < 256 ^ n) :
    Reads (readCount e big α max) (countBytes α count) count := by
  have hlen := FixedWidth.toNat_ofNat (α := α) count hfit
  have h := (reads_word e (FixedWidth.ofNat count : α)).bind (f := fun count =>
    if max < FixedWidth.toNat count then throw big else Pure.pure (FixedWidth.toNat count))
    (Reads.check (by omega) (Reads.pure _))
  rwa [append_nil, hlen] at h

/-- Counts that fit the width are told apart. -/
lemma countBytes_append_inj {x y : ℕ} {r s : List UInt8} (hx : x < 256 ^ n) (hy : y < 256 ^ n)
    (h : countBytes α x ++ r = countBytes α y ++ s) : x = y ∧ r = s := by
  obtain ⟨hcount, hrest⟩ := append_inj h (by simp)
  have hnat := congrArg FixedWidth.toNat (toBeBytes_injective hcount)
  rw [FixedWidth.toNat_ofNat _ hx, FixedWidth.toNat_ofNat _ hy] at hnat
  exact ⟨hnat, hrest⟩

/-- A byte string behind its length, the length cast to the width of `α`. -/
def framed (α : Type) {n : ℕ} [FixedWidth α n] (bs : List UInt8) : List UInt8 :=
  countBytes α bs.length ++ bs

/-- Read a length-prefixed byte string, refusing a declared length beyond `max` before taking it. -/
def readFramed (e big : ε) (α : Type) {n : ℕ} [FixedWidth α n] (max : ℕ) :
    Reader ε (List UInt8) := do
  let len ← readCount e big α max
  take e len

@[simp] lemma length_framed (bs : List UInt8) : (framed α bs).length = n + bs.length := by
  simp [framed]

lemma reads_framed (e big : ε) {max : ℕ} {bs : List UInt8} (hmax : bs.length ≤ max)
    (hfit : bs.length < 256 ^ n) : Reads (readFramed e big α max) (framed α bs) bs :=
  (reads_readCount e big hmax hfit).bind (reads_take rfl)

/-- Length-prefixed byte strings are self-delimiting while the lengths fit the width. -/
lemma framed_append_inj {xs ys r s : List UInt8} (hx : xs.length < 256 ^ n)
    (hy : ys.length < 256 ^ n) (h : framed α xs ++ r = framed α ys ++ s) : xs = ys ∧ r = s := by
  simp only [framed, append_assoc] at h
  obtain ⟨hlen, hrest⟩ := countBytes_append_inj hx hy h
  exact append_inj hrest hlen

end FixedWidth

lemma toBeBytes_byte (b : UInt8) : toBeBytes b = [b] := by
  simp [toBeBytes, beBytes, FixedWidth.toNat]

/-- A single byte. -/
lemma reads_byte (e : ε) (b : UInt8) : Reads (word e UInt8) [b] b :=
  toBeBytes_byte b ▸ reads_word e b

/-! ### What a reader accepts -/

/-- `p` accepts exactly the encodings of the values that satisfy `P`. -/
def Decodes (p : Reader ε α) (enc : α → List UInt8) (P : α → Prop) : Prop :=
  ∀ bs a rest, p.run bs = .ok (a, rest) ↔ bs = enc a ++ rest ∧ P a

lemma Decodes.reads (h : Decodes p enc P) (ha : P a) : Reads p (enc a) a :=
  fun _ => (h _ _ _).mpr ⟨rfl, ha⟩

/-- Reading a field, and then the rest of a record. -/
lemma Decodes.bind (h : Decodes p enc P) : (p >>= f).run bs = .ok (b, rest) ↔
      ∃ a, P a ∧ ∃ mid, bs = enc a ++ mid ∧ (f a).run mid = .ok (b, rest) := by
  rw [run_bind_ok]
  constructor
  · rintro ⟨a, mid, hp, hf⟩
    obtain ⟨hbs, ha⟩ := (h _ _ _).mp hp
    exact ⟨a, ha, mid, hbs, hf⟩
  · rintro ⟨a, ha, mid, hbs, hf⟩
    exact ⟨a, mid, (h _ _ _).mpr ⟨hbs, ha⟩, hf⟩

/-- A fallible step before the rest of a record. -/
lemma lift_bind_ok :
    (lift x >>= f).run bs = .ok (b, rest) ↔ ∃ a, x = .ok a ∧ (f a).run bs = .ok (b, rest) := by
  rw [run_bind_ok]
  constructor
  · rintro ⟨a, mid, hlift, hf⟩
    obtain ⟨hx, rfl⟩ := run_lift_ok.mp hlift
    exact ⟨a, hx, hf⟩
  · rintro ⟨a, hx, hf⟩
    exact ⟨a, bs, run_lift_ok.mpr ⟨hx, rfl⟩, hf⟩

lemma run_pure_ok {b : α} : (pure a : Reader ε α).run bs = .ok (b, rest) ↔ a = b ∧ bs = rest := by
  simp

lemma Decodes.map (h : Decodes p enc P) {f : α → β} :
    (f <$> p).run bs = .ok (b, rest) ↔ ∃ a, P a ∧ b = f a ∧ bs = enc a ++ rest := by
  rw [map_eq_pure_bind, h.bind]
  simp only [run_pure_ok]
  constructor
  · rintro ⟨a, ha, mid, rfl, rfl, rfl⟩
    exact ⟨a, ha, rfl, rfl⟩
  · rintro ⟨a, ha, rfl, rfl⟩
    exact ⟨a, ha, rest, rfl, rfl, rfl⟩

lemma decodes_take (e : ε) (n : ℕ) : Decodes (take e n) id fun bs => bs.length = n := by
  intro bs a rest
  constructor
  · intro h
    simp only [take, StateT.run] at h
    split_ifs at h with hn
    cases h
    exact ⟨(take_append_drop n bs).symm, by simp [hn]⟩
  · rintro ⟨rfl, hlength⟩
    exact reads_take hlength rest

lemma decodes_word (e : ε) (α : Type) [FixedWidth α n] :
    Decodes (word e α) toBeBytes fun _ => True := by
  intro bs x rest
  constructor
  · intro h
    rw [word, map_eq_pure_bind, (decodes_take e n).bind] at h
    obtain ⟨raw, hlength, mid, rfl, h⟩ := h
    obtain ⟨rfl, rfl⟩ := run_pure_ok.mp h
    have hfit : ofBeBytes raw < 256 ^ n := hlength ▸ ofBeBytes_lt raw
    have hraw : beBytes n (ofBeBytes raw) = raw := hlength ▸ beBytes_ofBeBytes raw
    rw [toBeBytes, FixedWidth.toNat_ofNat _ hfit, hraw]
    exact ⟨rfl, trivial⟩
  · rintro ⟨rfl, -⟩
    exact reads_word e x rest

lemma decodes_readCount (e big : ε) (α : Type) [FixedWidth α n] (hmax : max < 256 ^ n) :
    Decodes (readCount e big α max) (countBytes α) fun count => count ≤ max := by
  intro bs count rest
  constructor
  · intro h
    rw [readCount, (decodes_word e α).bind] at h
    obtain ⟨x, -, mid, rfl, h⟩ := h
    by_cases hbig : max < FixedWidth.toNat x
    · rw [if_pos hbig] at h
      cases h
    · rw [if_neg hbig] at h
      obtain ⟨rfl, rfl⟩ := run_pure_ok.mp h
      rw [countBytes, FixedWidth.ofNat_toNat]
      exact ⟨rfl, not_lt.mp hbig⟩
  · rintro ⟨rfl, hle⟩
    exact reads_readCount e big hle (hle.trans_lt hmax) rest

lemma decodes_readFramed (e big : ε) (α : Type) [FixedWidth α n] (hmax : max < 256 ^ n) :
    Decodes (readFramed e big α max) (framed α) fun bs => bs.length ≤ max := by
  intro bs field rest
  rw [readFramed, (decodes_readCount e big α hmax).bind]
  constructor
  · rintro ⟨count, hle, mid, rfl, h⟩
    obtain ⟨rfl, rfl⟩ := (decodes_take e count _ _ _).mp h
    exact ⟨by rw [framed, append_assoc]; rfl, hle⟩
  · rintro ⟨rfl, hle⟩
    exact ⟨field.length, hle, field ++ rest, by rw [framed, append_assoc],
      (decodes_take e _ _ _ _).mpr ⟨rfl, rfl⟩⟩

lemma decodes_readMany (h : Decodes p enc P) (n : ℕ) :
    Decodes (readMany p n) (List.flatMap enc) fun xs => xs.length = n ∧ ∀ x ∈ xs, P x := by
  induction n with
  | zero =>
    intro bs xs rest
    rw [readMany, run_pure_ok]
    simp only [length_eq_zero_iff]
    constructor
    · rintro ⟨rfl, rfl⟩
      simp
    · rintro ⟨rfl, rfl, -⟩
      simp
  | succ n ih =>
    intro bs xs rest
    rw [readMany, h.bind]
    simp only [ih.bind, run_pure_ok]
    constructor
    · rintro ⟨x, hx, mid, rfl, xs', ⟨hlength, hxs⟩, mid', rfl, rfl, rfl⟩
      exact ⟨by simp, by simp [hlength], by simpa using ⟨hx, hxs⟩⟩
    · rintro ⟨rfl, hlength, hall⟩
      match xs, hlength with
      | x :: xs, hlength =>
        obtain ⟨hx, hxs⟩ := forall_mem_cons.mp hall
        exact ⟨x, hx, xs.flatMap enc ++ rest, by simp, xs, ⟨by simpa using hlength, hxs⟩, rest,
          rfl, rfl, rfl⟩

/-- A list behind its count. -/
lemma Decodes.counted [FixedWidth β n] {q : Reader ε ℕ}
    (hq : Decodes q (countBytes β) fun count => count ≤ max) (hp : Decodes p enc P) :
    Decodes (q >>= readMany p) (fun xs => countBytes β xs.length ++ xs.flatMap enc)
      fun xs => xs.length ≤ max ∧ ∀ x ∈ xs, P x := by
  intro bs xs rest
  rw [hq.bind]
  simp only [decodes_readMany hp _ _ xs rest]
  constructor
  · rintro ⟨n, hn, mid, rfl, rfl, rfl, hxs⟩
    exact ⟨by rw [append_assoc], hn, hxs⟩
  · rintro ⟨rfl, hlength, hxs⟩
    exact ⟨xs.length, hlength, _, by rw [append_assoc], rfl, rfl, hxs⟩

/-- Read all of some bytes, and fail when some are left. -/
def whole (p : Reader ε α) (e : ε) (bs : List UInt8) : Except ε α := do
  let (a, rest) ← p.run bs
  failIf (rest ≠ []) e
  return a

lemma Decodes.whole_ok (h : Decodes p enc P) : whole p e bs = .ok a ↔ bs = enc a ∧ P a := by
  rw [whole, bind_ok]
  constructor
  · rintro ⟨⟨a', rest⟩, hrun, hwhole⟩
    obtain ⟨hrest, ha⟩ := failIf_bind_ok.mp hwhole
    cases ha
    obtain ⟨hbytes, ha⟩ := (h _ _ _).mp hrun
    rw [not_not.mp hrest, append_nil] at hbytes
    exact ⟨hbytes, ha⟩
  · rintro ⟨rfl, ha⟩
    exact ⟨(a, []), (h _ _ _).mpr ⟨by simp, ha⟩, failIf_bind_ok.mpr ⟨by simp, rfl⟩⟩

/-! ### Framing without a reader

A hash preimage is never decoded, but the same argument applies: strings of known length, and
lists of known count whose items are self-delimiting, split a concatenation in only one way. -/

/-- Two concatenations of equally many self-delimiting items agree item by item, up to what the
items' encodings determine. -/
lemma flatMap_append_inj (key : α → κ)
    (hitem : ∀ x ∈ xs, ∀ y ∈ ys, ∀ r s, enc x ++ r = enc y ++ s → key x = key y ∧ r = s)
    (hlen : xs.length = ys.length) (h : xs.flatMap enc ++ r = ys.flatMap enc ++ s) :
    xs.map key = ys.map key ∧ r = s := by
  induction xs generalizing ys with
  | nil =>
    obtain rfl : ys = [] := length_eq_zero_iff.mp hlen.symm
    exact ⟨rfl, by simpa using h⟩
  | cons x xs ih =>
    match ys, hlen with
    | y :: ys, hlen =>
      simp only [flatMap_cons, append_assoc] at h
      obtain ⟨hkey, hrest⟩ := hitem x (by simp) y (by simp) _ _ h
      have htail := ih (fun u hu v hv => hitem u (by simp [hu]) v (by simp [hv]))
        (by simpa using hlen) hrest
      exact ⟨by simp [hkey, htail.1], htail.2⟩

/-- Short lists behind their lengths agree, when short items are told apart. -/
lemma counted_append_inj [FixedWidth κ n] (hpos : ∀ x, 0 < (enc x).length)
    (hitem : ∀ x y r s, (enc x).length < 256 ^ n → (enc y).length < 256 ^ n →
      enc x ++ r = enc y ++ s → x = y ∧ r = s)
    (hxs : (xs.flatMap enc).length < 256 ^ n) (hys : (ys.flatMap enc).length < 256 ^ n)
    (h : countBytes κ xs.length ++ (xs.flatMap enc ++ r) =
      countBytes κ ys.length ++ (ys.flatMap enc ++ s)) :
    xs = ys ∧ r = s := by
  have hle : ∀ zs : List α, ∀ z ∈ zs, (enc z).length ≤ (zs.flatMap enc).length := by
    intro zs z hz
    rw [length_flatMap]
    exact le_sum_of_mem (mem_map_of_mem hz)
  have hcount : ∀ zs : List α, zs.length ≤ (zs.flatMap enc).length := by
    intro zs
    induction zs with
    | nil => simp
    | cons z zs ih =>
      have := hpos z
      simp only [length_cons, flatMap_cons, length_append]
      omega
  obtain ⟨hlength, h⟩ :=
    countBytes_append_inj ((hcount xs).trans_lt hxs) ((hcount ys).trans_lt hys) h
  obtain ⟨hmap, hrest⟩ := flatMap_append_inj (fun x => x) (fun x hx y hy r s heq =>
    hitem x y r s ((hle xs x hx).trans_lt hxs) ((hle ys y hy).trans_lt hys) heq) hlength h
  exact ⟨by simpa using hmap, hrest⟩

/-- Two concatenations of self-delimiting items: one list of items begins with the other. -/
lemma flatMap_append_cases
    (hitem : ∀ x ∈ xs, ∀ y ∈ ys, ∀ r s, enc x ++ r = enc y ++ s → x = y ∧ r = s)
    (h : xs.flatMap enc ++ r = ys.flatMap enc ++ s) :
    (∃ zs, ys = xs ++ zs ∧ r = zs.flatMap enc ++ s) ∨
      ∃ zs, xs = ys ++ zs ∧ s = zs.flatMap enc ++ r := by
  induction xs generalizing ys with
  | nil => exact .inl ⟨ys, rfl, h⟩
  | cons x xs ih =>
    match ys with
    | [] => exact .inr ⟨x :: xs, rfl, h.symm⟩
    | y :: ys =>
      simp only [flatMap_cons, append_assoc] at h
      obtain ⟨rfl, hrest⟩ := hitem x (by simp) y (by simp) _ _ h
      rcases ih (fun u hu v hv => hitem u (by simp [hu]) v (by simp [hv])) hrest with
        ⟨zs, rfl, hr⟩ | ⟨zs, rfl, hs⟩
      · exact .inl ⟨zs, rfl, hr⟩
      · exact .inr ⟨zs, rfl, hs⟩

end Codec
