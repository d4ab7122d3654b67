import Mathlib.Data.List.GetD
import Mathlib.Data.Nat.Find
import Mathlib.Data.Nat.Prime.Basic
import Mathlib.Data.List.Range
import Mathlib.Tactic.Ring

/-! # The secure hash standard

SHA-256 as FIPS 180-4 defines it: a message is a string of bits, which is padded to blocks of 512 bits, and every
block is compressed into eight words of 32 bits. The constants are fractions of roots of primes. -/

namespace ZenovOS.SecureHash

/-! ### Functions on words (§3.2, §4.1.2) -/

def rotr (n x : UInt32) : UInt32 := (x >>> n) ||| (x <<< (32 - n))

def ch (x y z : UInt32) : UInt32 := (x &&& y) ^^^ (~~~x &&& z)

def maj (x y z : UInt32) : UInt32 := (x &&& y) ^^^ (x &&& z) ^^^ (y &&& z)

def bigSigma0 (x : UInt32) : UInt32 := rotr 2 x ^^^ rotr 13 x ^^^ rotr 22 x

def bigSigma1 (x : UInt32) : UInt32 := rotr 6 x ^^^ rotr 11 x ^^^ rotr 25 x

def smallSigma0 (x : UInt32) : UInt32 := rotr 7 x ^^^ rotr 18 x ^^^ (x >>> 3)

def smallSigma1 (x : UInt32) : UInt32 := rotr 17 x ^^^ rotr 19 x ^^^ (x >>> 10)

/-! ### Constants (§4.2.2, §5.3.3) -/

/-- The whole part of the `k`-th root. -/
def root (k n : Nat) : Nat := Nat.findGreatest (fun r => r ^ k ≤ n) n

/-- The first 32 bits of the fractional part of the `k`-th root of `p`. -/
def fraction (k p : Nat) : UInt32 := UInt32.ofNat (root k (p * 2 ^ (32 * k)))

/-- The first 64 primes. -/
def primes : List Nat :=
  [2, 3, 5, 7, 11, 13, 17, 19, 23, 29, 31, 37, 41, 43, 47, 53, 59, 61, 67, 71, 73, 79, 83, 89, 97, 101, 103, 107, 109, 113, 127,
   131, 137, 139, 149, 151, 157, 163, 167, 173, 179, 181, 191, 193, 197, 199, 211, 223, 227, 229, 233, 239, 241, 251, 257, 263,
   269, 271, 277, 281, 283, 293, 307, 311]

def constant (t : Nat) : UInt32 := fraction 3 (primes.getD t 0)

theorem root_eq {k n r : Nat} (hk : k ≠ 0) (hlow : r ^ k ≤ n) (hhigh : n < (r + 1) ^ k) : root k n = r := by
  unfold root
  rw [Nat.findGreatest_eq_iff]
  refine ⟨(Nat.le_self_pow hk r).trans hlow, fun _ => hlow, fun m hm _ hle => ?_⟩
  exact absurd (Nat.pow_le_pow_left (Nat.succ_le_of_lt hm) k) (Nat.not_le.mpr (Nat.lt_of_le_of_lt hle hhigh))

theorem fraction_eq {k p r : Nat} (hk : k ≠ 0) (hlow : r ^ k ≤ p * 2 ^ (32 * k)) (hhigh : p * 2 ^ (32 * k) < (r + 1) ^ k) :
    fraction k p = UInt32.ofNat r := by
  unfold fraction
  rw [root_eq hk hlow hhigh]

/-- The working variables, and the words of a hash value. -/
structure Work where
  a : UInt32
  b : UInt32
  c : UInt32
  d : UInt32
  e : UInt32
  f : UInt32
  g : UInt32
  h : UInt32

def initial : Work :=
  ⟨fraction 2 2, fraction 2 3, fraction 2 5, fraction 2 7, fraction 2 11, fraction 2 13, fraction 2 17, fraction 2 19⟩

/-! ### Compression (§6.2.2) -/

/-- The message schedule of a block of sixteen words. -/
def schedule (block : Nat → UInt32) (t : Nat) : UInt32 :=
  if t < 16 then block t
  else smallSigma1 (schedule block (t - 2)) + schedule block (t - 7) + smallSigma0 (schedule block (t - 15)) + schedule block (t - 16)

def step (w : Nat → UInt32) (v : Work) (t : Nat) : Work :=
  let t1 := v.h + bigSigma1 v.e + ch v.e v.f v.g + constant t + w t
  let t2 := bigSigma0 v.a + maj v.a v.b v.c
  ⟨t1 + t2, v.a, v.b, v.c, v.d + t1, v.e, v.f, v.g⟩

def compress (h : Work) (block : Nat → UInt32) : Work :=
  let v := (List.range 64).foldl (step (schedule block)) h
  ⟨h.a + v.a, h.b + v.b, h.c + v.c, h.d + v.d, h.e + v.e, h.f + v.f, h.g + v.g, h.h + v.h⟩

theorem schedule_of_lt {block : Nat → UInt32} {t : Nat} (h : t < 16) : schedule block t = block t := by
  rw [schedule, if_pos h]

theorem schedule_of_le {block : Nat → UInt32} {t : Nat} (h : 16 ≤ t) :
    schedule block t =
      smallSigma1 (schedule block (t - 2)) + schedule block (t - 7) + smallSigma0 (schedule block (t - 15)) + schedule block (t - 16) := by
  rw [schedule, if_neg (Nat.not_lt.mpr h)]

theorem schedule_congr {b b' : Nat → UInt32} (h : ∀ t < 16, b t = b' t) (t : Nat) : schedule b t = schedule b' t := by
  induction t using Nat.strong_induction_on with
  | _ t ih =>
    by_cases ht : t < 16
    · rw [schedule_of_lt ht, schedule_of_lt ht, h t ht]
    · have hle := Nat.not_lt.mp ht
      rw [schedule_of_le hle, schedule_of_le hle, ih (t - 2) (by omega), ih (t - 7) (by omega), ih (t - 15) (by omega),
        ih (t - 16) (by omega)]

theorem compress_congr (v : Work) {b b' : Nat → UInt32} (h : ∀ t < 16, b t = b' t) : compress v b = compress v b' := by
  unfold compress
  rw [funext (schedule_congr h)]

/-! ### Messages (§5.1.1, §5.2.1) -/

/-- The bits of a word, the most significant first. -/
def bitsOf {n : Nat} (w : BitVec n) : List Bool := (List.range n).map w.getMsbD

def message (bytes : List UInt8) : List Bool := bytes.flatMap fun b => bitsOf b.toBitVec

/-- The number of zeros between the bit that ends a message of `l` bits and its length. -/
def zeros (l : Nat) : Nat := (959 - l % 512) % 512

def pad (bits : List Bool) : List Bool :=
  bits ++ true :: List.replicate (zeros bits.length) false ++ bitsOf (BitVec.ofNat 64 bits.length)

/-- The number that the bits write. -/
def number (bits : List Bool) : Nat := bits.foldl (fun n b => 2 * n + b.toNat) 0

/-- Word `i` of the bits. -/
def word (bits : List Bool) (i : Nat) : UInt32 := UInt32.ofNat (number ((bits.drop (32 * i)).take 32))

/-- The hash value of a string of bits. -/
def hash (bits : List Bool) : Work :=
  let padded := pad bits
  (List.range (padded.length / 512)).foldl (fun h i => compress h fun t => word padded (16 * i + t)) initial

/-- The bytes of a word, the most significant first. -/
def bytesOf (w : UInt32) : List UInt8 := [(w >>> 24).toUInt8, (w >>> 16).toUInt8, (w >>> 8).toUInt8, w.toUInt8]

/-- The message digest of a string of bytes. -/
def digest (bytes : List UInt8) : List UInt8 :=
  let h := hash (message bytes)
  [h.a, h.b, h.c, h.d, h.e, h.f, h.g, h.h].flatMap bytesOf

/-! ### Messages of bytes -/

@[simp] theorem length_bitsOf {n : Nat} (w : BitVec n) : (bitsOf w).length = n := by
  rw [bitsOf, List.length_map, List.length_range]

theorem message_append (a b : List UInt8) : message (a ++ b) = message a ++ message b := List.flatMap_append

theorem message_cons (b : UInt8) (bytes : List UInt8) : message (b :: bytes) = bitsOf b.toBitVec ++ message bytes := List.flatMap_cons

@[simp] theorem length_message (bytes : List UInt8) : (message bytes).length = 8 * bytes.length := by
  induction bytes with
  | nil => rfl
  | cons b bytes ih =>
    rw [message_cons, List.length_append, length_bitsOf, ih, List.length_cons]
    omega

theorem drop_message (bytes : List UInt8) {n : Nat} (h : n ≤ bytes.length) : (message bytes).drop (8 * n) = message (bytes.drop n) := by
  have hfront : (message (bytes.take n)).length = 8 * n := by rw [length_message, List.length_take, Nat.min_eq_left h]
  conv_lhs => rw [← List.take_append_drop n bytes, message_append, ← hfront, List.drop_left]

theorem take_message (bytes : List UInt8) {n : Nat} (h : n ≤ bytes.length) : (message bytes).take (8 * n) = message (bytes.take n) := by
  have hfront : (message (bytes.take n)).length = 8 * n := by rw [length_message, List.length_take, Nat.min_eq_left h]
  conv_lhs => rw [← List.take_append_drop n bytes, message_append, ← hfront, List.take_left]

theorem message_zeros (n : Nat) : message (List.replicate n 0) = List.replicate (8 * n) false := by
  induction n with
  | zero => rfl
  | succ n ih =>
    have hzero : bitsOf (0 : UInt8).toBitVec = List.replicate 8 false := by decide
    rw [List.replicate_succ, message_cons, ih, hzero, List.replicate_append_replicate]
    congr 1
    omega

/-- The bytes of a length, the most significant first. -/
def lengthBytes (l : Nat) : List UInt8 := (List.range 8).map fun i => UInt8.ofNat (l >>> (56 - i * 8))

theorem message_lengthBytes (l : Nat) : message (lengthBytes l) = bitsOf (BitVec.ofNat 64 l) := by
  have hrange : List.range 64 = (List.range 8).flatMap fun i => (List.range 8).map fun j => 8 * i + j := by decide
  unfold message lengthBytes bitsOf
  rw [hrange, List.flatMap_map, List.map_flatMap]
  refine List.flatMap_congr fun i hi => ?_
  rw [List.map_map]
  refine List.map_congr_left fun j hj => ?_
  have hi := List.mem_range.mp hi
  have hj := List.mem_range.mp hj
  have hbyte : ∀ n : Nat, (UInt8.ofNat n).toBitVec.getMsbD j = n.testBit (7 - j) := by
    intro n
    show (BitVec.ofNat 8 n).getMsbD j = _
    rw [BitVec.getMsbD, BitVec.getLsbD_ofNat, decide_eq_true hj, decide_eq_true (show 8 - 1 - j < 8 by omega), Bool.true_and, Bool.true_and]
  have hwhole : (BitVec.ofNat 64 l).getMsbD (8 * i + j) = l.testBit (63 - (8 * i + j)) := by
    rw [BitVec.getMsbD, BitVec.getLsbD_ofNat, decide_eq_true (show 8 * i + j < 64 by omega),
      decide_eq_true (show 64 - 1 - (8 * i + j) < 64 by omega), Bool.true_and, Bool.true_and]
  show (UInt8.ofNat (l >>> (56 - i * 8))).toBitVec.getMsbD j = (BitVec.ofNat 64 l).getMsbD (8 * i + j)
  rw [hbyte, hwhole, Nat.testBit_shiftRight]
  congr 1
  omega

/-- The padded message in bytes. -/
def padBytes (bytes : List UInt8) : List UInt8 :=
  bytes ++ (0x80 :: List.replicate ((119 - bytes.length % 64) % 64) 0 ++ lengthBytes (8 * bytes.length))

theorem pad_message (bytes : List UInt8) : pad (message bytes) = message (padBytes bytes) := by
  have hone : bitsOf (0x80 : UInt8).toBitVec = true :: List.replicate 7 false := by decide
  have hzeros : zeros (8 * bytes.length) = 7 + 8 * ((119 - bytes.length % 64) % 64) := by
    unfold zeros
    omega
  unfold pad padBytes
  rw [length_message, hzeros, message_append, List.cons_append, message_cons, message_append, message_zeros, message_lengthBytes, hone,
    ← List.replicate_append_replicate]
  simp only [List.append_assoc, List.cons_append]

theorem length_padBytes (bytes : List UInt8) :
    (padBytes bytes).length = bytes.length + 9 + (119 - bytes.length % 64) % 64 := by
  unfold padBytes lengthBytes
  simp only [List.length_append, List.length_cons, List.length_replicate, List.length_map, List.length_range]
  omega

/-! ### Words -/

theorem number_append (a b : List Bool) : number (a ++ b) = number a * 2 ^ b.length + number b := by
  unfold number
  rw [List.foldl_append]
  generalize a.foldl _ 0 = n
  induction b using List.reverseRecOn with
  | nil => simp
  | append_singleton b x ih =>
    rw [List.foldl_append, List.foldl_append, ih, List.length_append]
    simp only [List.foldl_cons, List.foldl_nil, List.length_singleton, Nat.pow_succ]
    ring

theorem number_getMsbD {n : Nat} (w : BitVec n) {k : Nat} (h : k ≤ n) :
    number ((List.range k).map w.getMsbD) = w.toNat >>> (n - k) := by
  induction k with
  | zero =>
    rw [Nat.sub_zero, Nat.shiftRight_eq_div_pow, Nat.div_eq_of_lt w.isLt]
    rfl
  | succ k ih =>
    have hbit : (w.getMsbD k).toNat = w.toNat >>> (n - (k + 1)) % 2 := by
      have hindex : n - 1 - k = n - (k + 1) := by omega
      rw [BitVec.getMsbD, decide_eq_true (show k < n by omega), Bool.true_and, BitVec.getLsbD, hindex, Nat.toNat_testBit,
        Nat.shiftRight_eq_div_pow]
    have hshift : n - k = n - (k + 1) + 1 := by omega
    rw [List.range_succ, List.map_append, number_append, ih (by omega), hshift, Nat.shiftRight_succ]
    generalize w.toNat >>> (n - (k + 1)) = q at hbit ⊢
    show q / 2 * 2 ^ 1 + (2 * 0 + (w.getMsbD k).toNat) = q
    omega

theorem number_bitsOf {n : Nat} (w : BitVec n) : number (bitsOf w) = w.toNat := by
  have h := number_getMsbD w (Nat.le_refl n)
  rwa [Nat.sub_self, Nat.shiftRight_zero] at h

theorem word_message (bytes : List UInt8) {i : Nat} (h : 4 * i + 4 ≤ bytes.length) :
    word (message bytes) i = UInt32.ofNat
      ((((bytes.getD (4 * i) 0).toNat * 256 + (bytes.getD (4 * i + 1) 0).toNat) * 256 + (bytes.getD (4 * i + 2) 0).toNat) * 256 +
        (bytes.getD (4 * i + 3) 0).toNat) := by
  have hfour : (bytes.drop (4 * i)).take 4 =
      [bytes.getD (4 * i) 0, bytes.getD (4 * i + 1) 0, bytes.getD (4 * i + 2) 0, bytes.getD (4 * i + 3) 0] := by
    have hget : ∀ k < 4, (bytes.drop (4 * i))[k]? = some (bytes.getD (4 * i + k) 0) := by
      intro k hk
      rw [List.getElem?_drop, List.getElem?_eq_getElem (by omega), List.getD_eq_getElem _ _ (by omega)]
    apply List.ext_getElem?
    intro k
    rw [List.getElem?_take]
    rcases k with _ | _ | _ | _ | k
    · exact hget 0 (by decide)
    · exact hget 1 (by decide)
    · exact hget 2 (by decide)
    · exact hget 3 (by decide)
    · rw [if_neg (by omega)]
      rfl
  have hbits : ((message bytes).drop (32 * i)).take 32 = message ((bytes.drop (4 * i)).take 4) := by
    have hdrop : (message bytes).drop (32 * i) = message (bytes.drop (4 * i)) := by
      rw [← drop_message bytes (by omega)]
      congr 1
      omega
    rw [hdrop, ← take_message _ (by rw [List.length_drop]; omega)]
  unfold word
  rw [hbits, hfour, message_cons, message_cons, message_cons, message_cons]
  simp only [number_append, number_bitsOf, List.length_append, length_bitsOf]
  show UInt32.ofNat ((bytes.getD (4 * i) 0).toNat * 2 ^ 24 + ((bytes.getD (4 * i + 1) 0).toNat * 2 ^ 16 +
    ((bytes.getD (4 * i + 2) 0).toNat * 2 ^ 8 + ((bytes.getD (4 * i + 3) 0).toNat * 2 ^ 0 + 0)))) = _
  refine congrArg UInt32.ofNat ?_
  omega

end ZenovOS.SecureHash
