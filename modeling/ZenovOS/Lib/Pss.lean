import ZenovOS.Lib.Bytes

/-! # Signatures with a probabilistic encoding

RSASSA-PSS as RFC 8017 defines it, over any hash function: numbers as strings of octets, the mask generation function, the encoding of
a message with a salt, and what it means that a signature verifies. -/

namespace ZenovOS.Pss
open Bytes

/-! ### Numbers and masks (§4, §B.2.1) -/

/-- The number that the octets write, the most significant first. -/
def os2ip (octets : Bytes) : Nat := toNat octets.reverse

/-- The octets of a number. -/
def i2osp (n length : Nat) : Bytes := (le length n).reverse

theorem length_i2osp (n length : Nat) : (i2osp n length).length = length := by
  rw [i2osp, List.length_reverse, length_le]

/-- The hashes of a seed with each counter, up to a length. -/
def mgf1 (hash : Bytes → Bytes) (hLen : Nat) (seed : Bytes) (maskLen : Nat) : Bytes :=
  ((List.range ((maskLen + hLen - 1) / hLen)).flatMap fun counter => hash (seed ++ i2osp counter 4)).take maskLen

/-- The leftmost bits of the first octet are set to zero. -/
def clearLeft (bits : Nat) : Bytes → Bytes
  | [] => []
  | octet :: rest => (octet &&& UInt8.ofNat (0xff >>> bits)) :: rest

def xor (a b : Bytes) : Bytes := List.zipWith (· ^^^ ·) a b

/-! ### Encodings (§9.1) -/

/-- The options of the encoding; there is room for the hash, the salt and some padding. -/
structure Scheme where
  hash : Bytes → Bytes
  hLen : Nat
  sLen : Nat
  emBits : Nat
  length_hash : ∀ m, (hash m).length = hLen
  pos_hLen : 0 < hLen
  room : hLen + sLen + 2 < (emBits + 7) / 8

namespace Scheme
variable (scheme : Scheme)

/-- The length of an encoded message. -/
def emLen : Nat := (scheme.emBits + 7) / 8

def dbLen : Nat := scheme.emLen - scheme.hLen - 1

def psLen : Nat := scheme.emLen - scheme.sLen - scheme.hLen - 2

/-- The bits of the encoded message that are not used. -/
def unused : Nat := 8 * scheme.emLen - scheme.emBits

def saltedHash (mHash salt : Bytes) : Bytes := scheme.hash (List.replicate 8 0 ++ mHash ++ salt)

def dataBlock (salt : Bytes) : Bytes := List.replicate scheme.psLen 0 ++ 1 :: salt

/-- EMSA-PSS-ENCODE, with the salt. -/
def encode (mHash salt : Bytes) : Bytes :=
  let h := scheme.saltedHash mHash salt
  clearLeft scheme.unused (xor (scheme.dataBlock salt) (mgf1 scheme.hash scheme.hLen h scheme.dbLen)) ++ h ++ [0xbc]

/-- The number that the signature stands for is an encoding of the message, with some salt (§8.1.2). -/
def Verifies (n e : Nat) (signature mHash : Bytes) : Prop :=
  os2ip signature < n ∧ ∃ salt : Bytes, salt.length = scheme.sLen ∧ i2osp (os2ip signature ^ e % n) scheme.emLen = scheme.encode mHash salt

end Scheme

/-! ### Masks -/

theorem length_mgf1 {hash : Bytes → Bytes} {hLen : Nat} (hpos : 0 < hLen) (hhash : ∀ m, (hash m).length = hLen) (seed : Bytes)
    (maskLen : Nat) : (mgf1 hash hLen seed maskLen).length = maskLen := by
  have hlength : ∀ l : List Nat, (l.flatMap fun counter => hash (seed ++ i2osp counter 4)).length = l.length * hLen := by
    intro l
    induction l with
    | nil => exact (Nat.zero_mul hLen).symm
    | cons counter l ih => rw [List.flatMap_cons, List.length_append, hhash, ih, List.length_cons, Nat.succ_mul, Nat.add_comm]
  unfold mgf1
  rw [List.length_take, hlength, List.length_range]
  refine Nat.min_eq_left ?_
  have := Nat.div_add_mod (maskLen + hLen - 1) hLen
  have := Nat.mod_lt (maskLen + hLen - 1) hpos
  have := Nat.mul_comm hLen ((maskLen + hLen - 1) / hLen)
  omega

theorem length_clearLeft (bits : Nat) (octets : Bytes) : (clearLeft bits octets).length = octets.length := by
  cases octets <;> rfl

theorem clearLeft_append (bits : Nat) {a : Bytes} (h : a ≠ []) (b : Bytes) : clearLeft bits (a ++ b) = clearLeft bits a ++ b := by
  obtain ⟨x, a, rfl⟩ := List.exists_cons_of_ne_nil h
  rfl

theorem clearLeft_clearLeft (bits : Nat) (octets : Bytes) : clearLeft bits (clearLeft bits octets) = clearLeft bits octets := by
  cases octets with
  | nil => rfl
  | cons octet rest => rw [clearLeft, clearLeft, UInt8.and_assoc, UInt8.and_self]

theorem clearLeft_xor_clearLeft {bits : Nat} {a mask : Bytes} (h : a.length = mask.length) :
    clearLeft bits (xor (clearLeft bits (xor a mask)) mask) = clearLeft bits a := by
  have hcancel : ∀ x m : UInt8, x ^^^ m ^^^ m = x := fun x m => by rw [UInt8.xor_assoc, UInt8.xor_self, UInt8.xor_zero]
  have hrest : ∀ {a mask : Bytes}, a.length = mask.length → xor (xor a mask) mask = a := by
    intro a
    induction a with
    | nil => exact fun _ => rfl
    | cons x a ih =>
      intro mask hlength
      obtain ⟨m, mask, rfl⟩ := List.exists_cons_of_length_eq_add_one hlength.symm
      show (x ^^^ m ^^^ m) :: xor (xor a mask) mask = x :: a
      rw [hcancel, ih (Nat.succ.inj hlength)]
  cases a with
  | nil => rfl
  | cons x a =>
    obtain ⟨m, mask, rfl⟩ := List.exists_cons_of_length_eq_add_one h.symm
    generalize hk : UInt8.ofNat (0xff >>> bits) = k
    show (((x ^^^ m) &&& UInt8.ofNat (0xff >>> bits) ^^^ m) &&& UInt8.ofNat (0xff >>> bits)) :: xor (xor a mask) mask =
      (x &&& UInt8.ofNat (0xff >>> bits)) :: a
    rw [hrest (Nat.succ.inj h), hk]
    congr 1
    apply UInt8.toBitVec_inj.mp
    ext i hi
    simp only [UInt8.toBitVec_and, UInt8.toBitVec_xor, BitVec.getElem_and, BitVec.getElem_xor]
    cases x.toBitVec[i] <;> cases m.toBitVec[i] <;> cases k.toBitVec[i] <;> rfl

/-! ### Decoding (§9.1.2) -/

section Decode
variable {scheme : Scheme} {em mHash salt : Bytes}

theorem Scheme.lengths (scheme : Scheme) :
    scheme.dbLen + scheme.hLen + 1 = scheme.emLen ∧ scheme.psLen + scheme.sLen + 1 = scheme.dbLen ∧ 0 < scheme.psLen := by
  have := scheme.room
  unfold Scheme.dbLen Scheme.psLen Scheme.emLen
  omega

theorem length_dataBlock (h : salt.length = scheme.sLen) : (scheme.dataBlock salt).length = scheme.dbLen := by
  have := scheme.lengths
  unfold Scheme.dataBlock
  rw [List.length_append, List.length_replicate, List.length_cons]
  omega

theorem clearLeft_dataBlock : clearLeft scheme.unused (scheme.dataBlock salt) = scheme.dataBlock salt := by
  obtain ⟨n, hn⟩ := Nat.exists_eq_add_of_lt scheme.lengths.2.2
  unfold Scheme.dataBlock
  rw [hn, Nat.zero_add, List.replicate_succ, List.cons_append, clearLeft, UInt8.zero_and]

/-- The data block of an encoded message, without its mask. -/
def Scheme.unmasked (scheme : Scheme) (em : Bytes) : Bytes :=
  clearLeft scheme.unused
    (xor (slice em 0 scheme.dbLen) (mgf1 scheme.hash scheme.hLen (slice em scheme.dbLen scheme.hLen) scheme.dbLen))

theorem encode_iff (hem : em.length = scheme.emLen) (hsalt : salt.length = scheme.sLen) :
    em = scheme.encode mHash salt ↔ em.drop (scheme.dbLen + scheme.hLen) = [0xbc] ∧ clearLeft scheme.unused em = em ∧
      scheme.unmasked em = scheme.dataBlock salt ∧ slice em scheme.dbLen scheme.hLen = scheme.saltedHash mHash salt := by
  obtain ⟨hlengths, -, -⟩ := scheme.lengths
  have hh : (scheme.saltedHash mHash salt).length = scheme.hLen := scheme.length_hash _
  have hdb : (scheme.dataBlock salt).length = scheme.dbLen := length_dataBlock hsalt
  have hmask : ∀ seed, (mgf1 scheme.hash scheme.hLen seed scheme.dbLen).length = scheme.dbLen :=
    fun seed => length_mgf1 scheme.pos_hLen scheme.length_hash seed _
  have hxor : ∀ {a b : Bytes}, a.length = scheme.dbLen → b.length = scheme.dbLen → (xor a b).length = scheme.dbLen := by
    intro a b ha hb
    rw [xor, List.length_zipWith, ha, hb, Nat.min_self]
  have hne : ∀ {a : Bytes}, a.length = scheme.dbLen → a ≠ [] := by
    have := scheme.lengths
    rintro a ha rfl
    rw [List.length_nil] at ha
    omega
  constructor
  · intro h
    unfold Scheme.encode at h
    dsimp only at h
    generalize hmasked : clearLeft scheme.unused (xor (scheme.dataBlock salt)
      (mgf1 scheme.hash scheme.hLen (scheme.saltedHash mHash salt) scheme.dbLen)) = masked at h
    have hlength : masked.length = scheme.dbLen := by rw [← hmasked, length_clearLeft, hxor hdb (hmask _)]
    have hfront : slice em 0 scheme.dbLen = masked := by
      rw [h, List.append_assoc]
      exact slice_first hlength
    have hslice : slice em scheme.dbLen scheme.hLen = scheme.saltedHash mHash salt :=
      slice_field masked _ hlength hh (by rw [h, List.append_assoc])
    refine ⟨?_, ?_, ?_, hslice⟩
    · rw [h, List.drop_append_of_le_length (by rw [List.length_append, hlength, hh]),
        List.drop_eq_nil_of_le (by rw [List.length_append, hlength, hh]), List.nil_append]
    · rw [h, List.append_assoc, clearLeft_append _ (hne hlength), ← hmasked, clearLeft_clearLeft]
    · unfold Scheme.unmasked
      rw [hfront, hslice, ← hmasked, clearLeft_xor_clearLeft (hdb.trans (hmask _).symm), clearLeft_dataBlock]
  · rintro ⟨htrailer, hclear, hunmasked, hslice⟩
    have hfront : (slice em 0 scheme.dbLen).length = scheme.dbLen := length_slice (by omega)
    have hparts : em = slice em 0 scheme.dbLen ++ slice em scheme.dbLen scheme.hLen ++ [0xbc] := by
      have hjoin := slice_append_slice em 0 scheme.dbLen scheme.hLen
      rw [Nat.zero_add] at hjoin
      rw [hjoin, ← htrailer]
      exact (List.take_append_drop (scheme.dbLen + scheme.hLen) em).symm
    have hclear : clearLeft scheme.unused (slice em 0 scheme.dbLen) = slice em 0 scheme.dbLen := by
      rw [hparts, List.append_assoc, clearLeft_append _ (hne hfront)] at hclear
      exact (List.append_inj hclear (length_clearLeft _ _)).1
    unfold Scheme.encode
    dsimp only
    unfold Scheme.unmasked at hunmasked
    rw [← hslice, ← hunmasked, clearLeft_xor_clearLeft (hfront.trans (hmask _).symm), hclear]
    exact hparts

end Decode
end ZenovOS.Pss
