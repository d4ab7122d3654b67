import ZenovOS.Lib.Bytes

/-! # Tables of 12-bit entries

Two entries share three bytes: an even one has the low twelve bits of the word it starts in, an odd one the high twelve. An entry is
written by a change of its word, which keeps the four bits of the neighbour. A chain is followed from entry to entry up to an end mark. -/

namespace ZenovOS.Packed12
open Bytes

variable {t : Bytes} {n m o v w : Nat}

/-! ### Entries -/

/-- Where the word with entry `n` is. -/
def place (n : Nat) : Nat := n + n / 2

def word (t : Bytes) (o : Nat) : Nat := (t.getD o 0).toNat + 256 * (t.getD (o + 1) 0).toNat

def get (t : Bytes) (n : Nat) : Nat := if n % 2 = 1 then word t (place n) / 16 else word t (place n) % 4096

def putWord (t : Bytes) (o w : Nat) : Bytes := (t.set o (UInt8.ofNat w)).set (o + 1) (UInt8.ofNat (w / 256))

def put (t : Bytes) (n v : Nat) : Bytes :=
  putWord t (place n) (if n % 2 = 1 then word t (place n) % 16 + 16 * v else word t (place n) / 4096 * 4096 + v)

@[simp] theorem length_put (t : Bytes) (n v : Nat) : (put t n v).length = t.length := by
  rw [put, putWord, List.length_set, List.length_set]

theorem word_lt (t : Bytes) (o : Nat) : word t o < 65536 := by
  have hlow := (t.getD o 0).toNat_lt
  have hhigh := (t.getD (o + 1) 0).toNat_lt
  unfold word
  omega

theorem getD_putWord (h : o + 1 < t.length) (i : Nat) :
    ((putWord t o w).getD i 0).toNat = if i = o then w % 256 else if i = o + 1 then w / 256 % 256 else (t.getD i 0).toNat := by
  unfold putWord
  rw [List.getD_eq_getElem?_getD, List.getElem?_set, List.length_set, List.getElem?_set, List.getD_eq_getElem?_getD]
  by_cases hlow : i = o
  · subst hlow
    rw [if_neg (by omega), if_pos rfl, if_pos (by omega), if_pos rfl, Option.getD_some, UInt8.toNat_ofNat']
  by_cases hhigh : i = o + 1
  · subst hhigh
    rw [if_pos rfl, if_pos h, if_neg hlow, if_pos rfl, Option.getD_some, UInt8.toNat_ofNat']
  · rw [if_neg fun heq => hhigh heq.symm, if_neg fun heq => hlow heq.symm, if_neg hlow, if_neg hhigh]

theorem get_put (h : place n + 1 < t.length) (hv : v < 4096) : get (put t n v) n = v := by
  have hword := word_lt t (place n)
  have hback : ∀ w < 65536, word (putWord t (place n) w) (place n) = w := by
    intro w hw
    rw [word, getD_putWord h, getD_putWord h, if_pos rfl, if_neg (by omega), if_pos rfl]
    omega
  unfold get put
  split
  · rw [hback _ (by omega)]
    omega
  · rw [hback _ (by omega)]
    omega

theorem get_put_ne (h : place n + 1 < t.length) (hv : v < 4096) (hne : m ≠ n) : get (put t n v) m = get t m := by
  have hfirst := (t.getD (place n) 0).toNat_lt
  have hbytes := fun w i => getD_putWord (w := w) h i
  have hlow := (t.getD (place m) 0).toNat_lt
  have hhigh := (t.getD (place m + 1) 0).toNat_lt
  by_cases hpair : m / 2 = n / 2
  · -- the two entries of three bytes: they share the one in the middle
    by_cases hodd : n % 2 = 1
    · have hmid : place m + 1 = place n := by
        unfold place
        omega
      unfold get put
      rw [if_pos hodd, if_neg (show m % 2 ≠ 1 by omega), if_neg (show m % 2 ≠ 1 by omega)]
      unfold word
      rw [hbytes, hbytes, if_neg (show place m ≠ place n by omega), if_neg (show place m ≠ place n + 1 by omega), if_pos hmid, ← hmid]
      omega
    · have hmid : place m = place n + 1 := by
        unfold place
        omega
      unfold get put
      rw [if_neg hodd, if_pos (show m % 2 = 1 by omega), if_pos (show m % 2 = 1 by omega)]
      unfold word
      rw [hbytes, hbytes, if_neg (show place m ≠ place n by omega), if_pos hmid, if_neg (show place m + 1 ≠ place n by omega),
        if_neg (show place m + 1 ≠ place n + 1 by omega), ← hmid]
      omega
  · have hapart : place m + 1 < place n ∨ place n + 1 < place m := by
      unfold place
      omega
    have hsame : ∀ w, word (putWord t (place n) w) (place m) = word t (place m) := by
      intro w
      rw [word, hbytes, hbytes, if_neg (by omega), if_neg (by omega), if_neg (by omega), if_neg (by omega), word]
    unfold get put
    rw [hsame]

/-! ### Chains -/

/-- The chain from an entry on, if an end mark comes in time. -/
def chain (next : Nat → Nat) (ends : Nat → Bool) : Nat → Nat → Option (List Nat)
  | 0, _ => none
  | fuel + 1, c => if ends (next c) then some [c] else (chain next ends fuel (next c)).map (c :: ·)

theorem chain_row {next : Nat → Nat} {ends : Nat → Bool} {c fuel : Nat} (hfuel : n < fuel)
    (hrow : ∀ i < n, next (c + i) = c + i + 1 ∧ ends (c + i + 1) = false) (hlast : ends (next (c + n)) = true) :
    chain next ends fuel c = some (List.range' c (n + 1)) := by
  induction n generalizing c fuel with
  | zero =>
    obtain ⟨fuel, rfl⟩ := Nat.exists_eq_succ_of_ne_zero (Nat.ne_zero_of_lt hfuel)
    rw [Nat.add_zero] at hlast
    rw [chain, if_pos hlast]
    rfl
  | succ n ih =>
    obtain ⟨fuel, rfl⟩ := Nat.exists_eq_succ_of_ne_zero (Nat.ne_zero_of_lt hfuel)
    obtain ⟨hnext, hend⟩ := hrow 0 (Nat.succ_pos n)
    rw [Nat.add_zero] at hnext hend
    have hrest := @ih (c + 1) fuel (by omega)
      (fun i hi => by
        have := hrow (i + 1) (by omega)
        rwa [show c + (i + 1) = c + 1 + i by omega] at this)
      (by rwa [show c + (n + 1) = c + 1 + n by omega] at hlast)
    rw [chain, hnext, hend, hrest]
    rfl

end ZenovOS.Packed12
