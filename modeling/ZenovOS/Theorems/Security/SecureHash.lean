import ZenovOS.Lib.SecureHash
import ZenovOS.Theorems.Tools.Zenpkg.Sha256

/-! # The kernel's SHA-256 is the standard's

The transformation of a block is the standard's compression, and what `sha256_final` puts behind a message is the standard's
padding: a message is fed block by block, in whatever pieces it comes. -/

namespace ZenovOS.Security
open Bytes

/-! ### A block -/

/-- The state as the standard's working variables. -/
def ShaState.work (s : ShaState) : SecureHash.Work := ⟨s.a, s.b, s.c, s.d, s.e, s.f, s.g, s.h⟩

theorem loadBe32_eq (b : Bytes) (i : Nat) :
    loadBe32 b i = UInt32.ofNat
      ((((b.getD i 0).toNat * 256 + (b.getD (i + 1) 0).toNat) * 256 + (b.getD (i + 2) 0).toNat) * 256 + (b.getD (i + 3) 0).toNat) := by
  have h0 := (b.getD i 0).toNat_lt
  have h1 := (b.getD (i + 1) 0).toNat_lt
  have h2 := (b.getD (i + 2) 0).toNat_lt
  have h3 := (b.getD (i + 3) 0).toNat_lt
  have hor : ∀ x k n : Nat, n < 2 ^ k → (x <<< k) ||| n = x * 2 ^ k + n := fun x k n h => by
    rw [← Nat.shiftLeft_add_eq_or_of_lt h, Nat.shiftLeft_eq]
  unfold loadBe32
  generalize b.getD i 0 = x0 at *
  generalize b.getD (i + 1) 0 = x1 at *
  generalize b.getD (i + 2) 0 = x2 at *
  generalize b.getD (i + 3) 0 = x3 at *
  apply UInt32.toNat.inj
  simp only [UInt32.toNat_or, UInt32.toNat_shiftLeft, UInt8.toNat_toUInt32, UInt32.toNat_ofNat']
  show (x0.toNat <<< 24 % 2 ^ 32 ||| x1.toNat <<< 16 % 2 ^ 32 ||| x2.toNat <<< 8 % 2 ^ 32 ||| x3.toNat) = _
  have hfirst : x0.toNat <<< 24 ||| x1.toNat <<< 16 = (x0.toNat * 256 + x1.toNat) <<< 16 := by
    rw [hor _ _ _ (by rw [Nat.shiftLeft_eq]; omega), Nat.shiftLeft_eq, Nat.shiftLeft_eq]
    omega
  have hsecond : (x0.toNat * 256 + x1.toNat) <<< 16 ||| x2.toNat <<< 8 = ((x0.toNat * 256 + x1.toNat) * 256 + x2.toNat) <<< 8 := by
    rw [hor _ _ _ (by rw [Nat.shiftLeft_eq]; omega), Nat.shiftLeft_eq, Nat.shiftLeft_eq]
    omega
  have hthird := hor ((x0.toNat * 256 + x1.toNat) * 256 + x2.toNat) 8 x3.toNat h3
  rw [Nat.mod_eq_of_lt (by rw [Nat.shiftLeft_eq]; omega), Nat.mod_eq_of_lt (by rw [Nat.shiftLeft_eq]; omega),
    Nat.mod_eq_of_lt (by rw [Nat.shiftLeft_eq]; omega), hfirst, hsecond, hthird]
  omega

theorem constants_root : ∀ t < 64, ∃ w < 7,
    (w * 2 ^ 32 + (sha256Constants.getD t 0).toNat) ^ 3 ≤ SecureHash.primes.getD t 0 * 2 ^ 96 ∧
      SecureHash.primes.getD t 0 * 2 ^ 96 < (w * 2 ^ 32 + (sha256Constants.getD t 0).toNat + 1) ^ 3 := by
  decide +kernel

theorem constants_eq {t : Nat} (h : t < 64) : sha256Constants.getD t 0 = SecureHash.constant t := by
  obtain ⟨w, -, hlow, hhigh⟩ := constants_root t h
  rw [SecureHash.constant, SecureHash.fraction_eq (by decide) hlow hhigh]
  apply UInt32.toNat.inj
  rw [UInt32.toNat_ofNat', Nat.mul_add_mod_self_right, Nat.mod_eq_of_lt (UInt32.toNat_lt _)]

theorem init_work : sha256Init.state.work = SecureHash.initial := by
  have hroot : ∀ (p w : Nat) (x : UInt32), (w * 2 ^ 32 + x.toNat) ^ 2 ≤ p * 2 ^ 64 → p * 2 ^ 64 < (w * 2 ^ 32 + x.toNat + 1) ^ 2 →
      x = SecureHash.fraction 2 p := by
    intro p w x hlow hhigh
    rw [SecureHash.fraction_eq (by decide) hlow hhigh]
    apply UInt32.toNat.inj
    rw [UInt32.toNat_ofNat', Nat.mul_add_mod_self_right, Nat.mod_eq_of_lt (UInt32.toNat_lt _)]
  unfold SecureHash.initial
  rw [← hroot 2 1 0x6a09e667 (by decide) (by decide), ← hroot 3 1 0xbb67ae85 (by decide) (by decide),
    ← hroot 5 2 0x3c6ef372 (by decide) (by decide), ← hroot 7 2 0xa54ff53a (by decide) (by decide),
    ← hroot 11 3 0x510e527f (by decide) (by decide), ← hroot 13 3 0x9b05688c (by decide) (by decide),
    ← hroot 17 4 0x1f83d9ab (by decide) (by decide), ← hroot 19 4 0x5be0cd19 (by decide) (by decide)]
  rfl

theorem schedule_eq {block : Nat → UInt32} (left : Nat) {n : Nat} (h : 16 ≤ n) :
    AuditHost.schedule left ((List.range n).map (SecureHash.schedule block)) =
      (List.range (n + left)).map (SecureHash.schedule block) := by
  induction left generalizing n with
  | zero => rfl
  | succ left ih =>
    have hget : ∀ k, 0 < k → k ≤ n → ((List.range n).map (SecureHash.schedule block)).getD (n - k) 0 = SecureHash.schedule block (n - k) := by
      intro k hk hkn
      rw [List.getD_eq_getElem _ _ (by rw [List.length_map, List.length_range]; omega), List.getElem_map, List.getElem_range]
    have hnext : (List.range n).map (SecureHash.schedule block) ++ [SecureHash.schedule block n] =
        (List.range (n + 1)).map (SecureHash.schedule block) := by
      rw [List.range_succ, List.map_append]
      rfl
    have hword : SecureHash.schedule block (n - 16) + SecureHash.smallSigma0 (SecureHash.schedule block (n - 15)) +
        SecureHash.schedule block (n - 7) + SecureHash.smallSigma1 (SecureHash.schedule block (n - 2)) = SecureHash.schedule block n := by
      rw [SecureHash.schedule_of_le h]
      ac_rfl
    have hstep : AuditHost.schedule (left + 1) ((List.range n).map (SecureHash.schedule block)) =
        AuditHost.schedule left ((List.range n).map (SecureHash.schedule block) ++ [SecureHash.schedule block n]) := by
      rw [AuditHost.schedule, List.length_map, List.length_range, hget 15 (by decide) (by omega), hget 2 (by decide) (by omega),
        hget 16 (by decide) h, hget 7 (by decide) (by omega), ← hword]
      rfl
    rw [hstep, hnext, ih (by omega), Nat.add_right_comm, Nat.add_assoc]

theorem round_work (s : ShaState) {t : Nat} (h : t < 64) (w : Nat → UInt32) :
    (AuditHost.round s (sha256Constants.getD t 0) (w t)).work = SecureHash.step w s.work t := by
  rw [constants_eq h]
  rfl

theorem rounds_work (s : ShaState) (w : Nat → UInt32) {n : Nat} (h : n ≤ 64) :
    ((List.range n).foldl (fun s i => AuditHost.round s (sha256Constants.getD i 0) (w i)) s).work =
      (List.range n).foldl (SecureHash.step w) s.work := by
  induction n with
  | zero => rfl
  | succ n ih =>
    rw [List.range_succ, List.foldl_append, List.foldl_append, ← ih (by omega)]
    exact round_work _ h w

theorem transform_work (state : ShaState) (block : Bytes) :
    (sha256Transform state block).work = SecureHash.compress state.work fun t => loadBe32 block (t * 4) := by
  have hfirst : (List.range 16).map (fun i => loadBe32 block (i * 4)) =
      (List.range 16).map (SecureHash.schedule fun t => loadBe32 block (t * 4)) :=
    List.map_congr_left fun i hi => by rw [SecureHash.schedule_of_lt (List.mem_range.mp hi)]
  have hwords : AuditHost.schedule 48 ((List.range 16).map fun i => loadBe32 block (i * 4)) =
      (List.range 64).map (SecureHash.schedule fun t => loadBe32 block (t * 4)) := by
    rw [hfirst, schedule_eq 48 (Nat.le_refl 16)]
  have hget : ∀ i < 64, ((List.range 64).map (SecureHash.schedule fun t => loadBe32 block (t * 4))).getD i 0 =
      SecureHash.schedule (fun t => loadBe32 block (t * 4)) i := fun i hi => by
    rw [List.getD_eq_getElem _ _ (by rw [List.length_map, List.length_range]; exact hi), List.getElem_map, List.getElem_range]
  have hrounds : (List.range 64).foldl (fun s i => AuditHost.round s (sha256Constants.getD i 0)
        (((List.range 64).map (SecureHash.schedule fun t => loadBe32 block (t * 4))).getD i 0)) state =
      (List.range 64).foldl (fun s i => AuditHost.round s (sha256Constants.getD i 0)
        (SecureHash.schedule (fun t => loadBe32 block (t * 4)) i)) state :=
    List.foldl_ext _ _ _ fun s i hi => by rw [hget i (List.mem_range.mp hi)]
  have hwork := rounds_work state (SecureHash.schedule fun t => loadBe32 block (t * 4)) (Nat.le_refl 64)
  rw [← AuditHost.transform_eq]
  unfold AuditHost.transform
  dsimp only
  rw [hwords, AuditHost.kSha256Constants_eq, hrounds]
  unfold SecureHash.compress
  rw [← hwork]
  rfl

/-! ### A message -/

/-- The bytes of a state. -/
def ShaState.digest (s : ShaState) : Bytes := [s.a, s.b, s.c, s.d, s.e, s.f, s.g, s.h].flatMap SecureHash.bytesOf

/-- What `sha256_final` puts behind a message. -/
def finalBytes (used bits : Nat) : Bytes := 0x80 :: List.replicate ((119 - used) % 64) 0 ++ (le 8 bits).reverse

theorem final_feed {c : Sha256Context} (h : c.block.length < 64) :
    sha256Final c =
      ((finalBytes c.block.length (c.totalBytes * 8 % 2 ^ 64)).foldl (BlockHash.feed 64 sha256Transform) (c.state, c.block)).1.digest := by
  have hlength : (le 8 (c.totalBytes * 8 % 2 ^ 64)).reverse.length = 8 := by rw [List.length_reverse, length_le]
  have hopen : (c.block ++ [0x80]).length = c.block.length + 1 := by rw [List.length_append, List.length_singleton]
  unfold sha256Final finalBytes
  dsimp only
  generalize (le 8 (c.totalBytes * 8 % 2 ^ 64)).reverse = length at hlength ⊢
  by_cases hfull : 56 < (c.block ++ [0x80]).length
  · -- the zeros fill this block, and 56 more of them begin the next
    have hzeros : (119 - c.block.length) % 64 = 64 - (c.block.length + 1) + 56 := by omega
    have hsplit : (0x80 :: List.replicate ((119 - c.block.length) % 64) 0 ++ length : Bytes) =
        (0x80 :: List.replicate (64 - (c.block.length + 1)) 0) ++ (List.replicate 56 0 ++ length) := by
      rw [hzeros, ← List.replicate_append_replicate]
      simp only [List.cons_append, List.append_assoc]
    have hfirst : c.block.length + (0x80 :: List.replicate (64 - (c.block.length + 1)) 0 : Bytes).length = 64 := by
      rw [List.length_cons, List.length_replicate]
      omega
    rw [if_pos hfull, hsplit, List.foldl_append,
      BlockHash.foldl_feed_full hfirst (List.cons_ne_nil _ _),
      BlockHash.foldl_feed_full (by rw [List.length_append, List.length_replicate, hlength]; rfl)
        (List.ne_nil_of_length_pos (by rw [List.length_append, List.length_replicate]; omega)), hopen]
    simp only [List.nil_append, List.length_nil, Nat.sub_zero, List.append_assoc, List.singleton_append]
    rfl
  · have hzeros : (119 - c.block.length) % 64 = 56 - (c.block.length + 1) := by omega
    have hlast : c.block.length + (0x80 :: List.replicate (56 - (c.block.length + 1)) 0 ++ length : Bytes).length = 64 := by
      rw [List.length_append, List.length_cons, List.length_replicate, hlength]
      omega
    rw [if_neg hfull, hzeros, BlockHash.foldl_feed_full hlast (List.append_ne_nil_of_left_ne_nil (List.cons_ne_nil _ _) _), hopen]
    simp only [List.append_assoc, List.cons_append]
    rfl

theorem finalBytes_pad {data : Bytes} (h : data.length < 2 ^ 61) :
    data ++ finalBytes (data.length % 64) (data.length * 8 % 2 ^ 64) = SecureHash.padBytes data := by
  have hbits : (le 8 (data.length * 8 % 2 ^ 64)).reverse = SecureHash.lengthBytes (8 * data.length) := by
    rw [Nat.mod_eq_of_lt (by omega), ← Zenpkg.bitLength_eq, Nat.mul_comm]
    rfl
  unfold finalBytes SecureHash.padBytes
  rw [hbits]

theorem feed_work {data : Bytes} {n : Nat} (h : data.length = 64 * n) (s : ShaState) :
    (data.foldl (BlockHash.feed 64 sha256Transform) (s, [])).1.work =
      (List.range n).foldl (fun h i => SecureHash.compress h fun t => SecureHash.word (SecureHash.message data) (16 * i + t)) s.work := by
  rw [BlockHash.foldl_feed_blocks (by decide) h]
  have hblocks : ∀ m ≤ n, ((List.range m).foldl (fun s i => sha256Transform s ((data.drop (64 * i)).take 64)) s).work =
      (List.range m).foldl (fun h i => SecureHash.compress h fun t => SecureHash.word (SecureHash.message data) (16 * i + t)) s.work := by
    intro m hm
    induction m with
    | zero => rfl
    | succ m ih =>
      rw [List.range_succ, List.foldl_append, List.foldl_append, ← ih (by omega)]
      show (sha256Transform _ _).work = SecureHash.compress _ _
      rw [transform_work]
      refine SecureHash.compress_congr _ fun t ht => ?_
      have hget : ∀ k < 64, ((data.drop (64 * m)).take 64).getD k 0 = data.getD (64 * m + k) 0 := by
        intro k hk
        rw [List.getD_eq_getElem?_getD, List.getD_eq_getElem?_getD, List.getElem?_take, if_pos hk, List.getElem?_drop]
      rw [loadBe32_eq, SecureHash.word_message data (by omega), hget _ (by omega), hget _ (by omega), hget _ (by omega), hget _ (by omega)]
      have hindex : 64 * m + t * 4 = 4 * (16 * m + t) := by omega
      simp only [← Nat.add_assoc, hindex]
  exact hblocks n (Nat.le_refl n)

theorem sha256_digest {data : Bytes} (h : data.length < 2 ^ 61) : sha256 data = SecureHash.digest data := by
  have hupdate : sha256Update sha256Init data =
      ⟨(data.foldl (BlockHash.feed 64 sha256Transform) (sha256Init.state, [])).1, data.length,
        (data.foldl (BlockHash.feed 64 sha256Transform) (sha256Init.state, [])).2⟩ := by
    rw [sha256Update, Zenpkg.foldl_sha256Byte]
    exact congrArg (Sha256Context.mk _ · _) (Nat.zero_add _)
  have hopen : (data.foldl (BlockHash.feed 64 sha256Transform) (sha256Init.state, [])).2.length = data.length % 64 := by
    rw [BlockHash.length_foldl_feed data (by decide : ([] : Bytes).length < 64)]
    exact congrArg (· % 64) (Nat.zero_add _)
  have hlength := SecureHash.length_padBytes data
  obtain ⟨n, hn⟩ : ∃ n, (SecureHash.padBytes data).length = 64 * n := ⟨(SecureHash.padBytes data).length / 64, by omega⟩
  have hblocks : (SecureHash.message (SecureHash.padBytes data)).length / 512 = n := by
    rw [SecureHash.length_message]
    omega
  rw [sha256, hupdate, final_feed (by rw [hopen]; exact Nat.mod_lt _ (by decide))]
  dsimp only
  rw [hopen, ← List.foldl_append, finalBytes_pad h]
  have hwork := feed_work hn sha256Init.state
  unfold SecureHash.digest SecureHash.hash
  dsimp only
  rw [SecureHash.pad_message, hblocks, ← init_work, ← hwork]
  rfl

end ZenovOS.Security
