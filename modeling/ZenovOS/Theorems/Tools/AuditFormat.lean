import ZenovOS.Tools.AuditFormat

/-! # The two audit verifiers

The host's SHA-256 runs with the kernel's: the open bytes of the kernel's context are the used ones of the
host's block. The verifiers then check the same of each record, and carry the same hash to the next one. -/

namespace ZenovOS.AuditHost
open Bytes Storage Security Audit

/-! ### The message schedule and the rounds -/

theorem getD_reverse {words : List UInt32} {k : Nat} (h : k < words.length) :
    words.reverse.getD (words.length - (k + 1)) 0 = words.getD k 0 := by
  have hlt : words.length - (k + 1) < words.reverse.length := by
    rw [List.length_reverse]
    omega
  rw [List.getD_eq_getElem _ _ hlt, List.getD_eq_getElem _ _ h, List.getElem_reverse]
  congr 1
  omega

theorem schedule_reverse (left : Nat) {words : List UInt32} (h : 16 ≤ words.length) :
    schedule left words.reverse = (extendWords left words).reverse := by
  induction left generalizing words with
  | zero => rfl
  | succ left ih =>
    have hget : ∀ k, k < 16 → words.reverse.getD (words.reverse.length - (k + 1)) 0 = words.getD k 0 := by
      intro k hk
      rw [List.length_reverse]
      exact getD_reverse (by omega)
    rw [schedule, extendWords, ← ih (by rw [List.length_cons]; omega), List.reverse_cons]
    rw [hget 14 (by omega), hget 1 (by omega), hget 15 (by omega), hget 6 (by omega)]

theorem length_schedule (left : Nat) (words : List UInt32) : (schedule left words).length = words.length + left := by
  induction left generalizing words with
  | zero => rfl
  | succ left ih =>
    rw [schedule, ih, List.length_append, List.length_singleton]
    omega

theorem kSha256Constants_eq : kSha256Constants = sha256Constants := rfl

theorem round_eq : round = shaRound := rfl

theorem foldl_range_zip {σ : Type} (f : σ → UInt32 → UInt32 → σ) (s : σ) {a b : List UInt32} {n : Nat} (ha : a.length = n)
    (hb : b.length = n) :
    (List.range n).foldl (fun s i => f s (a.getD i 0) (b.getD i 0)) s = (a.zip b).foldl (fun s p => f s p.1 p.2) s := by
  have hzip : a.zip b = (List.range n).map fun i => (a.getD i 0, b.getD i 0) := by
    apply List.ext_getElem
    · rw [List.length_zip, ha, hb, List.length_map, List.length_range, Nat.min_self]
    · intro i hi _
      rw [List.length_zip, ha, hb, Nat.min_self] at hi
      rw [List.getElem_zip, List.getElem_map, List.getElem_range, List.getD_eq_getElem a 0 (ha ▸ hi),
        List.getD_eq_getElem b 0 (hb ▸ hi)]
  rw [hzip, List.foldl_map]

theorem transform_eq (state : ShaState) (block : Bytes) : transform state block = sha256Transform state block := by
  have hfirst : 16 ≤ ((List.range 16).map fun i => loadBe32 block (i * 4)).reverse.length := by simp
  have hwords := schedule_reverse 48 hfirst
  rw [List.reverse_reverse] at hwords
  have hlen : (schedule 48 ((List.range 16).map fun i => loadBe32 block (i * 4))).length = 64 := by
    rw [length_schedule, List.length_map, List.length_range]
  have hconstants : kSha256Constants.length = 64 := rfl
  have hrounds := foldl_range_zip round state hconstants hlen
  rw [hwords, kSha256Constants_eq, round_eq] at hrounds
  unfold transform sha256Transform
  dsimp only
  rw [hwords, kSha256Constants_eq, round_eq, hrounds]

/-! ### The open block -/

/-- The host's context stands where the kernel's does. -/
structure Same (host : Sha256) (kernel : Sha256Context) : Prop where
  state : host.state = kernel.state
  total : host.total = kernel.totalBytes
  length : host.block.length = 64
  used : host.used = kernel.block.length
  room : kernel.block.length < 64
  block : host.block.take host.used = kernel.block

theorem take_set_succ {b : Bytes} {n : Nat} (h : n < b.length) (x : UInt8) : (b.set n x).take (n + 1) = b.take n ++ [x] := by
  rw [List.take_add_one, List.take_set_of_le (Nat.le_refl n), List.getElem?_set_self h]
  rfl

theorem same_init : Same shaInit sha256Init := ⟨rfl, rfl, rfl, rfl, by decide, rfl⟩

theorem same_restart {host : Sha256} {totalBytes : Nat} (hlen : host.block.length = 64) (htotal : host.total = totalBytes)
    (state : ShaState) : Same (host.restart state) ⟨state, totalBytes, []⟩ :=
  ⟨rfl, htotal, hlen, rfl, Nat.zero_lt_succ 63, rfl⟩

theorem same_byte {host : Sha256} {kernel : Sha256Context} (h : Same host kernel) (byte : UInt8) :
    Same (shaByte host byte) (sha256Byte kernel byte) := by
  have hlt : host.used < host.block.length := by rw [h.used, h.length]; exact h.room
  have htake : (host.block.set host.used byte).take (host.used + 1) = kernel.block ++ [byte] := by
    rw [take_set_succ hlt, h.block]
  have hlen : (host.block.set host.used byte).length = 64 := by rw [List.length_set, h.length]
  have hopen : (kernel.block ++ [byte]).length = host.used + 1 := by
    rw [List.length_append, List.length_singleton, h.used]
  unfold shaByte sha256Byte Sha256.put
  dsimp only
  by_cases hfull : host.used + 1 = 64
  · have hwhole : host.block.set host.used byte = kernel.block ++ [byte] := by
      rw [← htake, hfull, List.take_of_length_le (Nat.le_of_eq hlen)]
    have hstate : transform host.state (host.block.set host.used byte) =
        sha256Transform kernel.state (kernel.block ++ [byte]) := by
      rw [hwhole, h.state, transform_eq]
    rw [if_pos hfull, if_pos (hopen.trans hfull), Sha256.flush, hstate]
    apply same_restart
    · exact hlen
    · exact h.total
  · have hroom : (kernel.block ++ [byte]).length < 64 := by
      rw [h.length] at hlt
      omega
    rw [if_neg hfull, if_neg fun he => hfull (hopen.symm.trans he)]
    exact ⟨h.state, h.total, hlen, hopen.symm, hroom, htake⟩

theorem same_foldl {host : Sha256} {kernel : Sha256Context} (h : Same host kernel) (data : Bytes) :
    Same (data.foldl shaByte host) (data.foldl sha256Byte kernel) := by
  induction data generalizing host kernel with
  | nil => exact h
  | cons byte rest ih => exact ih (same_byte h byte)

theorem same_update {host : Sha256} {kernel : Sha256Context} (h : Same host kernel) (data : Bytes) :
    Same (shaUpdate host data) (sha256Update kernel data) := by
  have htotal : host.total + data.length = kernel.totalBytes + data.length := by rw [h.total]
  have hstart : Same { host with total := host.total + data.length }
      { kernel with totalBytes := kernel.totalBytes + data.length } := ⟨h.state, htotal, h.length, h.used, h.room, h.block⟩
  exact same_foldl hstart data

/-! ### The end of a message -/

theorem pad_spec {stop : Nat} (left : Nat) {host : Sha256} (hlen : host.block.length = 64) (hstop : stop ≤ 64)
    (hused : host.used ≤ stop) (hleft : stop ≤ host.used + left) :
    (host.pad stop left).state = host.state ∧ (host.pad stop left).block.length = 64 ∧
      (host.pad stop left).block.take stop = host.block.take host.used ++ List.replicate (stop - host.used) 0 := by
  induction left generalizing host with
  | zero =>
    obtain rfl : host.used = stop := Nat.le_antisymm hused hleft
    exact ⟨rfl, hlen, by rw [Nat.sub_self, List.replicate_zero, List.append_nil]; rfl⟩
  | succ left ih =>
    unfold Sha256.pad
    split
    · rename_i hlt
      have hput : (host.put 0).block.length = 64 := by
        show (host.block.set host.used 0).length = 64
        rw [List.length_set, hlen]
      obtain ⟨hstate, hlength, htake⟩ := ih hput (Nat.succ_le_of_lt hlt) (by show stop ≤ host.used + 1 + left; omega)
      refine ⟨hstate, hlength, ?_⟩
      rw [htake]
      show (host.block.set host.used 0).take (host.used + 1) ++ List.replicate (stop - (host.used + 1)) 0 = _
      have hsub : stop - host.used = stop - (host.used + 1) + 1 := by omega
      rw [take_set_succ (by omega), hsub, List.replicate_succ, List.append_assoc]
      rfl
    · obtain rfl : host.used = stop := by omega
      exact ⟨rfl, hlen, by rw [Nat.sub_self, List.replicate_zero, List.append_nil]⟩

theorem foldl_set_back (f : Nat → UInt8) {n k : Nat} {block : Bytes} (hlen : block.length = n) (hk : k ≤ n) :
    (List.range k).foldl (fun block i => block.set (n - 1 - i) (f i)) block =
      block.take (n - k) ++ ((List.range k).map f).reverse := by
  induction k with
  | zero => simp [← hlen]
  | succ k ih =>
    have hnk : n - k = n - (k + 1) + 1 := by omega
    have hlt : n - (k + 1) < (block.take (n - k)).length := by
      rw [List.length_take]
      omega
    have hindex : n - 1 - k = n - (k + 1) := by omega
    rw [List.range_succ, List.foldl_append, ih (Nat.le_of_succ_le hk), List.map_append, List.reverse_append]
    show List.set _ (n - 1 - k) (f k) = _
    rw [hindex, List.set_append_left _ _ hlt]
    have hset : (block.take (n - k)).set (n - (k + 1)) (f k) = block.take (n - (k + 1)) ++ [f k] := by
      rw [← take_set_succ (by omega), ← hnk, List.take_set]
    rw [hset, List.append_assoc]
    rfl

theorem le_eq_map (k n : Nat) : le k n = (List.range k).map fun i => UInt8.ofNat (n >>> (i * 8)) := by
  induction k generalizing n with
  | zero => rfl
  | succ k ih =>
    rw [le, ih, List.range_succ_eq_map, List.map_cons, List.map_map]
    congr 1
    · apply UInt8.toNat.inj
      simp
    · refine List.map_congr_left fun i _ => ?_
      show UInt8.ofNat ((n / 256) >>> (i * 8)) = UInt8.ofNat (n >>> ((i + 1) * 8))
      rw [Nat.shiftRight_eq_div_pow, Nat.shiftRight_eq_div_pow, Nat.div_div_eq_div_mul, Nat.add_mul, Nat.pow_add, Nat.mul_comm]

theorem transform_last {host : Sha256} {state : ShaState} {block : Bytes} (bits : Nat) (hlen : host.block.length = 64)
    (hopen : host.block.take host.used = block) (hused : host.used = block.length) (hle : block.length ≤ 56)
    (hstate : host.state = state) :
    transform (host.pad 56 64).state ((List.range 8).foldl
        (fun block i => block.set (63 - i) (UInt8.ofNat (bits >>> (i * 8)))) (host.pad 56 64).block) =
      sha256Transform state (block ++ List.replicate (56 - block.length) 0 ++ (le 8 bits).reverse) := by
  obtain ⟨hstate', hlen', htake⟩ := pad_spec 64 hlen (by decide) (hused ▸ hle) (by omega : 56 ≤ host.used + 64)
  have hback := foldl_set_back (fun i => UInt8.ofNat (bits >>> (i * 8))) hlen' (by decide : 8 ≤ 64)
  rw [← le_eq_map, htake, hopen, hused] at hback
  rw [transform_eq, hstate', hstate]
  exact congrArg (sha256Transform state) hback

theorem final_eq {host : Sha256} {kernel : Sha256Context} (h : Same host kernel) : shaFinal host = sha256Final kernel := by
  have hlt : host.used < host.block.length := by rw [h.used, h.length]; exact h.room
  have hput : (host.put 0x80).block.length = 64 := by
    show (host.block.set host.used 0x80).length = 64
    rw [List.length_set, h.length]
  have hopen : (host.put 0x80).block.take (host.put 0x80).used = kernel.block ++ [0x80] := by
    show (host.block.set host.used 0x80).take (host.used + 1) = _
    rw [take_set_succ hlt, h.block]
  have hused : (host.put 0x80).used = (kernel.block ++ [0x80]).length := by
    show host.used + 1 = _
    rw [List.length_append, List.length_singleton, h.used]
  have hle : (kernel.block ++ [0x80]).length ≤ 64 := by
    rw [List.length_append, List.length_singleton]
    exact h.room
  have hstate : (host.put 0x80).state = kernel.state := h.state
  unfold shaFinal sha256Final
  dsimp only
  rw [h.total]
  generalize host.put 0x80 = opened at hput hopen hused hstate ⊢
  by_cases hfull : 56 < (kernel.block ++ [0x80]).length
  · -- no room for the number of bits: the block is hashed, and another one follows
    obtain ⟨hstate', hlen', htake⟩ := pad_spec 64 hput (Nat.le_refl 64) (hused ▸ hle) (by omega : 64 ≤ opened.used + 64)
    rw [List.take_of_length_le (Nat.le_of_eq hlen'), hopen, hused] at htake
    have hfull' : 56 < opened.used := by rw [hused]; exact hfull
    rw [if_pos hfull', if_pos hfull]
    dsimp only
    have hflush : (opened.pad 64 64).flush.state = sha256Transform kernel.state
        (kernel.block ++ [0x80] ++ List.replicate (64 - (kernel.block ++ [0x80]).length) 0) := by
      rw [Sha256.flush, Sha256.restart_state, transform_eq, hstate', htake, hstate]
    have hempty : (opened.pad 64 64).flush.block.take (opened.pad 64 64).flush.used = [] := by
      rw [Sha256.flush, Sha256.restart_used, List.take_zero]
    have hlength : (opened.pad 64 64).flush.block.length = 64 := by rw [Sha256.flush, Sha256.restart_block, hlen']
    have hused : (opened.pad 64 64).flush.used = ([] : Bytes).length := by
      rw [Sha256.flush, Sha256.restart_used, List.length_nil]
    rw [transform_last _ hlength hempty hused (Nat.zero_le _) hflush]
  · have hfull' : ¬56 < opened.used := by rw [hused]; exact hfull
    rw [if_neg hfull', if_neg hfull]
    dsimp only
    rw [transform_last _ hput hopen hused (Nat.le_of_not_lt hfull) hstate]

/-! ### The verifiers -/

theorem sha256_eq (data : Bytes) : (sha256 data).bytes = Security.sha256 data := by
  have hlength : (Security.sha256 data).length = 32 := length_sha256 data
  rw [sha256, final_eq (same_update same_init data), ← Security.sha256, Block.bytes_of (Nat.le_of_eq hlength), hlength]
  simp

theorem recordHash_eq (record : DiskRecord) (previous : Block 32) : recordHash record previous = record.hash previous := by
  unfold recordHash DiskRecord.hash
  dsimp only
  rw [final_eq (same_update (same_update (same_update (same_update (same_update same_init _) _) _) _) _)]
  rfl

theorem allZero_eq : allZero = zeroBytes := rfl

theorem refused_iff (record : DiskRecord) (sequence : UInt32) :
    (recordRefused record sequence = true ∨ (record.path.bytes.drop (record.pathLength.toNat + 1)).any (· ≠ 0) = true) ↔
      (!recordValid record) = true ∨ record.sequence ≠ sequence := by
  have haction : AuditAction.readAudit.code = 9 := rfl
  have hverdict : Verdict.error.code = 5 := rfl
  have hrest : (record.path.bytes.drop (record.pathLength.toNat + 1)).any (· ≠ 0) =
      !(record.path.bytes.drop (record.pathLength.toNat + 1)).all (· = 0) := by
    rw [List.any_eq_not_all_not]
    simp
  rw [hrest]
  unfold recordRefused recordValid
  rw [haction, hverdict, allZero_eq]
  dsimp only
  split
  · rename_i h
    simp only [Bool.not_false, true_or, iff_true]
    left
    simp only [Bool.or_eq_true, decide_eq_true_eq]
    tauto
  · rename_i h
    simp only [not_or] at h
    simp only [Bool.or_eq_true, decide_eq_true_eq]
    tauto

theorem verifyRecords_eq (journal : Image) (first : Nat) (firstSequence : UInt32) (left i : Nat) (previous : Block 32) :
    verifyRecords journal first firstSequence left i previous = journal.verifyRecords first firstSequence left i previous := by
  induction left generalizing i previous with
  | zero => rfl
  | succ left ih =>
    have hiff := refused_iff (journal.record (first + i)) (firstSequence + UInt32.ofNat i)
    unfold verifyRecords Image.verifyRecords
    dsimp only
    rw [recordHash_eq]
    by_cases h : (!recordValid (journal.record (first + i))) = true ∨
        (journal.record (first + i)).sequence ≠ firstSequence + UInt32.ofNat i
    · rw [if_pos h]
      rcases hiff.mpr h with hr | hr
      · rw [if_pos hr]
      · rw [if_pos hr, ite_self]
    · have hno := not_or.mp fun hr => h (hiff.mp hr)
      rw [if_neg hno.1, if_neg hno.2, if_neg h]
      split
      · rfl
      · rename_i hhash
        rw [not_not] at hhash
        rw [ih, hhash]

theorem decide_found {head : Block 32} (found : Option (Block 32)) : decide (found = some head) =
    match found with
    | none => false
    | some previous => decide (previous = head) := by
  cases found with
  | none => rfl
  | some previous => simp

theorem verify_eq_host (image : Bytes) : Audit.verify (Image.decode image) = verify (Image.decode image) false := by
  generalize Image.decode image = journal
  have hcapacity : kCapacity.toUInt32 = 64 := rfl
  unfold Audit.verify verify
  dsimp only
  rw [allZero_eq, hcapacity, decide_found, ← verifyRecords_eq]
  rfl

end ZenovOS.AuditHost
