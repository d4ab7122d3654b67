import ZenovOS.Theorems.Security.AuditChain
import ZenovOS.Theorems.Security.SecureHash
import ZenovOS.Tools.Zenuniverse.Canonical

/-! # The digest of the package universe

Its context is the audit tool's, and its digest is that one's in hexadecimal. -/

namespace ZenovOS.Zenuniverse
open Bytes Security

/-! ### Sums of 64 bits -/

theorem add32_eq (x : UInt64) : Sha256.add32 x = x.toUInt32 := by
  unfold Sha256.add32
  rw [UInt64.toUInt32_and]
  exact UInt32.and_neg_one

theorem rotr_eq : Sha256.rotr = rotateRight := rfl

theorem word_eq (p : Bytes) : Sha256.word p = fun i => loadBe32 p (i * 4) := rfl

theorem schedule_eq (left : Nat) (w : List UInt32) : Sha256.schedule left w = AuditHost.schedule left w := by
  induction left generalizing w with
  | zero => rfl
  | succ left ih =>
    rw [Sha256.schedule, AuditHost.schedule, ih]
    simp only [add32_eq, UInt64.toUInt32_add, UInt32.toUInt32_toUInt64, rotr_eq]

theorem round_eq : Sha256.round = AuditHost.round := by
  funext s constant w
  unfold Sha256.round AuditHost.round
  simp only [add32_eq, UInt64.toUInt32_add, UInt32.toUInt32_toUInt64, rotr_eq]

theorem k_eq : Sha256.k = AuditHost.kSha256Constants := rfl

theorem block_eq : Sha256.block = AuditHost.transform := by
  funext state p
  unfold Sha256.block AuditHost.transform
  simp only [add32_eq, UInt64.toUInt32_add, UInt32.toUInt32_toUInt64, schedule_eq, round_eq, k_eq, word_eq]

/-! ### Contexts -/

/-- The audit tool's context. -/
def Sha256.audit (h : Sha256) : AuditHost.Sha256 := ⟨h.state, h.bytes, h.buffer, h.used⟩

theorem audit_put (h : Sha256) (c : UInt8) : (h.put c).audit = h.audit.put c := rfl

theorem audit_flush (h : Sha256) : h.flush.audit = h.audit.flush := by
  unfold Sha256.flush
  rw [block_eq]
  rfl

theorem audit_byte (h : Sha256) (c : UInt8) : (h.byte c).audit = AuditHost.shaByte h.audit c := by
  unfold Sha256.byte AuditHost.shaByte
  dsimp only
  rw [← audit_put]
  by_cases hfull : (h.put c).used = 64
  · rw [if_pos hfull, if_pos (show (h.put c).audit.used = 64 from hfull), audit_flush]
  · rw [if_neg hfull, if_neg (show ¬(h.put c).audit.used = 64 from hfull)]

theorem audit_foldl (data : Bytes) (h : Sha256) : (data.foldl Sha256.byte h).audit = data.foldl AuditHost.shaByte h.audit := by
  induction data generalizing h with
  | nil => rfl
  | cons c data ih => rw [List.foldl_cons, List.foldl_cons, ih, audit_byte]

theorem audit_zeros (stop left : Nat) (h : Sha256) : (h.zeros stop left).audit = h.audit.pad stop left := by
  induction left generalizing h with
  | zero => rfl
  | succ left ih =>
    unfold Sha256.zeros AuditHost.Sha256.pad
    by_cases hlt : h.used < stop
    · rw [if_pos hlt, if_pos (show h.audit.used < stop from hlt), ih, audit_put]
    · rw [if_neg hlt, if_neg (show ¬h.audit.used < stop from hlt)]

theorem bytes_flush (h : Sha256) : h.flush.bytes = h.bytes := by
  rw [Sha256.flush]

theorem bytes_put (h : Sha256) (c : UInt8) : (h.put c).bytes = h.bytes := rfl

theorem bytes_byte (h : Sha256) (c : UInt8) : (h.byte c).bytes = h.bytes := by
  unfold Sha256.byte
  dsimp only
  by_cases hfull : (h.put c).used = 64
  · rw [if_pos hfull, bytes_flush, bytes_put]
  · rw [if_neg hfull, bytes_put]

theorem bytes_foldl (data : Bytes) (h : Sha256) : (data.foldl Sha256.byte h).bytes = h.bytes := by
  induction data generalizing h with
  | nil => rfl
  | cons c data ih => rw [List.foldl_cons, ih, bytes_byte]

theorem update_ok {h : Sha256} {data : Bytes} (hfits : h.bytes + data.length ≤ 2 ^ 64 - 1) :
    ∃ h', h.update data = .ok h' ∧ h'.audit = AuditHost.shaUpdate h.audit data ∧ h'.bytes = h.bytes + data.length := by
  have hpass : ¬2 ^ 64 - 1 - h.bytes < data.length := by omega
  unfold Sha256.update
  rw [refuse_bind hpass]
  refine ⟨data.foldl Sha256.byte { h with bytes := h.bytes + data.length }, rfl, ?_, ?_⟩
  · rw [audit_foldl]
    rfl
  · rw [bytes_foldl]

/-! ### The end of a message -/

theorem foldl_put (f : Nat → UInt8) {h : Sha256} {n : Nat} (hroom : h.used + n ≤ h.buffer.length) :
    ((List.range n).foldl (fun h i => h.put (f i)) h).state = h.state ∧
      ((List.range n).foldl (fun h i => h.put (f i)) h).used = h.used + n ∧
      ((List.range n).foldl (fun h i => h.put (f i)) h).buffer =
        h.buffer.take h.used ++ (List.range n).map f ++ h.buffer.drop (h.used + n) := by
  induction n with
  | zero => exact ⟨rfl, rfl, by simp⟩
  | succ n ih =>
    obtain ⟨hstate, hused, hbuffer⟩ := ih (by omega)
    rw [List.range_succ, List.foldl_append]
    generalize (List.range n).foldl (fun h i => h.put (f i)) h = h' at hstate hused hbuffer
    refine ⟨hstate, by show h'.used + 1 = _; omega, ?_⟩
    show h'.buffer.set h'.used (f n) = _
    have hfront : (h.buffer.take h.used ++ (List.range n).map f).length = h.used + n := by
      rw [List.length_append, List.length_take, List.length_map, List.length_range]
      omega
    obtain ⟨x, hx⟩ : ∃ x, h.buffer.drop (h.used + n) = x :: h.buffer.drop (h.used + (n + 1)) :=
      ⟨_, List.drop_eq_getElem_cons (by omega)⟩
    rw [hbuffer, hused, hx, List.set_append_right _ _ (Nat.le_of_eq hfront), hfront, Nat.sub_self, List.set_cons_zero, List.map_append]
    simp only [List.append_assoc, List.map_cons, List.map_nil, List.singleton_append]

theorem used_zeros {stop : Nat} (left : Nat) {h : Sha256} (hle : h.used ≤ stop) (hleft : stop ≤ h.used + left) :
    (h.zeros stop left).used = stop := by
  induction left generalizing h with
  | zero => exact Nat.le_antisymm hle hleft
  | succ left ih =>
    unfold Sha256.zeros
    split
    · rename_i hlt
      have hused : (h.put 0).used = h.used + 1 := rfl
      exact ih (by omega) (by omega)
    · omega

theorem hex_eq (b : UInt8) : [Sha256.hex.getD (b >>> 4).toNat 0, Sha256.hex.getD (b &&& 15).toNat 0] =
    [Zenpkg.hexDigit (b / 16), Zenpkg.hexDigit (b % 16)] := by
  have hdigit : ∀ n < 16, Sha256.hex.getD n 0 = Zenpkg.hexDigit (UInt8.ofNat n) := by decide
  have hb := b.toNat_lt
  have hhigh : (b >>> 4).toNat = b.toNat / 16 := by
    rw [UInt8.toNat_shiftRight, Nat.shiftRight_eq_div_pow]
    rfl
  have hlow : (b &&& 15).toNat = b.toNat % 16 := by
    rw [UInt8.toNat_and]
    exact Nat.and_two_pow_sub_one_eq_mod b.toNat 4
  have hquotient : UInt8.ofNat (b.toNat / 16) = b / 16 := by
    apply UInt8.toNat.inj
    rw [UInt8.toNat_ofNat_of_lt' (by show _ < 256; omega), UInt8.toNat_div]
    rfl
  have hrest : UInt8.ofNat (b.toNat % 16) = b % 16 := by
    apply UInt8.toNat.inj
    rw [UInt8.toNat_ofNat_of_lt' (by show _ < 256; omega), UInt8.toNat_mod]
    rfl
  rw [hhigh, hlow, hdigit _ (by omega), hdigit _ (by omega), hquotient, hrest]

theorem hexWord_eq (v : UInt32) : Sha256.hexWord v = Zenpkg.hexEncode (storeBe32 v) := by
  have hlast : (v >>> 0).toUInt8 = v.toUInt8 := by rw [UInt32.shiftRight_zero]
  unfold Sha256.hexWord Zenpkg.hexEncode storeBe32
  simp only [List.flatMap_cons, List.flatMap_nil, hex_eq, hlast]

theorem block_length {h : Sha256} (bits : Nat) (hlen : h.buffer.length = 64) (hused : h.used ≤ 56) :
    Sha256.block ((List.range 8).foldl (fun h i => h.put (UInt8.ofNat (bits >>> ((7 - i) * 8)))) (h.zeros 56 64)).state
        ((List.range 8).foldl (fun h i => h.put (UInt8.ofNat (bits >>> ((7 - i) * 8)))) (h.zeros 56 64)).buffer =
      AuditHost.transform (h.audit.pad 56 64).state ((List.range 8).foldl
        (fun block i => block.set (63 - i) (UInt8.ofNat (bits >>> (i * 8)))) (h.audit.pad 56 64).block) := by
  obtain ⟨-, hlen', -⟩ := AuditHost.pad_spec 64 (show h.audit.block.length = 64 from hlen) (by decide) hused (by omega : 56 ≤ h.used + 64)
  have hstop : (h.zeros 56 64).used = 56 := used_zeros 64 hused (by omega)
  have hback := AuditHost.foldl_set_back (fun i => UInt8.ofNat (bits >>> (i * 8))) hlen' (by decide : 8 ≤ 64)
  rw [← audit_zeros] at hlen' hback ⊢
  generalize h.zeros 56 64 = last at hlen' hstop hback ⊢
  have hlast : last.buffer.length = 64 := hlen'
  obtain ⟨hstate, -, hbuffer⟩ := foldl_put (fun i => UInt8.ofNat (bits >>> ((7 - i) * 8))) (by omega : last.used + 8 ≤ last.buffer.length)
  have hdone : last.buffer.drop (last.used + 8) = [] := List.drop_eq_nil_of_le (by omega)
  rw [hbuffer, hstate, hdone, List.append_nil, hstop, block_eq]
  exact congrArg (AuditHost.transform last.state) hback.symm

theorem finish_eq {h : Sha256} {kernel : Sha256Context} (hsame : AuditHost.Same h.audit kernel) (hbytes : h.bytes ≤ (2 ^ 64 - 1) / 8) :
    h.finish = .ok (Zenpkg.hexEncode (AuditHost.shaFinal h.audit)) := by
  have hpass : ¬(2 ^ 64 - 1) / 8 < h.bytes := Nat.not_lt.mpr hbytes
  have hbits : h.audit.total * 8 % 2 ^ 64 = h.bytes * 8 := Nat.mod_eq_of_lt (by show h.bytes * 8 < _; omega)
  have hused : (h.put 0x80).used ≤ 64 := by
    have hroom := hsame.room
    rw [← hsame.used] at hroom
    exact hroom
  have hlen : (h.put 0x80).buffer.length = 64 := (List.length_set ..).trans hsame.length
  have hhex : ∀ s : ShaState, [s.a, s.b, s.c, s.d, s.e, s.f, s.g, s.h].flatMap Sha256.hexWord =
      Zenpkg.hexEncode (storeBe32 s.a ++ storeBe32 s.b ++ storeBe32 s.c ++ storeBe32 s.d ++ storeBe32 s.e ++ storeBe32 s.f ++
        storeBe32 s.g ++ storeBe32 s.h) := by
    intro s
    unfold Zenpkg.hexEncode
    simp only [List.flatMap_cons, List.flatMap_nil, hexWord_eq, List.flatMap_append, List.append_assoc, List.append_nil]
    rfl
  unfold Sha256.finish AuditHost.shaFinal
  rw [refuse_bind hpass]
  dsimp only
  rw [hbits, ← audit_put]
  generalize h.put 0x80 = opened at hused hlen ⊢
  rw [hhex]
  by_cases hfull : 56 < opened.used
  · obtain ⟨-, hlen', -⟩ := AuditHost.pad_spec 64 (show opened.audit.block.length = 64 from hlen) (by decide) hused
      (by omega : 64 ≤ opened.used + 64)
    have hflush : (opened.zeros 64 64).flush.buffer.length = 64 := by
      rw [← audit_zeros] at hlen'
      rw [Sha256.flush]
      exact hlen'
    have hempty : (opened.zeros 64 64).flush.used ≤ 56 := by
      rw [Sha256.flush]
      exact Nat.zero_le _
    rw [if_pos hfull, if_pos (show 56 < opened.audit.used from hfull), block_length _ hflush hempty, audit_flush, audit_zeros]
    rfl
  · rw [if_neg hfull, if_neg (show ¬56 < opened.audit.used from hfull), block_length _ hlen (Nat.le_of_not_lt hfull)]
    rfl

end ZenovOS.Zenuniverse

/-! ## One digest

The four implementations of SHA-256 give the standard's digest of a message, in whatever pieces it comes. -/

namespace ZenovOS
open Bytes Security Audit

variable {pieces : List Bytes}

theorem same_pieces (pieces : List Bytes) {host : AuditHost.Sha256} {kernel : Sha256Context} (h : AuditHost.Same host kernel) :
    AuditHost.Same (pieces.foldl AuditHost.shaUpdate host) (pieces.foldl sha256Update kernel) := by
  induction pieces generalizing host kernel with
  | nil => exact h
  | cons piece pieces ih => exact ih (AuditHost.same_update h piece)

theorem totalBytes_update (kernel : Sha256Context) (data : Bytes) :
    (sha256Update kernel data).totalBytes = kernel.totalBytes + data.length := by
  rw [sha256Update_eq]

theorem zenpkg_pieces {context : Zenpkg.Sha256} {host : AuditHost.Sha256} (hsame : AuditHost.Same host context.kernel)
    (hfits : context.totalBytes + pieces.flatten.length ≤ 2 ^ 64 - 1) :
    ∃ context', pieces.foldlM Zenpkg.Sha256.update context = .ok context' ∧
      context'.kernel = pieces.foldl sha256Update context.kernel := by
  induction pieces generalizing context host with
  | nil => exact ⟨context, rfl, rfl⟩
  | cons piece pieces ih =>
    rw [List.flatten_cons, List.length_append] at hfits
    obtain ⟨next, hupdate, hkernel⟩ := Zenpkg.update_ok hsame.room (by omega : context.totalBytes + piece.length ≤ 2 ^ 64 - 1)
    have htotal : next.totalBytes = context.totalBytes + piece.length :=
      (congrArg Sha256Context.totalBytes hkernel).trans (totalBytes_update _ _)
    obtain ⟨last, hrun, hlast⟩ := ih (hkernel ▸ AuditHost.same_update hsame piece) (by omega)
    refine ⟨last, ?_, ?_⟩
    · rw [List.foldlM_cons, hupdate]
      exact hrun
    · rw [hlast, hkernel, List.foldl_cons]

theorem zenuniverse_pieces {h : Zenuniverse.Sha256} (hfits : h.bytes + pieces.flatten.length ≤ 2 ^ 64 - 1) :
    ∃ h', pieces.foldlM Zenuniverse.Sha256.update h = .ok h' ∧ h'.audit = pieces.foldl AuditHost.shaUpdate h.audit ∧
      h'.bytes = h.bytes + pieces.flatten.length := by
  induction pieces generalizing h with
  | nil => exact ⟨h, rfl, rfl, rfl⟩
  | cons piece pieces ih =>
    rw [List.flatten_cons, List.length_append] at hfits
    obtain ⟨next, hupdate, haudit, hbytes⟩ := Zenuniverse.update_ok (by omega : h.bytes + piece.length ≤ 2 ^ 64 - 1)
    obtain ⟨last, hrun, hlast, htotal⟩ := ih (h := next) (by omega)
    refine ⟨last, ?_, ?_, ?_⟩
    · rw [List.foldlM_cons, hupdate]
      exact hrun
    · rw [hlast, haudit, List.foldl_cons]
    · rw [htotal, hbytes, List.flatten_cons, List.length_append, Nat.add_assoc]

theorem digest_pieces (h : pieces.flatten.length < 2 ^ 61) :
    sha256Final (pieces.foldl sha256Update sha256Init) = SecureHash.digest pieces.flatten ∧
      (pieces.foldlM Zenpkg.Sha256.update Zenpkg.Sha256.reset >>= Zenpkg.Sha256.final) = .ok (SecureHash.digest pieces.flatten) ∧
      (pieces.foldlM Zenuniverse.Sha256.update Zenuniverse.Sha256.initial >>= Zenuniverse.Sha256.finish) =
        .ok (Zenpkg.hexEncode (SecureHash.digest pieces.flatten)) ∧
      AuditHost.shaFinal (pieces.foldl AuditHost.shaUpdate AuditHost.shaInit) = SecureHash.digest pieces.flatten := by
  have hkernel : sha256Final (pieces.foldl sha256Update sha256Init) = SecureHash.digest pieces.flatten := by
    rw [foldl_sha256Update, ← sha256_digest h]
    rfl
  have hsame := same_pieces pieces AuditHost.same_init
  have haudit : AuditHost.shaFinal (pieces.foldl AuditHost.shaUpdate AuditHost.shaInit) = SecureHash.digest pieces.flatten := by
    rw [AuditHost.final_eq hsame, hkernel]
  have hreset : Zenpkg.Sha256.reset.kernel = sha256Init := rfl
  have hzero : Zenpkg.Sha256.reset.totalBytes = 0 := rfl
  have hnone : Zenuniverse.Sha256.initial.bytes = 0 := rfl
  have hinitial : Zenuniverse.Sha256.initial.audit = AuditHost.shaInit := rfl
  refine ⟨hkernel, ?_, ?_, haudit⟩
  · obtain ⟨context, hrun, hcontext⟩ := @zenpkg_pieces pieces _ _ (hreset ▸ AuditHost.same_init) (by rw [hzero]; omega)
    rw [hreset] at hcontext
    have htotal : context.totalBytes = pieces.flatten.length := by
      show context.kernel.totalBytes = _
      rw [hcontext, foldl_sha256Update, totalBytes_update]
      exact Nat.zero_add _
    rw [hrun, ok_bind, Zenpkg.final_eq (by omega), hcontext, hkernel]
  · obtain ⟨last, hrun, hlast, htotal⟩ := @zenuniverse_pieces pieces Zenuniverse.Sha256.initial (by rw [hnone]; omega)
    rw [hinitial] at hlast
    rw [hrun, ok_bind, Zenuniverse.finish_eq (hlast ▸ hsame) (by omega), hlast, haudit]

/-- Every way to hash a message of less than 2 ^ 29 bytes gives the standard's digest. -/
theorem digests_agree (h : pieces.flatten.length < 2 ^ 29) :
    (sha256Final (pieces.foldl sha256Update sha256Init) = SecureHash.digest pieces.flatten ∧
      (pieces.foldlM Zenpkg.Sha256.update Zenpkg.Sha256.reset >>= Zenpkg.Sha256.final) = .ok (SecureHash.digest pieces.flatten) ∧
      (pieces.foldlM Zenuniverse.Sha256.update Zenuniverse.Sha256.initial >>= Zenuniverse.Sha256.finish) =
        .ok (Zenpkg.hexEncode (SecureHash.digest pieces.flatten)) ∧
      AuditHost.shaFinal (pieces.foldl AuditHost.shaUpdate AuditHost.shaInit) = SecureHash.digest pieces.flatten) ∧
    sha256 pieces.flatten = SecureHash.digest pieces.flatten ∧
      Zenpkg.sha256Hash pieces.flatten = .ok (SecureHash.digest pieces.flatten) ∧
      Zenuniverse.sha256 pieces.flatten = .ok (Zenpkg.hexEncode (SecureHash.digest pieces.flatten)) ∧
      (AuditHost.sha256 pieces.flatten).bytes = SecureHash.digest pieces.flatten := by
  have hwhole := sha256_digest (by omega : pieces.flatten.length < 2 ^ 61)
  refine ⟨digest_pieces (by omega), hwhole, ?_, ?_, ?_⟩
  · rw [Zenpkg.sha256Hash_eq (by omega), hwhole]
  · obtain ⟨-, -, hone, -⟩ := @digest_pieces [pieces.flatten] (by rw [List.flatten_singleton]; omega)
    rw [List.flatten_singleton] at hone
    rw [← hone, List.foldlM_cons]
    simp only [List.foldlM_nil, bind_pure]
    rfl
  · rw [AuditHost.sha256_eq, hwhole]

theorem digests_agree_sample :
    sha256Final ([ascii "a", ascii "bc"].foldl sha256Update sha256Init) = SecureHash.digest [ascii "a", ascii "bc"].flatten ∧
      ([ascii "a", ascii "bc"].foldlM Zenuniverse.Sha256.update Zenuniverse.Sha256.initial >>= Zenuniverse.Sha256.finish) =
        .ok (Zenpkg.hexEncode (SecureHash.digest [ascii "a", ascii "bc"].flatten)) :=
  have h := @digests_agree [ascii "a", ascii "bc"] (by decide)
  ⟨h.1.1, h.1.2.2.1⟩

end ZenovOS
