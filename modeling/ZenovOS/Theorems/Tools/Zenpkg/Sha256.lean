import ZenovOS.Theorems.Tools.AuditFormat
import ZenovOS.Tools.Zenpkg.Archive

/-! # The digest of the package tools

A piece copied into the block at once is what the kernel does byte by byte; the digests are the kernel's. -/

namespace ZenovOS.Zenpkg
open Bytes Security

theorem addMod32_nil : addMod32 [] = 0 := rfl

theorem addMod32_cons (x : UInt32) (values : List UInt32) : addMod32 (x :: values) = x + addMod32 values := by
  have hmask : ∀ n, n &&& 0xffffffff = n % 2 ^ 32 := fun n => Nat.and_two_pow_sub_one_eq_mod n 32
  apply UInt32.toNat.inj
  unfold addMod32
  rw [List.map_cons, List.sum_cons, hmask, hmask, UInt32.toNat_add, UInt32.toNat_ofNat', UInt32.toNat_ofNat']
  omega

theorem schedule_eq (left : Nat) (words : List UInt32) : shaSchedule left words = AuditHost.schedule left words := by
  induction left generalizing words with
  | zero => rfl
  | succ left ih =>
    rw [shaSchedule, AuditHost.schedule, ih]
    simp only [addMod32_cons, addMod32_nil, UInt32.add_zero, UInt32.add_assoc]

theorem shaStep_eq : shaStep = AuditHost.round := by
  funext s constant word
  unfold shaStep AuditHost.round
  simp only [addMod32_cons, addMod32_nil, UInt32.add_zero, UInt32.add_assoc]

theorem shaConstants_eq : shaConstants = AuditHost.kSha256Constants := rfl

theorem transform_eq (state : ShaState) (block : Bytes) : transform state block = sha256Transform state block := by
  rw [← AuditHost.transform_eq]
  unfold transform AuditHost.transform
  simp only [addMod32_cons, addMod32_nil, UInt32.add_zero, schedule_eq, shaStep_eq, shaConstants_eq]

/-- The kernel's context. -/
def Sha256.kernel (context : Sha256) : Sha256Context := ⟨context.state, context.totalBytes, context.block⟩

theorem foldl_sha256Byte (data : Bytes) (c : Sha256Context) :
    data.foldl sha256Byte c =
      ⟨(data.foldl (BlockHash.feed 64 sha256Transform) (c.state, c.block)).1, c.totalBytes,
        (data.foldl (BlockHash.feed 64 sha256Transform) (c.state, c.block)).2⟩ := by
  induction data generalizing c with
  | nil => rfl
  | cons b data ih =>
    have hbyte : sha256Byte c b = ⟨(BlockHash.feed 64 sha256Transform (c.state, c.block) b).1, c.totalBytes,
        (BlockHash.feed 64 sha256Transform (c.state, c.block) b).2⟩ := by
      unfold sha256Byte BlockHash.feed
      dsimp only
      split
      · rfl
      · rfl
    rw [List.foldl_cons, List.foldl_cons, hbyte, ih]

theorem bitLength_eq (bits : Nat) : (List.range 8).map (fun i => UInt8.ofNat (bits >>> (56 - i * 8))) = (le 8 bits).reverse := by
  rw [AuditHost.le_eq_map, ← List.map_reverse]
  rfl

theorem final_eq {context : Sha256} (h : context.totalBytes ≤ (2 ^ 64 - 1) / 8) : context.final = .ok (sha256Final context.kernel) := by
  unfold Sha256.final sha256Final
  rw [refuse_bind (Nat.not_lt.mpr h)]
  have hbits : context.totalBytes * 8 % 2 ^ 64 = context.totalBytes * 8 := Nat.mod_eq_of_lt (by omega)
  simp only [transform_eq, bitLength_eq, Sha256.kernel, hbits]
  rfl

theorem sha256Hash_eq {data : Bytes} (h : data.length ≤ (2 ^ 64 - 1) / 8) : sha256Hash data = .ok (sha256 data) := by
  have hreset : Sha256.reset.totalBytes = 0 := rfl
  have htransform : transform = sha256Transform := funext fun state => funext fun block => transform_eq state block
  have habsorb := @BlockHash.absorb_eq ShaState UInt8 64 sha256Transform data.length (Sha256.reset.state, Sha256.reset.block) data
    (Nat.le_refl _) (Nat.zero_lt_succ 63)
  unfold sha256Hash Sha256.update
  rw [refuse_bind (by rw [hreset]; omega), htransform, habsorb]
  dsimp only
  rw [pure_bind]
  rw [final_eq (by rw [hreset]; show 0 + data.length ≤ _; omega)]
  unfold sha256 sha256Update
  rw [foldl_sha256Byte]
  rfl

theorem update_ok {context : Sha256} {data : Bytes} (hroom : context.block.length < 64)
    (hfits : context.totalBytes + data.length ≤ 2 ^ 64 - 1) :
    ∃ context', context.update data = .ok context' ∧ context'.kernel = sha256Update context.kernel data := by
  have hpass : ¬2 ^ 64 - 1 - context.totalBytes < data.length := by omega
  have htransform : transform = sha256Transform := funext fun state => funext fun block => transform_eq state block
  have habsorb := @BlockHash.absorb_eq ShaState UInt8 64 sha256Transform data.length (context.state, context.block) data
    (Nat.le_refl _) hroom
  unfold Sha256.update
  rw [refuse_bind hpass, htransform, habsorb]
  refine ⟨_, rfl, ?_⟩
  rw [sha256Update, foldl_sha256Byte]
  rfl

end ZenovOS.Zenpkg
