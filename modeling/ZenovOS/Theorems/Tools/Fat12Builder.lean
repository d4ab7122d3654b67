import ZenovOS.Lib.ByteMemory
import ZenovOS.Lib.Limbs
import ZenovOS.Lib.Packed12
import ZenovOS.Tools.Fat12Builder

/-! # The boot image holds the kernel

The writes to the image are apart, so that each is still there at the end. The table chains the clusters of the kernel one behind the
other. -/

namespace ZenovOS.Fat12Builder
open Bytes

/-! ### Vectors -/

theorem byteAt_eq {data : Bytes} {offset : Nat} (h : offset < data.length) : byteAt data offset = .ok (data.getD offset 0) := by
  rw [byteAt, List.getElem?_eq_getElem h, List.getD_eq_getElem?_getD, List.getElem?_eq_getElem h, Option.getD_some]

theorem setAt_eq {data : Bytes} {offset : Nat} (h : offset < data.length) (value : UInt8) : setAt data offset value = .ok (data.set offset value) :=
  if_pos h

theorem put16_eq {data : Bytes} {offset : Nat} (h : offset + 2 ≤ data.length) (value : UInt16) :
    put16 data offset value = .ok (overwrite data offset (le 2 value.toNat)) := by
  have hlength : (overwrite data offset [value.toUInt8]).length = data.length := length_overwrite (by rw [List.length_singleton]; omega)
  have hbytes : le 2 value.toNat = [value.toUInt8] ++ [(value >>> 8).toUInt8] := by
    have hhigh : (value >>> 8).toNat = value.toNat / 256 := by
      rw [UInt16.toNat_shiftRight, show (8 : UInt16).toNat % 16 = 8 from rfl, Nat.shiftRight_eq_div_pow]
    show [UInt8.ofNat (value.toNat % 256), UInt8.ofNat (value.toNat / 256 % 256)] = [UInt8.ofNat value.toNat, UInt8.ofNat (value >>> 8).toNat]
    rw [hhigh, UInt8.ofNat_mod_size, UInt8.ofNat_mod_size]
  rw [put16, setAt_eq (by omega), ok_bind, set_eq_overwrite (by omega), setAt_eq (by omega), set_eq_overwrite (by omega), hbytes]
  exact congrArg Except.ok (overwrite_append (a := [value.toUInt8]) (by rw [List.length_singleton, List.length_singleton]; omega))

theorem put32_eq {data : Bytes} {offset : Nat} (h : offset + 4 ≤ data.length) (value : UInt32) :
    put32 data offset value = .ok (overwrite data offset (le 4 value.toNat)) := by
  have hlength : (overwrite data offset (le 2 value.toUInt16.toNat)).length = data.length := length_overwrite (by rw [length_le]; omega)
  have hbytes : le 4 value.toNat = le 2 value.toUInt16.toNat ++ le 2 (value >>> 16).toUInt16.toNat := by
    have hvalue := value.toNat_lt
    have hhigh : (value >>> 16).toNat = value.toNat / 65536 := by
      rw [UInt32.toNat_shiftRight, show (16 : UInt32).toNat % 32 = 16 from rfl, Nat.shiftRight_eq_div_pow]
    have h0 : value.toNat % 2 ^ 16 % 256 = value.toNat % 256 := by omega
    have h1 : value.toNat % 2 ^ 16 / 256 % 256 = value.toNat / 256 % 256 := by omega
    have h2 : value.toNat / 65536 % 2 ^ 16 % 256 = value.toNat / 256 / 256 % 256 := by omega
    have h3 : value.toNat / 65536 % 2 ^ 16 / 256 % 256 = value.toNat / 256 / 256 / 256 % 256 := by omega
    rw [UInt32.toNat_toUInt16, UInt32.toNat_toUInt16, hhigh]
    simp only [le, List.cons_append, List.nil_append, h0, h1, h2, h3]
  rw [put32, put16_eq (by omega), ok_bind, put16_eq (by omega), hbytes]
  exact congrArg Except.ok (overwrite_append (a := le 2 value.toUInt16.toNat) (by rw [length_le, length_le]; omega))

theorem copyName_eq {data : Bytes} {offset : Nat} {text : Bytes} (h : offset + text.length ≤ data.length) :
    copyName data offset text = .ok (overwrite data offset text) := by
  induction text generalizing data offset with
  | nil => simp [copyName, overwrite]
  | cons c text ih =>
    rw [List.length_cons] at h
    have hset : setAt data offset c = .ok (overwrite data offset [c]) := by rw [setAt_eq (by omega), set_eq_overwrite (by omega)]
    have hlength : (overwrite data offset [c]).length = data.length := length_overwrite (by rw [List.length_singleton]; omega)
    rw [copyName, hset, ok_bind, ih (by rw [hlength]; omega)]
    exact congrArg Except.ok (overwrite_append (a := [c]) (by rw [List.length_singleton]; omega))

/-! ### The table -/

theorem or_shift (low high : UInt8) : (low.toUInt16 ||| high.toUInt16 <<< 8).toNat = low.toNat + 256 * high.toNat := by
  have hlow := low.toNat_lt
  have hhigh := high.toNat_lt
  rw [UInt16.toNat_or, UInt16.toNat_shiftLeft, UInt8.toNat_toUInt16, UInt8.toNat_toUInt16, show (8 : UInt16).toNat % 16 = 8 from rfl,
    Nat.shiftLeft_eq, Nat.mod_eq_of_lt (by omega), ← Nat.shiftLeft_eq, Nat.or_comm, shiftLeft_or (by omega)]
  omega

theorem toNat_field (value : UInt16) : (value &&& 0x0FFF).toNat = value.toNat % 4096 := by
  rw [UInt16.toNat_and]
  exact Nat.and_two_pow_sub_one_eq_mod value.toNat 12

theorem odd_word (current : UInt16) {field : UInt16} (h : field.toNat < 4096) :
    ((current &&& 0x000F) ||| (field <<< (4 : UInt16))).toNat = current.toNat % 16 + 16 * field.toNat := by
  have hlow : (current &&& 0x000F).toNat = current.toNat % 16 := by
    rw [UInt16.toNat_and]
    exact Nat.and_two_pow_sub_one_eq_mod current.toNat 4
  rw [UInt16.toNat_or, hlow, UInt16.toNat_shiftLeft, show (4 : UInt16).toNat % 16 = 4 from rfl, Nat.shiftLeft_eq,
    Nat.mod_eq_of_lt (show field.toNat * 2 ^ 4 < 2 ^ 16 by omega), ← Nat.shiftLeft_eq, Nat.or_comm, 
    shiftLeft_or (w := 4) (show current.toNat % 16 < 2 ^ 4 from Nat.mod_lt _ (by decide))]
  omega

theorem and_high {x : Nat} (h : x < 2 ^ 16) : x &&& 0xF000 = (x / 4096) <<< 12 := by
  have hmask : 0xF000 = (2 ^ 4 - 1) <<< 12 := rfl
  refine Nat.eq_of_testBit_eq fun i => ?_
  rw [hmask, Nat.testBit_and, Nat.testBit_shiftLeft, Nat.testBit_shiftLeft, Nat.testBit_two_pow_sub_one, ← Nat.shiftRight_eq_div_pow x 12,
    Nat.testBit_shiftRight]
  by_cases hi : 12 ≤ i
  · rw [Nat.add_sub_cancel' hi]
    by_cases hlast : i - 12 < 4
    · simp [hi, hlast]
    · have hnone : x.testBit i = false := Nat.testBit_lt_two_pow (Nat.lt_of_lt_of_le h (Nat.pow_le_pow_right (by decide) (by omega)))
      simp [hnone]
  · simp [hi]

theorem even_word (current : UInt16) {field : UInt16} (h : field.toNat < 4096) :
    ((current &&& 0xF000) ||| field).toNat = current.toNat / 4096 * 4096 + field.toNat := by
  rw [UInt16.toNat_or, UInt16.toNat_and, show (0xF000 : UInt16).toNat = 0xF000 from rfl, and_high current.toNat_lt, shiftLeft_or (w := 12) h]
  rfl

theorem fat12Set_eq {fat : Bytes} {cluster value : UInt16} (h : Packed12.place cluster.toNat + 1 < fat.length) :
    fat12Set fat cluster value = .ok (Packed12.put fat cluster.toNat (value.toNat % 4096)) := by
  have hfield : (value &&& 0x0FFF).toNat < 4096 := by
    rw [toNat_field]
    exact Nat.mod_lt _ (by decide)
  have hset : ∀ current : UInt16, (do
      let fat ← setAt fat (Packed12.place cluster.toNat) current.toUInt8
      setAt fat (Packed12.place cluster.toNat + 1) (current >>> 8).toUInt8) =
      .ok (Packed12.putWord fat (Packed12.place cluster.toNat) current.toNat) := by
    intro current
    have hhigh : (current >>> 8).toNat = current.toNat / 256 := by
      rw [UInt16.toNat_shiftRight, show (8 : UInt16).toNat % 16 = 8 from rfl, Nat.shiftRight_eq_div_pow]
    rw [setAt_eq (by omega), ok_bind, setAt_eq (by rw [List.length_set]; exact h), Packed12.putWord, ← hhigh]
    rfl
  have hodd : cluster &&& 1 ≠ 0 ↔ cluster.toNat % 2 = 1 := by
    rw [ne_eq, ← UInt16.toNat_inj, UInt16.toNat_and, show (1 : UInt16).toNat = 1 from rfl, show (0 : UInt16).toNat = 0 from rfl,
      Nat.and_one_is_mod]
    omega
  unfold fat12Set
  dsimp only
  rw [show cluster.toNat + cluster.toNat / 2 = Packed12.place cluster.toNat from rfl, byteAt_eq (by omega), ok_bind, byteAt_eq h, ok_bind, hset]
  refine congrArg (fun w => Except.ok (Packed12.putWord fat (Packed12.place cluster.toNat) w)) ?_
  have hword := or_shift (fat.getD (Packed12.place cluster.toNat) 0) (fat.getD (Packed12.place cluster.toNat + 1) 0)
  by_cases hc : cluster.toNat % 2 = 1
  · rw [if_pos (hodd.mpr hc), if_pos hc, odd_word _ hfield, hword, toNat_field]
    rfl
  · rw [if_neg (mt hodd.mp hc), if_neg hc, even_word _ hfield, hword, toNat_field]
    rfl

/-- What the entry of a cluster is once the clusters are chained. -/
def linked (clusters cluster : Nat) : Nat := if cluster = clusters + 1 then 0xFFF else cluster + 1

theorem fatLoop_eq {clusters left i : Nat} {fat : Bytes} (hlength : fat.length = 4608) (hleft : i + left = clusters) (hclusters : clusters ≤ 2847) :
    ∃ fat', fatLoop clusters left i fat = .ok fat' ∧ fat'.length = 4608 ∧
      ∀ m, Packed12.get fat' m = if 2 + i ≤ m ∧ m < 2 + clusters then linked clusters m else Packed12.get fat m := by
  induction left generalizing i fat with
  | zero => exact ⟨fat, rfl, hlength, fun m => by rw [if_neg (by omega)]⟩
  | succ left ih =>
    have hcluster : (UInt16.ofNat (2 + i)).toNat = 2 + i := by
      rw [UInt16.toNat_ofNat']
      omega
    have hplace : Packed12.place (UInt16.ofNat (2 + i)).toNat + 1 < fat.length := by
      rw [hcluster, hlength, Packed12.place]
      omega
    have hvalue : (if i + 1 = clusters then 0x0FFF else UInt16.ofNat (2 + i) + 1).toNat % 4096 = linked clusters (2 + i) := by
      unfold linked
      split
      · rw [if_pos (by omega)]
        rfl
      · rw [if_neg (by omega), UInt16.toNat_add, hcluster, show (1 : UInt16).toNat = 1 from rfl]
        omega
    have hsmall : linked clusters (2 + i) < 4096 := by
      rw [← hvalue]
      exact Nat.mod_lt _ (by decide)
    rw [hcluster] at hplace
    obtain ⟨fat', hloop, hlength', hget⟩ :=
      @ih (i + 1) (Packed12.put fat (2 + i) (linked clusters (2 + i))) (by rw [Packed12.length_put, hlength]) (by omega)
    refine ⟨fat', ?_, hlength', fun m => ?_⟩
    · rw [fatLoop]
      rw [fat12Set_eq (by rw [hcluster]; exact hplace), ok_bind, hvalue, hcluster, hloop]
    · rw [hget m]
      by_cases hm : m = 2 + i
      · subst hm
        rw [if_neg (by omega), if_pos (by omega), Packed12.get_put hplace hsmall]
      · rw [Packed12.get_put_ne hplace hsmall hm]
        split
        · rw [if_pos (by omega)]
        · rw [if_neg (by omega)]

/-! ### The writes -/

/-- All that `main` writes to the image, in order. -/
def writes (boot fat kernel : Bytes) : List Write :=
  [⟨0, boot⟩, ⟨kSectorSize, fat⟩, ⟨kSectorSize + fat.length, fat⟩,
    ⟨kRootStart * kSectorSize, ascii "ZENOVOS    "⟩, ⟨kRootStart * kSectorSize + 11, [0x08]⟩,
    ⟨kRootStart * kSectorSize + 32, ascii "KERNEL  BIN"⟩, ⟨kRootStart * kSectorSize + 32 + 11, [0x20]⟩,
    ⟨kRootStart * kSectorSize + 32 + 26, le 2 2⟩, ⟨kRootStart * kSectorSize + 32 + 28, le 4 kernel.length⟩,
    ⟨kDataStart * kSectorSize, kernel⟩]

theorem layout : kSectorSize = 512 ∧ kRootStart = 19 ∧ kDataStart = 33 ∧ kTotalSectors = 2880 ∧ kImageSize = 1474560 ∧ kFatSectors = 9 := by
  decide

/-- A boot sector and a kernel that the program accepts. -/
structure Accepted (boot kernel : Bytes) : Prop where
  length : boot.length = kSectorSize
  low : boot[510]? = some 0x55
  high : boot[511]? = some 0xAA
  nonempty : kernel ≠ []
  fits : clustersOf kernel ≤ kTotalSectors - kDataStart

theorem accepted_of_build {boot kernel image : Bytes} (h : build boot kernel = .ok image) : Accepted boot kernel := by
  unfold build at h
  obtain ⟨hlength, h⟩ := refused h
  obtain ⟨hsignature, h⟩ := refused h
  obtain ⟨hnonempty, h⟩ := refused h
  obtain ⟨hfits, -⟩ := refused h
  rw [not_or, not_not, not_not] at hsignature
  exact ⟨not_not.mp hlength, hsignature.1, hsignature.2, hnonempty, not_lt.mp hfits⟩

section
variable {boot fat kernel : Bytes}

theorem Accepted.size (h : Accepted boot kernel) : 0 < kernel.length ∧ kernel.length ≤ 2847 * 512 ∧ clustersOf kernel ≤ 2847 := by
  obtain ⟨h512, -, h33, h2880, -, -⟩ := layout
  have hfits := h.fits
  have hpos := List.length_pos_iff.mpr h.nonempty
  unfold clustersOf at hfits ⊢
  rw [h512, h33, h2880] at hfits
  rw [h512]
  omega

theorem Accepted.stop (h : Accepted boot kernel) (hfat : fat.length = 4608) : ∀ w ∈ writes boot fat kernel, w.stop ≤ kImageSize := by
  obtain ⟨h512, h19, h33, -, himage, -⟩ := layout
  have hsize := h.size
  have hboot := h.length
  have hvolume : (ascii "ZENOVOS    ").length = 11 := rfl
  have hname : (ascii "KERNEL  BIN").length = 11 := rfl
  simp only [writes, List.forall_mem_cons, List.not_mem_nil, false_implies, implies_true, and_true, Write.stop, length_le, List.length_singleton, hvolume,
    hname, hfat, hboot, h512, h19, h33, himage]
  omega

theorem Accepted.apart (h : Accepted boot kernel) (hfat : fat.length = 4608) : (writes boot fat kernel).Pairwise Write.Apart := by
  obtain ⟨h512, h19, h33, -, -, -⟩ := layout
  have hboot := h.length
  have hvolume : (ascii "ZENOVOS    ").length = 11 := rfl
  have hname : (ascii "KERNEL  BIN").length = 11 := rfl
  simp only [writes, List.pairwise_cons, List.forall_mem_cons, List.not_mem_nil, false_implies, implies_true, and_true, Write.Apart, Write.stop, length_le,
    List.length_singleton, hvolume, hname, hfat, hboot, h512, h19, h33, List.Pairwise.nil]
  omega

theorem length_emptyFat : emptyFat.length = 4608 := by
  unfold emptyFat
  rw [List.length_set, List.length_set, List.length_set, List.length_replicate]
  rfl

theorem build_eq (h : Accepted boot kernel) :
    ∃ fat, fat.length = 4608 ∧ (∀ m, 2 ≤ m → m < 2 + clustersOf kernel → Packed12.get fat m = linked (clustersOf kernel) m) ∧
      build boot kernel = .ok ((writes boot fat kernel).foldl Write.into (List.replicate kImageSize 0)) := by
  obtain ⟨hpos, hsize, hclusters⟩ := h.size
  obtain ⟨fat, hloop, hfat, hget⟩ := fatLoop_eq (i := 0) length_emptyFat (Nat.zero_add _) hclusters
  refine ⟨fat, hfat, fun m hlow hhigh => by rw [hget, if_pos ⟨hlow, hhigh⟩], ?_⟩
  have hmem : ∀ (i : Nat) {w : Write}, (writes boot fat kernel)[i]? = some w → w ∈ writes boot fat kernel := fun _ _ => List.mem_of_getElem?
  -- no write is outside the image, whose length stays
  have hstop : ∀ {start : Nat} {data : Bytes}, ⟨start, data⟩ ∈ writes boot fat kernel → start + data.length ≤ kImageSize :=
    fun hw => h.stop hfat _ hw
  have hover : ∀ {b : Bytes} {start : Nat} {data : Bytes}, b.length = kImageSize → ⟨start, data⟩ ∈ writes boot fat kernel →
      (overwrite b start data).length = kImageSize := fun hb hw => (length_overwrite (hb ▸ hstop hw)).trans hb
  have hname : ∀ {b : Bytes} {start : Nat} {text : Bytes}, b.length = kImageSize → ⟨start, text⟩ ∈ writes boot fat kernel →
      copyName b start text = .ok (overwrite b start text) := fun hb hw => copyName_eq (hb ▸ hstop hw)
  have hset : ∀ {b : Bytes} {start : Nat} {value : UInt8}, b.length = kImageSize → ⟨start, [value]⟩ ∈ writes boot fat kernel →
      b.set start value = overwrite b start [value] := fun hb hw => set_eq_overwrite (hb ▸ hstop hw) _
  have h0 : (List.replicate kImageSize (0 : UInt8)).length = kImageSize := List.length_replicate
  have h1 := hover h0 (hmem 0 (w := ⟨0, boot⟩) rfl)
  have h2 := hover h1 (hmem 1 (w := ⟨kSectorSize, fat⟩) rfl)
  have h3 := hover h2 (hmem 2 (w := ⟨kSectorSize + fat.length, fat⟩) rfl)
  have h4 := hover h3 (hmem 3 (w := ⟨kRootStart * kSectorSize, ascii "ZENOVOS    "⟩) rfl)
  have h5 := hover h4 (hmem 4 (w := ⟨kRootStart * kSectorSize + 11, [0x08]⟩) rfl)
  have h6 := hover h5 (hmem 5 (w := ⟨kRootStart * kSectorSize + 32, ascii "KERNEL  BIN"⟩) rfl)
  have h7 := hover h6 (hmem 6 (w := ⟨kRootStart * kSectorSize + 32 + 11, [0x20]⟩) rfl)
  have h8 := hover h7 (hmem 7 (w := ⟨kRootStart * kSectorSize + 32 + 26, le 2 2⟩) rfl)
  have hkernel : (UInt32.ofNat kernel.length).toNat = kernel.length := by
    rw [UInt32.toNat_ofNat']
    omega
  unfold build
  rw [refuse_bind (not_not.mpr h.length), refuse_bind (by rw [h.low, h.high]; simp), refuse_bind h.nonempty, refuse_bind (not_lt.mpr h.fits)]
  dsimp only
  rw [hloop, ok_bind, hname h3 (hmem 3 rfl), ok_bind, hset h4 (hmem 4 rfl), hname h5 (hmem 5 rfl), ok_bind, hset h6 (hmem 6 rfl),
    put16_eq (by rw [h7]; exact hstop (hmem 7 rfl)), ok_bind, put32_eq (by rw [show UInt16.toNat 2 = 2 from rfl, h8]; exact hstop (hmem 8 rfl)),
    ok_bind, hkernel]
  rfl

/-! ### Reading the image -/

def fatCopy (image : Bytes) (copy : Nat) : Bytes := slice image (kSectorSize + copy * (kFatSectors * kSectorSize)) (kFatSectors * kSectorSize)

/-- The sector of a cluster. -/
def clusterBytes (image : Bytes) (cluster : Nat) : Bytes := slice image ((kDataStart + (cluster - 2)) * kSectorSize) kSectorSize

/-- The size in the directory entry of the file. -/
def fileSize (image : Bytes) : Nat := toNat (slice image (kRootStart * kSectorSize + 32 + 28) 4)

/-- The clusters of a table from one on, up to an end mark. -/
def followed (fat : Bytes) (cluster : Nat) : Option (List Nat) :=
  Packed12.chain (Packed12.get fat) (fun entry => 0xFF8 ≤ entry) kTotalSectors cluster

theorem followed_eq {clusters : Nat} (hpos : 0 < clusters) (hclusters : clusters ≤ 2847)
    (hget : ∀ m, 2 ≤ m → m < 2 + clusters → Packed12.get fat m = linked clusters m) : followed fat 2 = some (List.range' 2 clusters) := by
  have hrow := @Packed12.chain_row (clusters - 1) (Packed12.get fat) (fun entry => 0xFF8 ≤ entry) 2 kTotalSectors
    (by rw [layout.2.2.2.1]; omega)
    (fun i hi => by
      rw [hget _ (by omega) (by omega), linked, if_neg (by omega)]
      exact ⟨rfl, decide_eq_false (by omega)⟩)
    (by
      rw [hget _ (by omega) (by omega), linked, if_pos (by omega)]
      rfl)
  rwa [Nat.sub_add_cancel hpos] at hrow

theorem flatMap_clusterBytes (image : Bytes) (n : Nat) :
    (List.range' 2 n).flatMap (clusterBytes image) = slice image (kDataStart * kSectorSize) (n * kSectorSize) := by
  induction n with
  | zero => simp [slice]
  | succ n ih =>
    rw [List.range'_concat, List.flatMap_append, ih, Nat.add_mul, Nat.one_mul, ← slice_append_slice]
    simp [clusterBytes, Nat.add_mul]

theorem le_clusters (kernel : Bytes) : kernel.length ≤ clustersOf kernel * kSectorSize := by
  unfold clustersOf
  rw [layout.1]
  omega

/-- Following either copy of the table gives the clusters of the kernel, whose sectors hold it up to the size in the directory; the copies
are the same, and no two writes of the program meet. -/
theorem image_holds_kernel {image : Bytes} (h : build boot kernel = .ok image) :
    (∃ chain, (∀ copy < kFatCount, followed (fatCopy image copy) 2 = some chain) ∧ chain.Nodup ∧ chain.length = (kernel.length + 511) / 512 ∧
      (chain.flatMap (clusterBytes image)).take (fileSize image) = kernel) ∧
    fatCopy image 0 = fatCopy image 1 ∧
    ∃ fat, image = (writes boot fat kernel).foldl Write.into (List.replicate kImageSize 0) ∧
      (writes boot fat kernel).Pairwise Write.Apart ∧ ∀ w ∈ writes boot fat kernel, w.stop ≤ kImageSize := by
  have haccepted := accepted_of_build h
  obtain ⟨hpos, hsize, hclusters⟩ := haccepted.size
  obtain ⟨fat, hfat, hget, hbuild⟩ := build_eq haccepted
  have himage : image = (writes boot fat kernel).foldl Write.into (List.replicate kImageSize 0) := Except.ok.inj (h.symm.trans hbuild)
  have hstop := haccepted.stop hfat
  have hapart := haccepted.apart hfat
  obtain ⟨h512, h19, h33, -, -, h9⟩ := layout
  have hread : ∀ (i : Nat) (start : Nat) (data : Bytes), (writes boot fat kernel)[i]? = some ⟨start, data⟩ → slice image start data.length = data := by
    intro i start data hw
    rw [himage]
    exact Write.slice_intoAll (by rw [List.length_replicate]; exact hstop) hapart (List.mem_of_getElem? hw)
  have hfirst : fatCopy image 0 = fat := by
    have hslice := hread 1 kSectorSize fat rfl
    rw [fatCopy, Nat.zero_mul, Nat.add_zero, h9, show 9 * kSectorSize = fat.length by rw [h512, hfat], hslice]
  have hsecond : fatCopy image 1 = fat := by
    have hslice := hread 2 (kSectorSize + fat.length) fat rfl
    rw [fatCopy, Nat.one_mul, h9, show 9 * kSectorSize = fat.length by rw [h512, hfat], hslice]
  have hdirectory : fileSize image = kernel.length := by
    have hslice := hread 8 (kRootStart * kSectorSize + 32 + 28) (le 4 kernel.length) rfl
    rw [length_le] at hslice
    rw [fileSize, hslice, toNat_le_of_lt (by omega)]
  have hdata := hread 9 (kDataStart * kSectorSize) kernel rfl
  have hcount : clustersOf kernel = (kernel.length + 511) / 512 := by
    rw [clustersOf, h512]
    rfl
  refine ⟨⟨List.range' 2 (clustersOf kernel), fun copy hcopy => ?_, List.nodup_range', ?_, ?_⟩, hfirst.trans hsecond.symm, fat, himage, hapart, hstop⟩
  · have hfollowed := @followed_eq fat _ (by omega) hclusters hget
    obtain rfl | rfl : copy = 0 ∨ copy = 1 := by
      rw [kFatCount] at hcopy
      omega
    · rw [hfirst, hfollowed]
    · rw [hsecond, hfollowed]
  · rw [List.length_range', hcount]
  · rw [flatMap_clusterBytes, hdirectory]
    have hcut : (slice image (kDataStart * kSectorSize) (clustersOf kernel * kSectorSize)).take kernel.length =
        slice image (kDataStart * kSectorSize) kernel.length := by
      rw [slice, slice, List.take_take, Nat.min_eq_left (le_clusters kernel)]
    rw [hcut, hdata]

end

/-- The least kernel behind a boot sector of zeros. -/
theorem least_image_holds_kernel :
    ∃ image, build (List.replicate 510 0 ++ [0x55, 0xAA]) [0xF4] = .ok image ∧
      ((∃ chain, (∀ copy < kFatCount, followed (fatCopy image copy) 2 = some chain) ∧ chain.Nodup ∧ chain.length = 1 ∧
        (chain.flatMap (clusterBytes image)).take (fileSize image) = [0xF4]) ∧
      fatCopy image 0 = fatCopy image 1) := by
  have haccepted : Accepted (List.replicate 510 0 ++ [0x55, 0xAA]) [0xF4] :=
    ⟨by rw [layout.1, List.length_append, List.length_replicate]; rfl, by decide +kernel, by decide +kernel, List.cons_ne_nil _ _, by decide⟩
  obtain ⟨fat, -, -, hbuild⟩ := build_eq haccepted
  obtain ⟨hchain, hcopies, -⟩ := image_holds_kernel hbuild
  exact ⟨_, hbuild, hchain, hcopies⟩

end ZenovOS.Fat12Builder
