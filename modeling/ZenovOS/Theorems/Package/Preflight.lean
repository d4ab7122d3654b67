import Mathlib.Data.Nat.Bitwise
import ZenovOS.Package.Preflight

/-! # Accepted programs are well placed

A program that a validator accepts keeps its file ranges in the file, its memory in the image, its ranges apart and none of
them writable and executable; and no validator reads outside the file, whatever the file is. -/

namespace ZenovOS.Package.Compatibility
open Bytes

variable {file : Bytes} {offset i n : Nat}

/-! ### Reads -/

/-- The value that `read_u16` or `read_u32` gives. -/
def value16 (file : Bytes) (offset : Nat) : Nat :=
  if file.length < offset % 2 ^ 32 ∨ file.length - offset % 2 ^ 32 < 2 then 0 else Security.u16 file (offset % 2 ^ 32)

def value32 (file : Bytes) (offset : Nat) : Nat :=
  if file.length < offset % 2 ^ 32 ∨ file.length - offset % 2 ^ 32 < 4 then 0 else Security.u32 file (offset % 2 ^ 32)

/-- The flag that `read_u16` or `read_u32` sets. -/
def readable (file : Bytes) (offset width : Nat) : Bool :=
  !(file.length < offset % 2 ^ 32 || file.length - offset % 2 ^ 32 < width)

theorem byteAt_eq (h : i < file.length) : byteAt file i = .ok file[i] := by
  unfold byteAt
  rw [List.getElem?_eq_getElem h]

theorem slice_succ {b : Bytes} {off : Nat} (h : off < b.length) (n : Nat) : slice b off (n + 1) = b[off] :: slice b (off + 1) n := by
  unfold slice
  rw [List.drop_eq_getElem_cons h, List.take_succ_cons]

theorem readU16_eq (file : Bytes) (offset : Nat) : readU16 file offset = .ok (value16 file offset, readable file offset 2) := by
  unfold readU16 value16 readable
  dsimp only
  generalize offset % 2 ^ 32 = o
  by_cases h : file.length < o ∨ file.length - o < 2
  · rw [if_pos h, if_pos h]
    simp only [← Bool.decide_or, decide_eq_true h, Bool.not_true]
  · rw [if_neg h, if_neg h, byteAt_eq (by omega), byteAt_eq (by omega)]
    have hvalue : Security.u16 file o = file[o].toNat + 256 * (file[o + 1].toNat + 256 * 0) := by
      unfold Security.u16
      rw [slice_succ (by omega), slice_succ (by omega)]
      rfl
    simp only [← Bool.decide_or, decide_eq_false h, Bool.not_false, hvalue, ok_bind]
    refine congrArg (fun value => Except.ok (value, true)) ?_
    omega

theorem readU32_eq (file : Bytes) (offset : Nat) : readU32 file offset = .ok (value32 file offset, readable file offset 4) := by
  unfold readU32 value32 readable
  dsimp only
  generalize offset % 2 ^ 32 = o
  by_cases h : file.length < o ∨ file.length - o < 4
  · rw [if_pos h, if_pos h]
    simp only [← Bool.decide_or, decide_eq_true h, Bool.not_true]
  · rw [if_neg h, if_neg h, byteAt_eq (by omega), byteAt_eq (by omega), byteAt_eq (by omega), byteAt_eq (by omega)]
    have hvalue : Security.u32 file o = file[o].toNat + 256 * (file[o + 1].toNat + 256 * (file[o + 2].toNat +
        256 * (file[o + 3].toNat + 256 * 0))) := by
      unfold Security.u32
      rw [slice_succ (by omega), slice_succ (by omega), slice_succ (by omega), slice_succ (by omega)]
      rfl
    simp only [← Bool.decide_or, decide_eq_false h, Bool.not_false, hvalue, ok_bind]
    refine congrArg (fun value => Except.ok (value, true)) ?_
    omega

theorem avoids_byteAt (h : i < file.length) : Avoids Stop.outside (byteAt file i) := by
  rw [byteAt_eq h]
  exact avoids_ok _

theorem avoids_bytesAt (file : Bytes) (offset : Nat) (expected : Bytes) : Avoids Stop.outside (bytesAt file offset expected) := by
  unfold bytesAt
  refine avoids_ite (fun _ => avoids_ok _) fun hroom => ?_
  refine (avoids_foldlM (fun difference i hi => ?_) 0).bind fun _ _ => avoids_ok _
  have hi := List.mem_range.mp hi
  exact (avoids_byteAt (by omega)).bind fun _ _ => avoids_ok _

/-! ### Placed segments -/

/-- A range of the program: where it is in memory and in the file, and what its flags allow. -/
structure Segment where
  address : Nat
  memorySize : Nat
  fileOffset : Nat
  fileSize : Nat
  writable : Bool
  executable : Bool

def Segment.Apart (g h : Segment) : Prop := g.address + g.memorySize ≤ h.address ∨ h.address + h.memorySize ≤ g.address

/-- The segments are in the file, in the image, apart, and not to be written and executed. -/
structure WellPlaced (file : Bytes) (base limit : Nat) (segments : List Segment) : Prop where
  inFile : ∀ g ∈ segments, g.fileSize ≠ 0 → g.fileOffset + g.fileSize ≤ file.length
  inImage : ∀ g ∈ segments, base ≤ g.address ∧ g.address + g.memorySize ≤ base + limit
  apart : segments.Pairwise Segment.Apart
  exclusive : ∀ g ∈ segments, ¬(g.writable = true ∧ g.executable = true)

/-- The entry point is in the segment, which is to be executed. -/
def Segment.Enters (g : Segment) (entry : Nat) : Prop := g.executable = true ∧ g.address ≤ entry ∧ entry < g.address + g.memorySize

/-- The entry point is in an executable segment. -/
def EntersAt (entry : Nat) (segments : List Segment) : Prop := ∃ g ∈ segments, g.Enters entry

/-- What a round of a loop over a table of headers has checked: the segment `i`, and that it is apart from those before it. -/
structure Round (file : Bytes) (base limit : Nat) (segment : Nat → Segment) (loaded : List Nat) (i : Nat) : Prop where
  inFile : (segment i).fileSize ≠ 0 → (segment i).fileOffset + (segment i).fileSize ≤ file.length
  inImage : base ≤ (segment i).address ∧ (segment i).address + (segment i).memorySize ≤ base + limit
  apart : ∀ j < i, j ∈ loaded → (segment i).Apart (segment j)
  exclusive : ¬((segment i).writable = true ∧ (segment i).executable = true)

theorem Segment.Apart.symm {g h : Segment} (hapart : g.Apart h) : h.Apart g := Or.symm hapart

theorem wellPlaced_of_rounds {base limit : Nat} {segment : Nat → Segment} {loaded : List Nat} (hsorted : loaded.Pairwise (· < ·))
    (hround : ∀ i ∈ loaded, Round file base limit segment loaded i) : WellPlaced file base limit (loaded.map segment) where
  inFile g hg := by
    obtain ⟨i, hi, rfl⟩ := List.mem_map.mp hg
    exact (hround i hi).inFile
  inImage g hg := by
    obtain ⟨i, hi, rfl⟩ := List.mem_map.mp hg
    exact (hround i hi).inImage
  apart := List.pairwise_map.mpr (hsorted.imp_of_mem fun {j i} hj hi hlt => ((hround i hi).apart j hlt hj).symm)
  exclusive g hg := by
    obtain ⟨i, hi, rfl⟩ := List.mem_map.mp hg
    exact (hround i hi).exclusive

theorem addFits_iff {left right limit : Nat} : addFits left right limit = true ↔ left + right ≤ limit := by
  unfold addFits
  simp only [Bool.and_eq_true, decide_eq_true_eq]
  omega

theorem apart_of_overlap {left leftSize right rightSize : Nat} (h : rangesOverlap left leftSize right rightSize = false) :
    left + leftSize ≤ right ∨ right + rightSize ≤ left := by
  unfold rangesOverlap at h
  simp only [Bool.or_eq_false_iff, Bool.and_eq_false_iff, decide_eq_false_iff_not] at h
  omega

theorem rangeContains_iff {base span value : Nat} : rangeContains base span value = true ↔ base ≤ value ∧ value < base + span := by
  unfold rangeContains
  simp only [Bool.and_eq_true, decide_eq_true_eq]
  omega

theorem exclusive_of_mask {flags i j : Nat} (h : flags &&& (2 ^ i ||| 2 ^ j) ≠ 2 ^ i ||| 2 ^ j) :
    ¬(decide (flags &&& 2 ^ i ≠ 0) = true ∧ decide (flags &&& 2 ^ j ≠ 0) = true) := by
  rintro ⟨hi, hj⟩
  have hbit : ∀ k, decide (flags &&& 2 ^ k ≠ 0) = true → flags &&& 2 ^ k = 2 ^ k := by
    intro k hk
    rw [decide_eq_true_eq, Nat.and_two_pow] at hk
    rw [Nat.and_two_pow]
    cases hset : flags.testBit k with
    | false =>
      rw [hset] at hk
      simp at hk
    | true => simp
  rw [Nat.and_or_distrib_left, hbit i hi, hbit j hj] at h
  exact h rfl

theorem rejected {α : Type} {c : Prop} [Decidable c] {f : Unit → Check α} {a : α} (h : (reject c >>= f) = .ok a) : ¬c ∧ f () = .ok a :=
  refused h

theorem read16 {α : Type} {f : Nat × Bool → Check α} {a : α} (h : (readU16 file offset >>= f) = .ok a) :
    f (value16 file offset, readable file offset 2) = .ok a := by
  rwa [readU16_eq, ok_bind] at h

theorem read32 {α : Type} {f : Nat × Bool → Check α} {a : α} (h : (readU32 file offset >>= f) = .ok a) :
    f (value32 file offset, readable file offset 4) = .ok a := by
  rwa [readU32_eq, ok_bind] at h

/-- What the rounds of a loop over a table have found, when it ends with `true`. -/
theorem found_of_rounds {round : Bool → Nat → Check Bool} {P : Nat → Prop}
    (hround : ∀ found i next, i < n → round found i = .ok next → next = true → found = true ∨ P i)
    (h : (List.range n).foldlM round false = .ok true) : ∃ i < n, P i := by
  refine foldlM_keeps (P := fun found => found = true → ∃ i < n, P i) (fun found i next hi hfound hnext htrue => ?_) h nofun rfl
  rcases hround found i next (List.mem_range.mp hi) hnext htrue with hbefore | hnow
  · exact hfound hbefore
  · exact ⟨i, List.mem_range.mp hi, hnow⟩

theorem avoids_read16 {α : Type} {f : Nat × Bool → Check α} (hf : Avoids Stop.outside (f (value16 file offset, readable file offset 2))) :
    Avoids Stop.outside (readU16 file offset >>= f) := by
  rwa [readU16_eq, ok_bind]

theorem avoids_read32 {α : Type} {f : Nat × Bool → Check α} (hf : Avoids Stop.outside (f (value32 file offset, readable file offset 4))) :
    Avoids Stop.outside (readU32 file offset >>= f) := by
  rwa [readU32_eq, ok_bind]

theorem avoids_reject {α : Type} {c : Prop} [Decidable c] {f : Unit → Check α} (hf : ¬c → Avoids Stop.outside (f ())) :
    Avoids Stop.outside (reject c >>= f) := avoids_check (show Stop.refused ≠ Stop.outside from nofun) hf

theorem avoids_last {c : Prop} [Decidable c] : Avoids Stop.outside (reject c) := avoids_refuse (show Stop.refused ≠ Stop.outside from nofun) c

/-! ### PE32 -/

def peHeader (file : Bytes) : Nat := value32 file 0x3c
def peOptional (file : Bytes) : Nat := (peHeader file + 24) % 2 ^ 32
def peTable (file : Bytes) : Nat := (peOptional file + value16 file (peHeader file + 20)) % 2 ^ 32
def peEntry (file : Bytes) : Nat := value32 file (peOptional file + 16)
def peImageSize (file : Bytes) : Nat := value32 file (peOptional file + 56)

def peSegment (file : Bytes) (i : Nat) : Segment where
  address := value32 file (peTable file + i * 40 + 12)
  memorySize := max (value32 file (peTable file + i * 40 + 8)) (value32 file (peTable file + i * 40 + 16))
  fileOffset := value32 file (peTable file + i * 40 + 20)
  fileSize := value32 file (peTable file + i * 40 + 16)
  writable := value32 file (peTable file + i * 40 + 36) &&& 2 ^ 31 ≠ 0
  executable := value32 file (peTable file + i * 40 + 36) &&& 2 ^ 29 ≠ 0

/-- The sections of the file. -/
def peSegments (file : Bytes) : List Segment := (List.range (value16 file (peHeader file + 6))).map (peSegment file)

theorem peSection_round {sectionAlignment fileAlignment headersSize : Nat} {found next : Bool} (loaded : List Nat)
    (h : peSection file (peTable file) (peEntry file) sectionAlignment fileAlignment (peImageSize file) headersSize found i = .ok next) :
    Round file 0 (peImageSize file) (peSegment file) loaded i ∧ (next = true → found = true ∨ (peSegment file i).Enters (peEntry file)) := by
  have hmax : ∀ a b : Nat, (if b < a then a else b) = max a b := by
    intro a b
    split <;> omega
  unfold peSection at h
  obtain ⟨-, h⟩ := rejected (read32 h)
  obtain ⟨-, h⟩ := rejected (read32 h)
  obtain ⟨-, h⟩ := rejected (read32 h)
  obtain ⟨hraw, h⟩ := rejected (read32 h)
  obtain ⟨hflags, h⟩ := rejected (read32 h)
  obtain ⟨hmapped, h⟩ := rejected h
  obtain ⟨⟨⟩, hothers, h⟩ := bind_ok h
  simp only [not_or, not_and, Bool.not_eq_false, hmax] at hraw hflags hmapped hothers h
  have hin := addFits_iff.mp hmapped.2.2
  refine ⟨⟨fun hne => addFits_iff.mp (hraw.2 hne).1, ⟨Nat.zero_le _, (Nat.zero_add _).symm ▸ hin⟩, fun j hj _ => ?_,
    exclusive_of_mask hflags.2⟩, fun htrue => ?_⟩
  · obtain ⟨_, _, hround⟩ := foldlM_rounds hothers j (List.mem_range.mpr hj)
    unfold peApart at hround
    obtain ⟨-, hround⟩ := rejected (read32 (read32 (read32 hround)))
    have hapart := refuse_ok.mp hround
    simp only [hmax] at hapart
    exact apart_of_overlap (Bool.eq_false_iff.mpr hapart)
  · obtain rfl := (Except.ok.inj h).symm
    rw [Bool.or_eq_true, Bool.and_eq_true] at htrue
    exact htrue.imp_right fun ⟨hx, hin⟩ => ⟨hx, rangeContains_iff.mp hin⟩

theorem validatePe32_placed (h : validatePe32 file = .ok ()) :
    WellPlaced file 0 (peImageSize file) (peSegments file) ∧ EntersAt (peEntry file) (peSegments file) := by
  unfold validatePe32 at h
  obtain ⟨-, h⟩ := rejected h
  obtain ⟨_, -, h⟩ := bind_ok h
  obtain ⟨-, h⟩ := rejected h
  obtain ⟨_, -, h⟩ := bind_ok h
  obtain ⟨-, h⟩ := rejected h
  obtain ⟨-, h⟩ := rejected (read32 h)
  obtain ⟨_, -, h⟩ := bind_ok h
  obtain ⟨-, h⟩ := rejected h
  obtain ⟨-, h⟩ := rejected (read16 h)
  obtain ⟨-, h⟩ := rejected (read16 h)
  obtain ⟨-, h⟩ := rejected (read16 h)
  obtain ⟨-, h⟩ := rejected (read16 h)
  obtain ⟨-, h⟩ := rejected h
  obtain ⟨-, h⟩ := rejected (read16 h)
  obtain ⟨-, h⟩ := rejected (read32 h)
  obtain ⟨-, h⟩ := rejected (read32 h)
  obtain ⟨-, h⟩ := rejected (read32 h)
  obtain ⟨-, h⟩ := rejected (read32 h)
  obtain ⟨-, h⟩ := rejected (read32 h)
  obtain ⟨-, h⟩ := rejected h
  obtain ⟨executableEntry, hrounds, h⟩ := bind_ok h
  obtain rfl : executableEntry = true := by simpa using refuse_ok.mp h
  have hrounds : (List.range (value16 file (peHeader file + 6))).foldlM (peSection file (peTable file) (peEntry file)
      (value32 file (peOptional file + 32)) (value32 file (peOptional file + 36)) (peImageSize file) (value32 file (peOptional file + 60)))
      false = .ok true := hrounds
  have hstep : ∀ found i next, i < value16 file (peHeader file + 6) → peSection file (peTable file) (peEntry file)
      (value32 file (peOptional file + 32)) (value32 file (peOptional file + 36)) (peImageSize file) (value32 file (peOptional file + 60))
      found i = .ok next → next = true → found = true ∨ (peSegment file i).Enters (peEntry file) :=
    fun found i next _ hnext => (peSection_round [] hnext).2
  refine ⟨wellPlaced_of_rounds List.pairwise_lt_range fun i hi => ?_, ?_⟩
  · obtain ⟨found, next, hround⟩ := foldlM_rounds hrounds i hi
    exact (peSection_round _ hround).1
  · obtain ⟨i, hi, henters⟩ := found_of_rounds hstep hrounds
    exact ⟨_, List.mem_map_of_mem (List.mem_range.mpr hi), henters⟩

theorem avoids_peSection {table entry sectionAlignment fileAlignment imageSize headersSize : Nat} (found : Bool) :
    Avoids Stop.outside (peSection file table entry sectionAlignment fileAlignment imageSize headersSize found i) := by
  unfold peSection
  refine avoids_read32 <| avoids_reject fun _ => avoids_read32 <| avoids_reject fun _ => avoids_read32 <| avoids_reject fun _ => ?_
  refine avoids_read32 <| avoids_reject fun _ => avoids_read32 <| avoids_reject fun _ => avoids_reject fun _ => ?_
  refine (avoids_foldlM (fun _ j _ => ?_) ()).bind fun _ _ => avoids_ok _
  unfold peApart
  exact avoids_read32 <| avoids_read32 <| avoids_read32 <| avoids_reject fun _ => avoids_last

theorem avoids_validatePe32 (file : Bytes) : Avoids Stop.outside (validatePe32 file) := by
  unfold validatePe32
  refine avoids_reject fun hsize => (avoids_byteAt (by omega)).bind fun _ _ => avoids_reject fun _ => ?_
  refine (avoids_byteAt (by omega)).bind fun _ _ => avoids_reject fun _ => avoids_read32 <| avoids_reject fun _ => ?_
  refine (avoids_bytesAt file _ _).bind fun _ _ => avoids_reject fun _ => avoids_read16 <| avoids_reject fun _ => ?_
  refine avoids_read16 <| avoids_reject fun _ => avoids_read16 <| avoids_reject fun _ => avoids_read16 <| avoids_reject fun _ => ?_
  refine avoids_reject fun _ => avoids_read16 <| avoids_reject fun _ => avoids_read32 <| avoids_reject fun _ => ?_
  refine avoids_read32 <| avoids_reject fun _ => avoids_read32 <| avoids_reject fun _ => avoids_read32 <| avoids_reject fun _ => ?_
  refine avoids_read32 <| avoids_reject fun _ => avoids_reject fun _ => ?_
  exact (avoids_foldlM (fun found i _ => avoids_peSection found) false).bind fun _ _ => avoids_last

/-! ### PS-X EXE -/

def psxEntry (file : Bytes) : Nat := value32 file 0x10

/-- The payload, which is what the header enters: the format has no flags. -/
def psxPayload (file : Bytes) : Segment where
  address := value32 file 0x18
  memorySize := value32 file 0x1c
  fileOffset := 0x800
  fileSize := value32 file 0x1c
  writable := false
  executable := true

/-- The range that is filled with zeros. -/
def psxFill (file : Bytes) : Segment where
  address := value32 file 0x28
  memorySize := value32 file 0x2c
  fileOffset := 0
  fileSize := 0
  writable := false
  executable := false

def psxSegments (file : Bytes) : List Segment := psxPayload file :: if value32 file 0x2c = 0 then [] else [psxFill file]

theorem validatePsxExe_placed (h : validatePsxExe file = .ok ()) :
    WellPlaced file psxRamBase psxRamBytes (psxSegments file) ∧ (psxPayload file).Enters (psxEntry file) := by
  unfold validatePsxExe at h
  obtain ⟨hsize, h⟩ := rejected h
  obtain ⟨_, -, h⟩ := bind_ok h
  obtain ⟨-, h⟩ := rejected h
  obtain ⟨hload, h⟩ := rejected (read32 (read32 (read32 (read32 (read32 (read32 (read32 h)))))))
  obtain ⟨hfill, -⟩ := rejected h
  simp only [not_or, not_and, Bool.not_eq_false, Bool.not_eq_true] at hload hfill
  obtain ⟨-, -, hpayload, -, hbase, hroom, hin, hentry⟩ := hload
  have hmem : ∀ g ∈ psxSegments file, g = psxPayload file ∨ value32 file 0x2c ≠ 0 ∧ g = psxFill file := by
    intro g hg
    rcases List.mem_cons.mp hg with rfl | hg
    · exact Or.inl rfl
    · by_cases hnone : value32 file 0x2c = 0
      · rw [if_pos hnone] at hg
        cases hg
      · rw [if_neg hnone] at hg
        exact Or.inr ⟨hnone, List.mem_singleton.mp hg⟩
  refine ⟨⟨fun g hg => ?_, fun g hg => ?_, ?_, fun g hg => ?_⟩, rfl, rangeContains_iff.mp hentry⟩
  · rcases hmem g hg with rfl | ⟨-, rfl⟩
    · intro _
      change 0x800 + value32 file 0x1c ≤ file.length
      omega
    · exact fun h => absurd rfl h
  · rcases hmem g hg with rfl | ⟨hsome, rfl⟩
    · change psxRamBase ≤ value32 file 0x18 ∧ value32 file 0x18 + value32 file 0x1c ≤ psxRamBase + psxRamBytes
      omega
    · have hfill := hfill hsome
      change psxRamBase ≤ value32 file 0x28 ∧ value32 file 0x28 + value32 file 0x2c ≤ psxRamBase + psxRamBytes
      omega
  · unfold psxSegments
    by_cases hnone : value32 file 0x2c = 0
    · rw [if_pos hnone]
      exact List.pairwise_singleton _ _
    · rw [if_neg hnone]
      exact List.pairwise_pair.mpr (apart_of_overlap (hfill hnone).2.2.2)
  · rcases hmem g hg with rfl | ⟨-, rfl⟩
    · exact fun h => (nomatch h.1)
    · exact fun h => (nomatch h.1)

theorem avoids_validatePsxExe (file : Bytes) : Avoids Stop.outside (validatePsxExe file) := by
  unfold validatePsxExe
  refine avoids_reject fun _ => (avoids_bytesAt file _ _).bind fun _ _ => avoids_reject fun _ => ?_
  refine avoids_read32 <| avoids_read32 <| avoids_read32 <| avoids_read32 <| avoids_read32 <| avoids_read32 <| avoids_read32 ?_
  exact avoids_reject fun _ => avoids_reject fun _ => avoids_last

/-! ### PS2 ELF -/

def ps2Entry (file : Bytes) : Nat := value32 file 24
def ps2Header (file : Bytes) (i : Nat) : Nat := value32 file 28 + i * 32

def ps2Placed (file : Bytes) (i : Nat) : Segment where
  address := value32 file (ps2Header file i + 8)
  memorySize := value32 file (ps2Header file i + 20)
  fileOffset := value32 file (ps2Header file i + 4)
  fileSize := value32 file (ps2Header file i + 16)
  writable := value32 file (ps2Header file i + 24) &&& 2 ^ 1 ≠ 0
  executable := value32 file (ps2Header file i + 24) &&& 2 ^ 0 ≠ 0

/-- The headers of type `PT_LOAD`. -/
def ps2Loaded (file : Bytes) : List Nat := (List.range (value16 file 44)).filter fun i => value32 file (ps2Header file i) = 1

def ps2Segments (file : Bytes) : List Segment := (ps2Loaded file).map (ps2Placed file)

theorem mem_ps2Loaded : i ∈ ps2Loaded file ↔ i < value16 file 44 ∧ value32 file (ps2Header file i) = 1 := by
  unfold ps2Loaded
  rw [List.mem_filter, List.mem_range, decide_eq_true_eq]

theorem readable_of_value (h : value32 file offset ≠ 0) : readable file offset 4 = true := by
  unfold value32 at h
  unfold readable
  rw [← Bool.decide_or, Bool.not_eq_true', decide_eq_false_iff_not]
  exact fun houtside => h (if_pos houtside)

theorem ps2Segment_round {found next : Bool} (h : ps2Segment file (value32 file 28) (ps2Entry file) found i = .ok next) :
    (value32 file (ps2Header file i) = 1 → Round file 0 ps2UserLimit (ps2Placed file) (ps2Loaded file) i) ∧
      (next = true → found = true ∨ value32 file (ps2Header file i) = 1 ∧ (ps2Placed file i).Enters (ps2Entry file)) := by
  unfold ps2Segment at h
  obtain ⟨-, h⟩ := rejected (read32 h)
  by_cases htype : value32 file (value32 file 28 + i * 32) = 1
  swap
  · rw [if_pos htype] at h
    exact ⟨fun hone => absurd hone htype, fun htrue => Or.inl (Except.ok.inj h ▸ htrue)⟩
  rw [if_neg (not_not.mpr htype)] at h
  obtain ⟨hchecked, h⟩ := rejected (read32 (read32 (read32 (read32 (read32 (read32 h))))))
  obtain ⟨⟨⟩, hothers, h⟩ := bind_ok h
  simp only [not_or, not_and, Bool.not_eq_false] at hchecked
  obtain ⟨-, -, -, hfile, -, himage, -, hflags, -⟩ := hchecked
  refine ⟨fun _ => ⟨fun _ => addFits_iff.mp hfile, ⟨Nat.zero_le _, (Nat.zero_add _).symm ▸ addFits_iff.mp himage⟩, fun j hj hloaded => ?_,
    exclusive_of_mask hflags⟩, fun htrue => ?_⟩
  · obtain ⟨_, _, hround⟩ := foldlM_rounds hothers j (List.mem_range.mpr hj)
    have hone := (mem_ps2Loaded.mp hloaded).2
    have hread : readable file (ps2Header file j) 4 = true := readable_of_value (by rw [hone]; exact Nat.one_ne_zero)
    unfold ps2Apart at hround
    have hkept : ¬(value32 file (ps2Header file j) ≠ 1 ∨ readable file (ps2Header file j) 4 = false) := by
      rw [hread]
      exact fun hor => hor.elim (fun hne => hne hone) (fun hfalse => nomatch hfalse)
    have hround := (if_neg hkept).symm.trans (read32 hround)
    have hapart := refuse_ok.mp (read32 (read32 hround))
    exact apart_of_overlap (Bool.eq_false_iff.mpr fun hoverlap => hapart (Or.inr hoverlap))
  · obtain rfl := (Except.ok.inj h).symm
    rw [Bool.or_eq_true, Bool.and_eq_true] at htrue
    exact htrue.imp_right fun ⟨hx, hin⟩ => ⟨htype, hx, rangeContains_iff.mp hin⟩

theorem validatePs2Elf_placed (h : validatePs2Elf file = .ok ()) :
    WellPlaced file 0 ps2UserLimit (ps2Segments file) ∧ EntersAt (ps2Entry file) (ps2Segments file) := by
  unfold validatePs2Elf at h
  obtain ⟨-, h⟩ := rejected h
  obtain ⟨_, -, h⟩ := bind_ok h
  obtain ⟨-, h⟩ := rejected (read16 h)
  obtain ⟨-, h⟩ := rejected (read16 h)
  obtain ⟨-, h⟩ := rejected (read32 h)
  obtain ⟨-, h⟩ := rejected (read16 (read16 (read16 (read32 (read32 (read32 h))))))
  obtain ⟨executableEntry, hrounds, h⟩ := bind_ok h
  obtain rfl : executableEntry = true := by simpa using refuse_ok.mp h
  have hrounds : (List.range (value16 file 44)).foldlM (ps2Segment file (value32 file 28) (ps2Entry file)) false = .ok true := hrounds
  have hstep : ∀ found i next, i < value16 file 44 → ps2Segment file (value32 file 28) (ps2Entry file) found i = .ok next → next = true →
      found = true ∨ value32 file (ps2Header file i) = 1 ∧ (ps2Placed file i).Enters (ps2Entry file) :=
    fun found i next _ hnext => (ps2Segment_round hnext).2
  refine ⟨wellPlaced_of_rounds (List.pairwise_lt_range.filter _) fun i hi => ?_, ?_⟩
  · obtain ⟨hi, hone⟩ := mem_ps2Loaded.mp hi
    obtain ⟨found, next, hround⟩ := foldlM_rounds hrounds i (List.mem_range.mpr hi)
    exact (ps2Segment_round hround).1 hone
  · obtain ⟨i, hi, hone, henters⟩ := found_of_rounds hstep hrounds
    exact ⟨_, List.mem_map_of_mem (mem_ps2Loaded.mpr ⟨hi, hone⟩), henters⟩

theorem avoids_ps2Segment {phoff entry : Nat} (found : Bool) : Avoids Stop.outside (ps2Segment file phoff entry found i) := by
  unfold ps2Segment
  refine avoids_read32 <| avoids_reject fun _ => avoids_ite (fun _ => avoids_ok _) fun _ => ?_
  refine avoids_read32 <| avoids_read32 <| avoids_read32 <| avoids_read32 <| avoids_read32 <| avoids_read32 <| avoids_reject fun _ => ?_
  refine (avoids_foldlM (fun _ j _ => ?_) ()).bind fun _ _ => avoids_ok _
  unfold ps2Apart
  exact avoids_read32 <| avoids_ite (fun _ => avoids_ok _) fun _ => avoids_read32 <| avoids_read32 avoids_last

theorem avoids_validatePs2Elf (file : Bytes) : Avoids Stop.outside (validatePs2Elf file) := by
  unfold validatePs2Elf
  refine avoids_reject fun hsize => (avoids_foldlM (fun _ i hi => ?_) ()).bind fun _ _ => ?_
  · have hi := List.mem_range.mp hi
    exact (avoids_byteAt (by omega)).bind fun _ _ => avoids_last
  · refine avoids_read16 <| avoids_reject fun _ => avoids_read16 <| avoids_reject fun _ => avoids_read32 <| avoids_reject fun _ => ?_
    refine avoids_read32 <| avoids_read32 <| avoids_read32 <| avoids_read16 <| avoids_read16 <| avoids_read16 <| avoids_reject fun _ => ?_
    exact (avoids_foldlM (fun found i _ => avoids_ps2Segment found) false).bind fun _ _ => avoids_last

/-! ### XBE -/

def xbeBase (file : Bytes) : Nat := value32 file 0x104
def xbeImageSize (file : Bytes) : Nat := value32 file 0x10c
def xbeHeader (file : Bytes) (i : Nat) : Nat := value32 file 0x120 - xbeBase file + i * 56

def xbePlaced (file : Bytes) (i : Nat) : Segment where
  address := value32 file (xbeHeader file i + 4)
  memorySize := value32 file (xbeHeader file i + 8)
  fileOffset := value32 file (xbeHeader file i + 12)
  fileSize := value32 file (xbeHeader file i + 16)
  writable := value32 file (xbeHeader file i) &&& 2 ^ 0 ≠ 0
  executable := value32 file (xbeHeader file i) &&& 2 ^ 2 ≠ 0

/-- The sections of the file. -/
def xbeSegments (file : Bytes) : List Segment := (List.range (value32 file 0x11c)).map (xbePlaced file)

theorem xbeSection_round {headersSize : Nat} (loaded : List Nat)
    (h : xbeSection file (xbeBase file) (value32 file 0x120 - xbeBase file) headersSize (xbeImageSize file) i = .ok ()) :
    Round file (xbeBase file) (xbeImageSize file) (xbePlaced file) loaded i := by
  unfold xbeSection at h
  obtain ⟨hchecked, hothers⟩ := rejected (read32 (read32 (read32 (read32 (read32 h)))))
  simp only [not_or, not_and, Bool.not_eq_false] at hchecked
  obtain ⟨-, -, hbase, himage, hraw, hflags⟩ := hchecked
  refine ⟨fun hne => addFits_iff.mp (hraw hne).1, ?_, fun j hj _ => ?_, exclusive_of_mask hflags⟩
  · have himage := addFits_iff.mp himage
    change xbeBase file ≤ value32 file (xbeHeader file i + 4) ∧
      value32 file (xbeHeader file i + 4) + value32 file (xbeHeader file i + 8) ≤ xbeBase file + xbeImageSize file
    unfold xbeHeader
    omega
  · obtain ⟨_, _, hround⟩ := foldlM_rounds hothers j (List.mem_range.mpr hj)
    unfold xbeApart at hround
    have hapart := refuse_ok.mp (read32 (read32 hround))
    exact apart_of_overlap (Bool.eq_false_iff.mpr fun hoverlap => hapart (Or.inr hoverlap))

theorem validateXbe_placed (h : validateXbe file = .ok ()) : WellPlaced file (xbeBase file) (xbeImageSize file) (xbeSegments file) := by
  unfold validateXbe at h
  obtain ⟨-, h⟩ := rejected h
  obtain ⟨_, -, h⟩ := bind_ok h
  obtain ⟨-, h⟩ := rejected h
  obtain ⟨-, h⟩ := rejected (read32 (read32 (read32 (read32 (read32 (read32 (read32 h)))))))
  obtain ⟨-, h⟩ := rejected h
  refine wellPlaced_of_rounds List.pairwise_lt_range fun i hi => ?_
  obtain ⟨⟨⟩, ⟨⟩, hround⟩ := foldlM_rounds h i hi
  exact xbeSection_round _ hround

theorem avoids_validateXbe (file : Bytes) : Avoids Stop.outside (validateXbe file) := by
  unfold validateXbe
  refine avoids_reject fun _ => (avoids_bytesAt file _ _).bind fun _ _ => avoids_reject fun _ => ?_
  refine avoids_read32 <| avoids_read32 <| avoids_read32 <| avoids_read32 <| avoids_read32 <| avoids_read32 <| avoids_read32 ?_
  refine avoids_reject fun _ => avoids_reject fun _ => avoids_foldlM (fun _ i _ => ?_) ()
  unfold xbeSection
  refine avoids_read32 <| avoids_read32 <| avoids_read32 <| avoids_read32 <| avoids_read32 <| avoids_reject fun _ => ?_
  refine avoids_foldlM (fun _ j _ => ?_) ()
  unfold xbeApart
  exact avoids_read32 <| avoids_read32 avoids_last

/-- What the validators accept is well placed, and they read in the file alone. -/
theorem validators_safe (file : Bytes) :
    (validatePe32 file = .ok () → WellPlaced file 0 (peImageSize file) (peSegments file) ∧ EntersAt (peEntry file) (peSegments file)) ∧
    (validatePsxExe file = .ok () →
      WellPlaced file psxRamBase psxRamBytes (psxSegments file) ∧ (psxPayload file).Enters (psxEntry file)) ∧
    (validatePs2Elf file = .ok () → WellPlaced file 0 ps2UserLimit (ps2Segments file) ∧ EntersAt (ps2Entry file) (ps2Segments file)) ∧
    (validateXbe file = .ok () → WellPlaced file (xbeBase file) (xbeImageSize file) (xbeSegments file)) ∧
    Avoids Stop.outside (validatePe32 file) ∧ Avoids Stop.outside (validatePsxExe file) ∧ Avoids Stop.outside (validatePs2Elf file) ∧
    Avoids Stop.outside (validateXbe file) :=
  ⟨validatePe32_placed, validatePsxExe_placed, validatePs2Elf_placed, validateXbe_placed, avoids_validatePe32 file,
    avoids_validatePsxExe file, avoids_validatePs2Elf file, avoids_validateXbe file⟩

end ZenovOS.Package.Compatibility
