import ZenovOS.Lib.Refuse
import ZenovOS.Package.Compatibility

/-! # The validators of foreign programs

`validate_pe32`, `validate_psx_exe`, `validate_ps2_elf` and `validate_xbe` of `package_compatibility_preflight.inc`. A read
outside the file is an outcome of its own, and so is a `return false`. Offsets are of 32 bits; `size` is the length of the
file. -/

namespace ZenovOS.Package.Compatibility
open Bytes

abbrev peMaxImageBytes : Nat := 512 * 1024 * 1024
abbrev psxRamBase : Nat := 0x80000000
abbrev psxRamBytes : Nat := 2 * 1024 * 1024
abbrev ps2UserLimit : Nat := 32 * 1024 * 1024
abbrev xbeMaxImageBytes : Nat := 256 * 1024 * 1024

/-- How a validation stops: a read outside the file, or `return false`. -/
inductive Stop
  | outside
  | refused
  deriving DecidableEq

abbrev Check : Type → Type := Except Stop

/-- `if (condition) return false;` -/
def reject (condition : Prop) [Decidable condition] : Check Unit := refuse condition .refused

def byteAt (file : Bytes) (i : Nat) : Check UInt8 :=
  match file[i]? with
  | some b => .ok b
  | none => .error .outside

def bytesAt (file : Bytes) (offset : Nat) (expected : Bytes) : Check Bool :=
  if file.length < offset ∨ file.length - offset < expected.length then .ok false
  else do
    let difference ← (List.range expected.length).foldlM (fun difference i => do
      let b ← byteAt file (offset + i)
      pure (difference ||| (b ^^^ expected.getD i 0))) (0 : UInt8)
    pure (difference = 0)

/-- `u16_le_at`: the value, and whether it is valid. -/
def readU16 (file : Bytes) (offset : Nat) : Check (Nat × Bool) :=
  let offset := offset % 2 ^ 32
  if file.length < offset ∨ file.length - offset < 2 then .ok (0, false)
  else do
    let b₀ ← byteAt file offset
    let b₁ ← byteAt file (offset + 1)
    pure (b₀.toNat + b₁.toNat * 2 ^ 8, true)

def readU32 (file : Bytes) (offset : Nat) : Check (Nat × Bool) :=
  let offset := offset % 2 ^ 32
  if file.length < offset ∨ file.length - offset < 4 then .ok (0, false)
  else do
    let b₀ ← byteAt file offset
    let b₁ ← byteAt file (offset + 1)
    let b₂ ← byteAt file (offset + 2)
    let b₃ ← byteAt file (offset + 3)
    pure (b₀.toNat + b₁.toNat * 2 ^ 8 + b₂.toNat * 2 ^ 16 + b₃.toNat * 2 ^ 24, true)

def addFits (left right limit : Nat) : Bool := left ≤ limit && right ≤ limit - left

def rangeContains (base span value : Nat) : Bool := span ≠ 0 && base ≤ value && value - base < span

def rangesOverlap (left leftSize right rightSize : Nat) : Bool :=
  leftSize = 0 || rightSize = 0 || 0xFFFFFFFF - leftSize < left || 0xFFFFFFFF - rightSize < right ||
    (left < right + rightSize && right < left + leftSize)

/-! ### PE32 -/

/-- A round of the inner loop over the sections. -/
def peApart (file : Bytes) (table virtualAddress mappedSize j : Nat) : Check Unit := do
  let other := table + j * 40
  let (otherVirtualSize, _) ← readU32 file (other + 8)
  let (otherAddress, _) ← readU32 file (other + 12)
  let (otherRawSize, valid) ← readU32 file (other + 16)
  reject (valid = false)
  let otherSize := if otherRawSize < otherVirtualSize then otherVirtualSize else otherRawSize
  reject (rangesOverlap virtualAddress mappedSize otherAddress otherSize)

/-- A round of the loop over the sections, which keeps `executable_entry`. -/
def peSection (file : Bytes) (table entry sectionAlignment fileAlignment imageSize headersSize : Nat) (executableEntry : Bool) (i : Nat) :
    Check Bool := do
  let at_ := table + i * 40
  let (virtualSize, valid) ← readU32 file (at_ + 8)
  reject (valid = false)
  let (virtualAddress, valid) ← readU32 file (at_ + 12)
  reject (valid = false)
  let (rawSize, valid) ← readU32 file (at_ + 16)
  reject (valid = false)
  let (rawOffset, valid) ← readU32 file (at_ + 20)
  reject (valid = false ∨ rawSize ≠ 0 ∧ (addFits rawOffset rawSize file.length = false ∨ rawOffset < headersSize ∨
    rawOffset % fileAlignment ≠ 0 ∨ rawSize % fileAlignment ≠ 0))
  let (flags, valid) ← readU32 file (at_ + 36)
  reject (valid = false ∨ flags &&& 0xA0000000 = 0xA0000000)
  let mappedSize := if rawSize < virtualSize then virtualSize else rawSize
  reject (mappedSize = 0 ∨ virtualAddress % sectionAlignment ≠ 0 ∨ addFits virtualAddress mappedSize imageSize = false)
  (List.range i).foldlM (fun _ j => peApart file table virtualAddress mappedSize j) ()
  pure (executableEntry || flags &&& 0x20000000 ≠ 0 && rangeContains virtualAddress mappedSize entry)

def validatePe32 (file : Bytes) : Check Unit := do
  reject (file.length < 0x138)
  let m ← byteAt file 0
  reject (m ≠ 77)
  let z ← byteAt file 1
  reject (z ≠ 90)
  let (pe, valid) ← readU32 file 0x3c
  reject (valid = false ∨ pe < 0x40)
  let signed ← bytesAt file pe [80, 69, 0, 0]
  reject (signed = false ∨ addFits pe 24 file.length = false)
  let (machine, valid) ← readU16 file (pe + 4)
  reject (valid = false ∨ machine ≠ 0x014c)
  let (sections, valid) ← readU16 file (pe + 6)
  reject (valid = false ∨ sections = 0 ∨ 96 < sections)
  let (optionalSize, valid) ← readU16 file (pe + 20)
  reject (valid = false ∨ optionalSize < 96)
  let (characteristics, valid) ← readU16 file (pe + 22)
  reject (valid = false ∨ characteristics &&& 0x0002 = 0 ∨ characteristics &&& 0x2000 ≠ 0)
  let optional := (pe + 24) % 2 ^ 32
  reject (addFits optional optionalSize file.length = false)
  let (magic, valid) ← readU16 file optional
  reject (valid = false ∨ magic ≠ 0x010b)
  let (entry, valid) ← readU32 file (optional + 16)
  reject (valid = false ∨ entry = 0)
  let (sectionAlignment, valid) ← readU32 file (optional + 32)
  reject (valid = false ∨ sectionAlignment = 0 ∨ sectionAlignment &&& (sectionAlignment - 1) ≠ 0)
  let (fileAlignment, valid) ← readU32 file (optional + 36)
  reject (valid = false ∨ fileAlignment < 512 ∨ 65536 < fileAlignment ∨ fileAlignment &&& (fileAlignment - 1) ≠ 0 ∨
    sectionAlignment < fileAlignment)
  let (imageSize, valid) ← readU32 file (optional + 56)
  reject (valid = false ∨ imageSize = 0 ∨ peMaxImageBytes < imageSize ∨ imageSize % sectionAlignment ≠ 0)
  let (headersSize, valid) ← readU32 file (optional + 60)
  reject (valid = false ∨ headersSize = 0 ∨ file.length < headersSize ∨ headersSize % fileAlignment ≠ 0)
  let table := (optional + optionalSize) % 2 ^ 32
  reject (addFits table (sections * 40) file.length = false ∨ headersSize < (table + sections * 40) % 2 ^ 32)
  let executableEntry ← (List.range sections).foldlM
    (peSection file table entry sectionAlignment fileAlignment imageSize headersSize) false
  reject (executableEntry = false)

/-! ### PS-X EXE -/

def validatePsxExe (file : Bytes) : Check Unit := do
  reject (file.length < 0x800)
  let magic ← bytesAt file 0 (ascii "PS-X EXE")
  reject (magic = false)
  let (entry, _) ← readU32 file 0x10
  let (load, _) ← readU32 file 0x18
  let (payload, _) ← readU32 file 0x1c
  let (fillStart, _) ← readU32 file 0x28
  let (fillSize, _) ← readU32 file 0x2c
  let (stackBase, _) ← readU32 file 0x30
  let (stackOffset, valid) ← readU32 file 0x34
  reject (valid = false ∨ payload = 0 ∨ file.length - 0x800 < payload ∨ payload &&& 3 ≠ 0 ∨ load < psxRamBase ∨
    psxRamBytes ≤ load - psxRamBase ∨ psxRamBytes - (load - psxRamBase) < payload ∨ rangeContains load payload entry = false)
  reject (fillSize ≠ 0 ∧ (fillStart < psxRamBase ∨ psxRamBytes ≤ fillStart - psxRamBase ∨
    psxRamBytes - (fillStart - psxRamBase) < fillSize ∨ rangesOverlap load payload fillStart fillSize))
  reject ((stackBase ≠ 0 ∨ stackOffset ≠ 0) ∧ (stackBase < psxRamBase ∨ psxRamBytes ≤ stackBase - psxRamBase ∨
    psxRamBytes - (stackBase - psxRamBase) < stackOffset))

/-! ### PS2 ELF -/

/-- A round of the inner loop over the program headers. -/
def ps2Apart (file : Bytes) (phoff address memorySize j : Nat) : Check Unit := do
  let other := phoff + j * 32
  let (type, valid) ← readU32 file other
  if type ≠ 1 ∨ valid = false then pure ()
  else do
    let (otherAddress, _) ← readU32 file (other + 8)
    let (otherSize, valid) ← readU32 file (other + 20)
    reject (valid = false ∨ rangesOverlap address memorySize otherAddress otherSize)

/-- A round of the loop over the program headers, which keeps `executable_entry`. -/
def ps2Segment (file : Bytes) (phoff entry : Nat) (executableEntry : Bool) (i : Nat) : Check Bool := do
  let at_ := phoff + i * 32
  let (type, valid) ← readU32 file at_
  reject (valid = false ∨ type = 2 ∨ type = 3)
  if type ≠ 1 then pure executableEntry
  else do
    let (offset, _) ← readU32 file (at_ + 4)
    let (address, _) ← readU32 file (at_ + 8)
    let (fileSize, _) ← readU32 file (at_ + 16)
    let (memorySize, _) ← readU32 file (at_ + 20)
    let (segmentFlags, _) ← readU32 file (at_ + 24)
    let (alignment, valid) ← readU32 file (at_ + 28)
    reject (valid = false ∨ memorySize = 0 ∨ memorySize < fileSize ∨ addFits offset fileSize file.length = false ∨ address < 0x00010000 ∨
      addFits address memorySize ps2UserLimit = false ∨ 8 ≤ segmentFlags ∨ segmentFlags &&& 3 = 3 ∨
      1 < alignment ∧ (alignment &&& (alignment - 1) ≠ 0 ∨ address &&& (alignment - 1) ≠ offset &&& (alignment - 1)))
    (List.range i).foldlM (fun _ j => ps2Apart file phoff address memorySize j) ()
    pure (executableEntry || segmentFlags &&& 1 ≠ 0 && rangeContains address memorySize entry)

def validatePs2Elf (file : Bytes) : Check Unit := do
  reject (file.length < 52)
  let _ ← (List.range 7).foldlM (fun _ i => do
    let b ← byteAt file i
    reject (b ≠ [0x7F, 69, 76, 70, 1, 1, 1].getD i 0)) ()
  let (type, valid) ← readU16 file 16
  reject (type ≠ 2 ∨ valid = false)
  let (machine, valid) ← readU16 file 18
  reject (machine ≠ 8 ∨ valid = false)
  let (version, valid) ← readU32 file 20
  reject (version ≠ 1 ∨ valid = false)
  let (entry, _) ← readU32 file 24
  let (phoff, _) ← readU32 file 28
  let (flags, _) ← readU32 file 36
  let (headerSize, _) ← readU16 file 40
  let (phsize, _) ← readU16 file 42
  let (phcount, valid) ← readU16 file 44
  reject (valid = false ∨ headerSize ≠ 52 ∨ phsize ≠ 32 ∨ phcount = 0 ∨ 64 < phcount ∨ flags &&& 0xf0000000 ≠ 0x20000000 ∨
    flags &&& 0x00ff0000 ≠ 0x00920000 ∨ addFits phoff (phcount * 32) file.length = false)
  let executableEntry ← (List.range phcount).foldlM (ps2Segment file phoff entry) false
  reject (executableEntry = false)

/-! ### XBE -/

/-- A round of the inner loop over the sections. -/
def xbeApart (file : Bytes) (table virtualAddress virtualSize j : Nat) : Check Unit := do
  let other := table + j * 56
  let (otherAddress, _) ← readU32 file (other + 4)
  let (otherSize, valid) ← readU32 file (other + 8)
  reject (valid = false ∨ rangesOverlap virtualAddress virtualSize otherAddress otherSize)

/-- A round of the loop over the sections. -/
def xbeSection (file : Bytes) (base table headersSize imageSize i : Nat) : Check Unit := do
  let at_ := table + i * 56
  let (sectionFlags, _) ← readU32 file at_
  let (virtualAddress, _) ← readU32 file (at_ + 4)
  let (virtualSize, _) ← readU32 file (at_ + 8)
  let (rawAddress, _) ← readU32 file (at_ + 12)
  let (rawSize, valid) ← readU32 file (at_ + 16)
  reject (valid = false ∨ virtualSize = 0 ∨ virtualAddress < base ∨ addFits (virtualAddress - base) virtualSize imageSize = false ∨
    rawSize ≠ 0 ∧ (addFits rawAddress rawSize file.length = false ∨ rawAddress < headersSize) ∨ sectionFlags &&& 5 = 5)
  (List.range i).foldlM (fun _ j => xbeApart file table virtualAddress virtualSize j) ()

def validateXbe (file : Bytes) : Check Unit := do
  reject (file.length < 0x178)
  let magic ← bytesAt file 0 (ascii "XBEH")
  reject (magic = false)
  let (base, _) ← readU32 file 0x104
  let (headersSize, _) ← readU32 file 0x108
  let (imageSize, _) ← readU32 file 0x10c
  let (imageHeaderSize, _) ← readU32 file 0x110
  let (certificate, _) ← readU32 file 0x118
  let (sections, _) ← readU32 file 0x11c
  let (sectionTableAddress, valid) ← readU32 file 0x120
  reject (valid = false ∨ base < 0x00010000 ∨ 0x7fff0000 < base ∨ headersSize < 0x178 ∨ file.length < headersSize ∨
    imageHeaderSize < 0x178 ∨ headersSize < imageHeaderSize ∨ imageSize < headersSize ∨ xbeMaxImageBytes < imageSize ∨ sections = 0 ∨
    64 < sections ∨ certificate < base ∨ headersSize ≤ certificate - base ∨ sectionTableAddress < base ∨
    headersSize ≤ sectionTableAddress - base)
  let table := sectionTableAddress - base
  reject (addFits table (sections * 56) headersSize = false)
  (List.range sections).foldlM (fun _ i => xbeSection file base table headersSize imageSize i) ()

/-- What `check` calls, with these validators. -/
def detectors (classify : Bytes → Bytes → Format) : Detectors where
  classify := classify
  validatePe32 file := validatePe32 file = .ok ()
  validatePsxExe file := validatePsxExe file = .ok ()
  validatePs2Elf file := validatePs2Elf file = .ok ()
  validateXbe file := validateXbe file = .ok ()

end ZenovOS.Package.Compatibility
