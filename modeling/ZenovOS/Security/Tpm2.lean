import ZenovOS.Lib.Limbs

/-! # Responses of a trusted platform module

`tpm2_protocol.inc`: the reader, the header of a response, the public area of the counter's index and the value of the counter.
`tpm2_tis.inc`: `parse_counter_public_runtime`, over the buffer that responses are received in. `none` is an access outside the bytes
that are available. -/

namespace ZenovOS.Security.Tpm2
open Bytes

def stNoSessions : Nat := 0x8001
def stSessions : Nat := 0x8002
def algSha256 : Nat := 0x000B
def rcSuccess : Nat := 0x00000000
def nvIndex : Nat := 0x015A4F53
def nvAttributes : Nat := 0x02060016
def nvDataBytes : Nat := 8
def commandHeaderBytes : Nat := 10
def maxResponseBytes : Nat := 4096
def nvWrittenAttribute : Nat := 0x20000000

/-- Only `data` may be read. The flag `okay` of the source turns false with a read that fails, and its callers all return there: a
read gets what they return, and what they do with the value. -/
structure Reader where
  data : Bytes
  size : Nat
  offset : Nat

namespace Reader
variable {β : Type}

def getU8 (reader : Reader) (failed : Option β) (next : UInt8 → Reader → Option β) : Option β :=
  if reader.offset ≥ reader.size then failed
  else do
    let value ← reader.data[reader.offset]?
    next value { reader with offset := reader.offset + 1 }

def getU16 (reader : Reader) (failed : Option β) (next : Nat → Reader → Option β) : Option β :=
  reader.getU8 failed fun high reader =>
  reader.getU8 failed fun low reader =>
  next (high.toNat <<< 8 ||| low.toNat) reader

def getU32 (reader : Reader) (failed : Option β) (next : Nat → Reader → Option β) : Option β :=
  reader.getU8 failed fun a reader =>
  reader.getU8 failed fun b reader =>
  reader.getU8 failed fun c reader =>
  reader.getU8 failed fun d reader =>
  next (a.toNat <<< 24 ||| b.toNat <<< 16 ||| c.toNat <<< 8 ||| d.toNat) reader

def getU64 (reader : Reader) (failed : Option β) (next : Nat → Reader → Option β) : Option β :=
  reader.getU32 failed fun high reader =>
  reader.getU32 failed fun low reader =>
  next (high <<< 32 ||| low) reader

def skip (reader : Reader) (count : Nat) (failed : Option β) (next : Reader → Option β) : Option β :=
  if count > reader.size - reader.offset then failed else next { reader with offset := reader.offset + count }

end Reader

structure ResponseHeader where
  tag : Nat
  size : Nat
  code : Nat

structure CounterPublic where
  index : Nat := 0
  nameAlgorithm : Nat := 0
  attributes : Nat := 0
  dataSize : Nat := 0
  deriving DecidableEq, Repr

inductive PublicValidation where
  | okay
  | malformed
  | responseError
  | wrongIndex
  | wrongAlgorithm
  | wrongAttributes
  | policyPresent
  | wrongDataSize
  deriving DecidableEq, Repr

/-- The callers look at the header only where it is accepted. -/
def parseResponseHeader (response : Bytes) (available : Nat) : Option (Option ResponseHeader) :=
  if available < commandHeaderBytes ∨ available > maxResponseBytes then some none
  else
    (Reader.mk response available 0).getU16 (some none) fun tag reader =>
    reader.getU32 (some none) fun size reader =>
    reader.getU32 (some none) fun code _ =>
    if (tag ≠ stNoSessions ∧ tag ≠ stSessions) ∨ size < commandHeaderBytes ∨ size > available ∨ size > maxResponseBytes then some none
    else some (some ⟨tag, size, code⟩)

/-- The checks against the template. -/
def judgePublic (output : CounterPublic) (policySize : Nat) : PublicValidation :=
  if output.index ≠ nvIndex then .wrongIndex
  else if output.nameAlgorithm ≠ algSha256 then .wrongAlgorithm
  else if output.attributes ≠ nvAttributes then .wrongAttributes
  else if policySize ≠ 0 then .policyPresent
  else if output.dataSize ≠ nvDataBytes then .wrongDataSize
  else .okay

def parseCounterPublic (response : Bytes) (available : Nat) : Option (PublicValidation × CounterPublic × Nat) := do
  match ← parseResponseHeader response available with
  | none => some (.malformed, {}, 0xFFFFFFFF)
  | some header =>
    let malformed (output : CounterPublic) : Option (PublicValidation × CounterPublic × Nat) := some (.malformed, output, header.code)
    if header.code ≠ rcSuccess then some (.responseError, {}, header.code)
    else if header.tag ≠ stNoSessions then malformed {}
    else
      (Reader.mk response header.size 0).skip commandHeaderBytes (malformed {}) fun reader =>
      reader.getU16 (malformed {}) fun publicSize reader =>
      if publicSize < 14 ∨ publicSize > reader.size - reader.offset then malformed {}
      else
        let publicEnd := reader.offset + publicSize
        reader.getU32 (malformed {}) fun index reader =>
        reader.getU16 (malformed { index }) fun nameAlgorithm reader =>
        reader.getU32 (malformed { index, nameAlgorithm }) fun attributes reader =>
        reader.getU16 (malformed { index, nameAlgorithm, attributes }) fun policySize reader =>
        if policySize > publicEnd - reader.offset then malformed { index, nameAlgorithm, attributes }
        else
          reader.skip policySize (malformed { index, nameAlgorithm, attributes }) fun reader =>
          reader.getU16 (malformed { index, nameAlgorithm, attributes }) fun dataSize reader =>
          let output : CounterPublic := { index, nameAlgorithm, attributes, dataSize }
          if reader.offset ≠ publicEnd then malformed output
          else
            reader.getU16 (malformed output) fun nameSize reader =>
            if nameSize > reader.size - reader.offset then malformed output
            else
              reader.skip nameSize (malformed output) fun reader =>
              if reader.offset ≠ header.size then malformed output
              else some (judgePublic output policySize, output, header.code)

def parseCounterValue (response : Bytes) (available : Nat) : Option (Bool × Nat × Nat) := do
  match ← parseResponseHeader response available with
  | none => some (false, 0, 0xFFFFFFFF)
  | some header =>
    let refused : Option (Bool × Nat × Nat) := some (false, 0, header.code)
    if header.code ≠ rcSuccess ∨ header.tag ≠ stSessions then refused
    else
      (Reader.mk response header.size 0).skip commandHeaderBytes refused fun reader =>
      reader.getU32 refused fun parameterSize reader =>
      if parameterSize ≠ 2 + nvDataBytes ∨ parameterSize > reader.size - reader.offset then refused
      else
        reader.getU16 refused fun dataSize reader =>
        if dataSize ≠ nvDataBytes then refused
        else
          reader.getU64 refused fun counter reader =>
          let parameterEnd := commandHeaderBytes + 4 + parameterSize
          if reader.offset ≠ parameterEnd ∨ parameterEnd > header.size then some (false, counter, header.code)
          else some (true, counter, header.code)

/-- A store to the response buffer. -/
def store (buffer : Bytes) (i : Nat) (value : UInt8) : Option Bytes := if i < buffer.length then some (buffer.set i value) else none

/-- Behind the first `responseSize` bytes the buffer has what is left of earlier responses. -/
def parseCounterPublicRuntime (responseBuffer : Bytes) (responseSize : Nat) :
    Option (PublicValidation × CounterPublic × Nat × Bytes) := do
  let (validation, publicArea, responseCode) ← parseCounterPublic (responseBuffer.take responseSize) responseSize
  if validation ≠ .wrongAttributes ∨ responseSize < 22 ∨ publicArea.attributes ≠ nvAttributes ||| nvWrittenAttribute then
    return (validation, publicArea, responseCode, responseBuffer)
  let saved0 ← (responseBuffer.take responseSize)[18]?
  let saved1 ← (responseBuffer.take responseSize)[19]?
  let saved2 ← (responseBuffer.take responseSize)[20]?
  let saved3 ← (responseBuffer.take responseSize)[21]?
  let responseBuffer ← store responseBuffer 18 (UInt8.ofNat (nvAttributes >>> 24))
  let responseBuffer ← store responseBuffer 19 (UInt8.ofNat (nvAttributes >>> 16))
  let responseBuffer ← store responseBuffer 20 (UInt8.ofNat (nvAttributes >>> 8))
  let responseBuffer ← store responseBuffer 21 (UInt8.ofNat nvAttributes)
  let (validation, publicArea, responseCode) ← parseCounterPublic (responseBuffer.take responseSize) responseSize
  let responseBuffer ← store responseBuffer 18 saved0
  let responseBuffer ← store responseBuffer 19 saved1
  let responseBuffer ← store responseBuffer 20 saved2
  let responseBuffer ← store responseBuffer 21 saved3
  return (validation,
    if validation = .okay then { publicArea with attributes := nvAttributes ||| nvWrittenAttribute } else publicArea,
    responseCode, responseBuffer)

end ZenovOS.Security.Tpm2
