import ZenovOS.Lib.Decimal
import ZenovOS.Tools.Zenuniverse.Descriptor

/-! # SHA-256 of the package universe

`Sha256` and `sha256` of `common.hpp` of `zenuniverse`. Sums are taken in 64 bits and cut to 32, and the digest is
written in hexadecimal. -/

namespace ZenovOS.Zenuniverse
open Bytes Security

/-- `Sha256`: of the buffer the first `used` bytes wait to be hashed. -/
structure Sha256 where
  state : ShaState
  buffer : Bytes
  bytes : Nat
  used : Nat

def Sha256.rotr (x n : UInt32) : UInt32 := (x >>> n) ||| (x <<< (32 - n))

def Sha256.add32 (value : UInt64) : UInt32 := (value &&& 0xFFFFFFFF).toUInt32

/-- The constants of `block`. -/
def Sha256.k : List UInt32 :=
  [0x428a2f98, 0x71374491, 0xb5c0fbcf, 0xe9b5dba5, 0x3956c25b, 0x59f111f1, 0x923f82a4, 0xab1c5ed5,
   0xd807aa98, 0x12835b01, 0x243185be, 0x550c7dc3, 0x72be5d74, 0x80deb1fe, 0x9bdc06a7, 0xc19bf174,
   0xe49b69c1, 0xefbe4786, 0x0fc19dc6, 0x240ca1cc, 0x2de92c6f, 0x4a7484aa, 0x5cb0a9dc, 0x76f988da,
   0x983e5152, 0xa831c66d, 0xb00327c8, 0xbf597fc7, 0xc6e00bf3, 0xd5a79147, 0x06ca6351, 0x14292967,
   0x27b70a85, 0x2e1b2138, 0x4d2c6dfc, 0x53380d13, 0x650a7354, 0x766a0abb, 0x81c2c92e, 0x92722c85,
   0xa2bfe8a1, 0xa81a664b, 0xc24b8b70, 0xc76c51a3, 0xd192e819, 0xd6990624, 0xf40e3585, 0x106aa070,
   0x19a4c116, 0x1e376c08, 0x2748774c, 0x34b0bcb5, 0x391c0cb3, 0x4ed8aa4a, 0x5b9cca4f, 0x682e6ff3,
   0x748f82ee, 0x78a5636f, 0x84c87814, 0x8cc70208, 0x90befffa, 0xa4506ceb, 0xbef9a3f7, 0xc67178f2]

/-- The first loop of `block`. -/
def Sha256.word (p : Bytes) (i : Nat) : UInt32 :=
  ((p.getD (i * 4) 0).toUInt32 <<< 24) ||| ((p.getD (i * 4 + 1) 0).toUInt32 <<< 16) |||
    ((p.getD (i * 4 + 2) 0).toUInt32 <<< 8) ||| (p.getD (i * 4 + 3) 0).toUInt32

/-- The second loop of `block`. -/
def Sha256.schedule : Nat → List UInt32 → List UInt32
  | 0, w => w
  | left + 1, w =>
    let i := w.length
    let w15 := w.getD (i - 15) 0
    let w2 := w.getD (i - 2) 0
    let s0 := rotr w15 7 ^^^ rotr w15 18 ^^^ (w15 >>> 3)
    let s1 := rotr w2 17 ^^^ rotr w2 19 ^^^ (w2 >>> 10)
    schedule left (w ++ [add32 ((w.getD (i - 16) 0).toUInt64 + s0.toUInt64 + (w.getD (i - 7) 0).toUInt64 + s1.toUInt64)])

/-- A round of the third loop. -/
def Sha256.round (s : ShaState) (constant w : UInt32) : ShaState :=
  let s1 := rotr s.e 6 ^^^ rotr s.e 11 ^^^ rotr s.e 25
  let ch := (s.e &&& s.f) ^^^ (~~~s.e &&& s.g)
  let t1 := add32 (s.h.toUInt64 + s1.toUInt64 + ch.toUInt64 + constant.toUInt64 + w.toUInt64)
  let s0 := rotr s.a 2 ^^^ rotr s.a 13 ^^^ rotr s.a 22
  let maj := (s.a &&& s.b) ^^^ (s.a &&& s.c) ^^^ (s.b &&& s.c)
  let t2 := add32 (s0.toUInt64 + maj.toUInt64)
  { h := s.g, g := s.f, f := s.e, e := add32 (s.d.toUInt64 + t1.toUInt64), d := s.c, c := s.b, b := s.a,
    a := add32 (t1.toUInt64 + t2.toUInt64) }

def Sha256.block (state : ShaState) (p : Bytes) : ShaState :=
  let w := schedule 48 ((List.range 16).map (word p))
  let s := (List.range 64).foldl (fun s i => round s (k.getD i 0) (w.getD i 0)) state
  ⟨add32 (state.a.toUInt64 + s.a.toUInt64), add32 (state.b.toUInt64 + s.b.toUInt64), add32 (state.c.toUInt64 + s.c.toUInt64),
    add32 (state.d.toUInt64 + s.d.toUInt64), add32 (state.e.toUInt64 + s.e.toUInt64), add32 (state.f.toUInt64 + s.f.toUInt64),
    add32 (state.g.toUInt64 + s.g.toUInt64), add32 (state.h.toUInt64 + s.h.toUInt64)⟩

def Sha256.initial : Sha256 :=
  ⟨⟨0x6a09e667, 0xbb67ae85, 0x3c6ef372, 0xa54ff53a, 0x510e527f, 0x9b05688c, 0x1f83d9ab, 0x5be0cd19⟩, List.replicate 64 0, 0, 0⟩

/-- `buffer[used++] = c`. -/
def Sha256.put (h : Sha256) (c : UInt8) : Sha256 := { h with buffer := h.buffer.set h.used c, used := h.used + 1 }

/-- `block(buffer.data()); used = 0`. -/
def Sha256.flush (h : Sha256) : Sha256 := { h with state := block h.state h.buffer, used := 0 }

/-- A byte of `update`. -/
def Sha256.byte (h : Sha256) (c : UInt8) : Sha256 :=
  let h := h.put c
  if h.used = 64 then h.flush else h

def Sha256.update (h : Sha256) (data : Bytes) : Except Bytes Sha256 := do
  refuse (2 ^ 64 - 1 - h.bytes < data.length) (ascii "SHA-256 input length overflow")
  pure (data.foldl byte { h with bytes := h.bytes + data.length })

/-- `while (used < stop) buffer[used++] = 0`, in `left` steps at most. -/
def Sha256.zeros (stop : Nat) : Nat → Sha256 → Sha256
  | 0, h => h
  | left + 1, h => if h.used < stop then zeros stop left (h.put 0) else h

def Sha256.hex : Bytes := ascii "0123456789abcdef"

/-- The eight digits of a word of the state. -/
def Sha256.hexWord (v : UInt32) : Bytes :=
  ([24, 16, 8, 0] : List UInt32).flatMap fun shift =>
    let b := (v >>> shift).toUInt8
    [hex.getD (b >>> 4).toNat 0, hex.getD (b &&& 15).toNat 0]

def Sha256.finish (h : Sha256) : Except Bytes Bytes := do
  refuse ((2 ^ 64 - 1) / 8 < h.bytes) (ascii "SHA-256 bit length overflow")
  let bits := h.bytes * 8
  let h := h.put 0x80
  let h := if 56 < h.used then (h.zeros 64 64).flush else h
  let h := h.zeros 56 64
  let h := (List.range 8).foldl (fun h i => h.put (UInt8.ofNat (bits >>> ((7 - i) * 8)))) h
  let s := block h.state h.buffer
  pure ([s.a, s.b, s.c, s.d, s.e, s.f, s.g, s.h].flatMap hexWord)

def sha256 (data : Bytes) : Except Bytes Bytes := do
  let h ← Sha256.initial.update data
  h.finish

end ZenovOS.Zenuniverse

/-! ## Descriptor files and the catalogue

`parse_u64`, `parse_descriptor` and `canonical` of `descriptor.hpp` with `trim` and `read_text_bounded` of `common.hpp`, and
`compile_catalog` of `resolver.hpp`. An error is the text that is thrown. -/

namespace ZenovOS.Zenuniverse
open Bytes Text
open Zenpkg (sorted rendered)

/-! ### Reading -/

/-- The characters `" \t\r\n"`. -/
def isBlank (c : UInt8) : Bool := c = 32 || c = 9 || c = 13 || c = 10

/-- `trim`. -/
def trimmed (value : Bytes) : Bytes := trim isBlank value

/-- `read_text_bounded` of a regular file that can be read and does not change meanwhile. -/
def readTextBounded (path : Bytes) (maximum : Nat) (data : Bytes) : Except Bytes Bytes := do
  refuse (maximum < data.length) (ascii "text file exceeds bounded read limit: " ++ path)
  pure data

/-- The loop of `parse_u64`. -/
def parseU64Digits (field : Bytes) : Nat → Bytes → Except Bytes Nat
  | result, [] => .ok result
  | result, c :: rest => do
    refuse (c < 48 ∨ 57 < c) (field ++ ascii " must be decimal")
    let digit := c.toNat - 48
    refuse ((u64Max - digit) / 10 < result) (field ++ ascii " overflows")
    parseU64Digits field (result * 10 + digit) rest

def parseU64 (value field : Bytes) : Except Bytes Nat := do
  refuse (value = []) (field ++ ascii " is empty")
  refuse (1 < value.length ∧ value.head? = some 48) (field ++ ascii " must be canonical decimal")
  parseU64Digits field 0 value

/-- The members that the map `scalar` points to. -/
inductive Scalar
  | schema
  | id
  | version
  | kind
  | platform
  | architecture
  | artifact
  | delivery
  | runtime
  | availability
  | entrypoint
  | channel
  | category
  | license
  | description
  | homepage
  | sha
  | providerAbi
  | launchMode
  deriving DecidableEq

def Scalar.all : List Scalar :=
  [.schema, .id, .version, .kind, .platform, .architecture, .artifact, .delivery, .runtime, .availability, .entrypoint, .channel,
    .category, .license, .description, .homepage, .sha, .providerAbi, .launchMode]

def Scalar.key : Scalar → Bytes
  | .schema => ascii "schema"
  | .id => ascii "id"
  | .version => ascii "version"
  | .kind => ascii "kind"
  | .platform => ascii "platform"
  | .architecture => ascii "architecture"
  | .artifact => ascii "artifact"
  | .delivery => ascii "delivery"
  | .runtime => ascii "runtime"
  | .availability => ascii "availability"
  | .entrypoint => ascii "entrypoint"
  | .channel => ascii "channel"
  | .category => ascii "category"
  | .license => ascii "license"
  | .description => ascii "description"
  | .homepage => ascii "homepage"
  | .sha => ascii "sha256"
  | .providerAbi => ascii "provider-abi"
  | .launchMode => ascii "launch-mode"

/-- `scalar.find(key)`. -/
def Scalar.find (key : Bytes) : Option Scalar := Scalar.all.find? fun s => s.key = key

/-- `*it->second`. -/
def Descriptor.get (d : Descriptor) : Scalar → Bytes
  | .schema => d.schema
  | .id => d.id
  | .version => d.version
  | .kind => d.kind
  | .platform => d.platform
  | .architecture => d.architecture
  | .artifact => d.artifact
  | .delivery => d.delivery
  | .runtime => d.runtime
  | .availability => d.availability
  | .entrypoint => d.entrypoint
  | .channel => d.channel
  | .category => d.category
  | .license => d.license
  | .description => d.description
  | .homepage => d.homepage
  | .sha => d.sha
  | .providerAbi => d.providerAbi
  | .launchMode => d.launchMode

/-- `*it->second = value`. -/
def Descriptor.set (d : Descriptor) (value : Bytes) : Scalar → Descriptor
  | .schema => { d with schema := value }
  | .id => { d with id := value }
  | .version => { d with version := value }
  | .kind => { d with kind := value }
  | .platform => { d with platform := value }
  | .architecture => { d with architecture := value }
  | .artifact => { d with artifact := value }
  | .delivery => { d with delivery := value }
  | .runtime => { d with runtime := value }
  | .availability => { d with availability := value }
  | .entrypoint => { d with entrypoint := value }
  | .channel => { d with channel := value }
  | .category => { d with category := value }
  | .license => { d with license := value }
  | .description => { d with description := value }
  | .homepage => { d with homepage := value }
  | .sha => { d with sha := value }
  | .providerAbi => { d with providerAbi := value }
  | .launchMode => { d with launchMode := value }

/-- A descriptor of which only the file is known. -/
def Descriptor.empty (source : Bytes) : Descriptor where
  schema := []
  id := []
  version := []
  kind := []
  platform := []
  architecture := []
  artifact := []
  delivery := []
  runtime := []
  availability := []
  entrypoint := []
  channel := []
  category := []
  license := []
  description := []
  homepage := []
  sha := []
  providerAbi := []
  launchMode := []
  bytes := 0
  mirrors := []
  requirements := []
  requirementAny := []
  provides := []
  assets := []
  accepts := []
  launchArgs := []
  source := source

/-- The variables of `parse_descriptor`. -/
structure DescriptorReader where
  descriptor : Descriptor
  seen : List Bytes
  lineNumber : Nat

/-- The start of the message about a line. -/
def DescriptorReader.place (r : DescriptorReader) : Bytes := r.descriptor.source ++ ascii ":" ++ decimal r.lineNumber

/-- A key with a value. -/
def DescriptorReader.put (r : DescriptorReader) (key value : Bytes) : Except Bytes DescriptorReader :=
  let d := r.descriptor
  if key = ascii "mirror" then .ok { r with descriptor := { d with mirrors := d.mirrors ++ [value] } }
  else if key = ascii "requires" then .ok { r with descriptor := { d with requirements := d.requirements ++ [value] } }
  else if key = ascii "requires-any" then .ok { r with descriptor := { d with requirementAny := d.requirementAny ++ [value] } }
  else if key = ascii "provides" then .ok { r with descriptor := { d with provides := d.provides ++ [value] } }
  else if key = ascii "asset" then .ok { r with descriptor := { d with assets := d.assets ++ [value] } }
  else if key = ascii "accepts" then .ok { r with descriptor := { d with accepts := d.accepts ++ [value] } }
  else if key = ascii "arg" then .ok { r with descriptor := { d with launchArgs := d.launchArgs ++ [value] } }
  else if key = ascii "bytes" then do
    refuse (key ∈ r.seen) (ascii "duplicate bytes")
    let bytes ← parseU64 value (ascii "bytes")
    pure { r with descriptor := { d with bytes }, seen := key :: r.seen }
  else
    match Scalar.find key with
    | none => .error (r.place ++ ascii ": unknown key " ++ key)
    | some s => do
      refuse (key ∈ r.seen) (ascii "duplicate " ++ key)
      pure { r with descriptor := d.set value s, seen := key :: r.seen }

/-- A round of the loop of `parse_descriptor`. -/
def DescriptorReader.line (r : DescriptorReader) (line : Bytes) : Except Bytes DescriptorReader :=
  let r := { r with lineNumber := r.lineNumber + 1 }
  let line := if line.getLast? = some 13 then line.dropLast else line
  let line := trimmed line
  if line = [] ∨ line.head? = some 35 then .ok r
  else if line = [46] then .ok r
  else
    let equals := (line.takeWhile (· ≠ 61)).length
    if equals = line.length ∨ equals = 0 then .error (r.place ++ ascii ": expected key=value")
    else
      let key := trimmed (line.take equals)
      let value := trimmed (line.drop (equals + 1))
      if value = [] then .error (r.place ++ ascii ": empty value")
      else r.put key value

/-- `parse_descriptor` of the file at `path`, which holds `data`. -/
def parseDescriptor (path data : Bytes) : Except Bytes Descriptor := do
  let input ← readTextBounded path (64 * 1024) data
  let r ← (lines 10 input).foldlM DescriptorReader.line ⟨.empty path, [], 0⟩
  pure r.descriptor

/-! ### Writing -/

/-- A line that is left out where the value is empty. -/
def renderedOptional (key value : Bytes) : Bytes := if value = [] then [] else rendered key value

/-- What `canonical` writes, with the groups in their canonical form. -/
def canonicalText (d : Descriptor) (anyGroups : List Bytes) : Bytes :=
  rendered (ascii "schema") d.schema ++
    rendered (ascii "id") d.id ++
    rendered (ascii "version") d.version ++
    rendered (ascii "kind") d.kind ++
    rendered (ascii "platform") d.platform ++
    rendered (ascii "architecture") d.architecture ++
    rendered (ascii "artifact") d.artifact ++
    rendered (ascii "delivery") d.delivery ++
    rendered (ascii "runtime") d.runtime ++
    rendered (ascii "availability") d.availability ++
    rendered (ascii "entrypoint") d.entrypoint ++
    renderedOptional (ascii "provider-abi") d.providerAbi ++
    renderedOptional (ascii "launch-mode") d.launchMode ++
    rendered (ascii "channel") d.channel ++
    rendered (ascii "category") d.category ++
    rendered (ascii "license") d.license ++
    rendered (ascii "description") d.description ++
    rendered (ascii "homepage") d.homepage ++
    rendered (ascii "bytes") (decimal d.bytes) ++
    rendered (ascii "sha256") d.sha ++
    (sorted d.mirrors).flatMap (rendered (ascii "mirror")) ++
    (sorted d.accepts).flatMap (rendered (ascii "accepts")) ++
    (sorted d.assets).flatMap (rendered (ascii "asset")) ++
    (sorted d.requirements).flatMap (rendered (ascii "requires")) ++
    (sorted anyGroups).flatMap (rendered (ascii "requires-any")) ++
    (sorted d.provides).flatMap (rendered (ascii "provides")) ++
    d.launchArgs.flatMap (rendered (ascii "arg"))

def canonical (d : Descriptor) : Except Bytes Bytes := do
  let anyGroups ← d.requirementAny.mapM canonicalAlternatives
  pure (canonicalText d anyGroups)

/-- The comparison of `compile_catalog`. -/
def catalogLess (left right : Descriptor) : Bool := if left.id = right.id then versionLess left right else left.id < right.id

/-- A record of the catalogue. -/
def catalogRecord (descriptor : Descriptor) : Except Bytes Bytes := do
  let record ← canonical descriptor
  let digest ← sha256 record
  pure (ascii "record-sha256=" ++ digest ++ ascii "\n" ++ record ++ ascii ".\n")

def compileCatalog (records : List Descriptor) : Except Bytes Bytes := do
  let sorted := records.insertionSort fun left right => !catalogLess right left
  let payload ← sorted.mapM catalogRecord
  let body := payload.flatten
  let digest ← sha256 body
  pure (ascii "ZENUNIVERSE1\ncount=" ++ decimal sorted.length ++ ascii "\npayload-sha256=" ++ digest ++ ascii "\n\n" ++ body)

end ZenovOS.Zenuniverse
