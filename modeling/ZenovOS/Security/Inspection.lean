import ZenovOS.Security.Audit
import ZenovOS.Security.Inflate

/-! # Content inspection

`zmid_content_base64.inc` and `zmid_content_zip.inc`: what the malware scan makes of a content before it
looks for signatures. A Base64 text is decoded, the entries of an archive are unpacked, a text is folded to
upper case, and each of these views is given to the classifier.

The views are produced in two work buffers, and the bytes under inspection may stand in one of them
themselves. The programs below read and write the buffers as the source does. -/

namespace ZenovOS.Security.Inspection
open Bytes

abbrev workspaceBytes : Nat := 64 * 1024
abbrev maxArchiveDepth : Nat := 2
abbrev maxArchiveEntries : Nat := 16
abbrev maxExpandedTotal : Nat := 64 * 1024
abbrev maxExpansionRatio : Nat := 128

/-! ### Views and buffers -/

/-- The layer that a view belongs to, as it appears in a signature. -/
inductive Layer
  | zip
  | zip2
  | base64
  | base64Token
  | base64Case
  | caseFold
  deriving DecidableEq

def Layer.name : Layer → Bytes
  | zip => ascii "ZIP"
  | zip2 => ascii "ZIP2"
  | base64 => ascii "Base64"
  | base64Token => ascii "Base64Token"
  | base64Case => ascii "Base64Case"
  | caseFold => ascii "CaseFold"

/-- Bytes that are given to the classifier. -/
structure View where
  layer : Layer
  data : Bytes
  deriving DecidableEq

/-- What the classifier reports of a view. -/
structure Match where
  verdict : Verdict
  policyAction : UInt8
  signature : Bytes
  deriving DecidableEq

/-- `workspace_a` and `workspace_b`. -/
inductive BufferId
  | a
  | b
  deriving DecidableEq

abbrev Buffer := Nat → UInt8

/-- The contents of the two buffers. -/
abbrev Workspace := BufferId → Buffer

/-- Where a pointer points to: into the scanned content or to one of the buffers. -/
inductive Source
  | content
  | buffer (id : BufferId)
  deriving DecidableEq

/-- A pointer and a size. -/
structure Region where
  source : Source
  size : Nat

/-- Why an inspection does not go on. -/
inductive Stop
  | matched (result : Match)
  | unsupported
  deriving DecidableEq

/-- What an inspection works with: the path, the content and the classifier. -/
structure Env where
  path : Bytes
  content : Bytes
  classify : View → Option Match

/-- A piece of an inspection: the views that it shows to the classifier, and how it ends. -/
def Inspect (α : Type) : Type := Env → Workspace → List View × Except Stop (α × Workspace)

namespace Inspect
variable {α β : Type}

def ret (a : α) : Inspect α := fun _ w => ([], .ok (a, w))

def andThen (m : Inspect α) (f : α → Inspect β) : Inspect β := fun env w =>
  match m env w with
  | (views, .error stop) => (views, .error stop)
  | (views, .ok (a, w')) => (views ++ (f a env w').1, (f a env w').2)

instance : Monad Inspect where
  pure := ret
  bind := andThen

/-- `InspectionResult::unsupported`. -/
def unsupported : Inspect α := fun _ _ => ([], .error .unsupported)

def path : Inspect Bytes := fun env w => ([], .ok (env.path, w))

/-- `classify_decoded`, and the return of `matched`. -/
def classifyDecoded (layer : Layer) (data : Bytes) : Inspect Unit := fun env w =>
  match env.classify ⟨layer, data⟩ with
  | some result => ([⟨layer, data⟩], .error (.matched result))
  | none => ([⟨layer, data⟩], .ok ((), w))

end Inspect

/-- A byte behind a pointer. -/
def Workspace.byte (w : Workspace) (content : Bytes) : Source → Nat → UInt8
  | .content, i => content.getD i 0
  | .buffer id, i => w id i

/-- The bytes of a region as they are now. -/
def Workspace.bytes (w : Workspace) (content : Bytes) (region : Region) : Bytes :=
  (List.range region.size).map (w.byte content region.source)

/-- Copy `data` into a buffer at `offset`. -/
def Workspace.write (w : Workspace) (id : BufferId) (offset : Nat) (data : Bytes) : Workspace :=
  Function.update w id fun i => if offset ≤ i ∧ i < offset + data.length then data.getD (i - offset) 0 else w id i

namespace Inspect

def bytes (region : Region) : Inspect Bytes := fun env w => ([], .ok (w.bytes env.content region, w))

def write (id : BufferId) (data : Bytes) : Inspect Unit := fun _ w => ([], .ok ((), w.write id 0 data))

/-- A piece that is left out unless `c` holds. -/
def when (c : Bool) (m : Inspect Unit) : Inspect Unit := if c then m else pure ()

end Inspect

/-! ### Base64 -/

def base64Value (value : UInt8) : Option Nat :=
  if 65 ≤ value ∧ value ≤ 90 then some (value.toNat - 65)
  else if 97 ≤ value ∧ value ≤ 122 then some (value.toNat - 97 + 26)
  else if 48 ≤ value ∧ value ≤ 57 then some (value.toNat - 48 + 52)
  else if value = 43 ∨ value = 45 then some 62
  else if value = 47 ∨ value = 95 then some 63
  else none

/-- The bytes of a quartet, if it is well formed; 64 stands for the padding character. -/
def quartetBytes : List Nat → Option Bytes
  | [q₀, q₁] =>
    if 64 ≤ q₀ ∨ 64 ≤ q₁ ∨ q₁ % 16 ≠ 0 then none else some [UInt8.ofNat (q₀ * 4 + q₁ / 16)]
  | [q₀, q₁, q₂] =>
    if 64 ≤ q₀ ∨ 64 ≤ q₁ ∨ q₂ = 64 ∨ q₂ % 4 ≠ 0 then none
    else some [UInt8.ofNat (q₀ * 4 + q₁ / 16), UInt8.ofNat (q₁ * 16 + q₂ / 4)]
  | [q₀, q₁, q₂, q₃] =>
    if 64 ≤ q₀ ∨ 64 ≤ q₁ ∨ (q₂ = 64 ∧ q₃ ≠ 64) then none
    else if q₂ = 64 then (if q₁ % 16 ≠ 0 then none else some [UInt8.ofNat (q₀ * 4 + q₁ / 16)])
    else if q₃ = 64 then
      (if q₂ % 4 ≠ 0 then none else some [UInt8.ofNat (q₀ * 4 + q₁ / 16), UInt8.ofNat (q₁ * 16 + q₂ / 4)])
    else some [UInt8.ofNat (q₀ * 4 + q₁ / 16), UInt8.ofNat (q₁ * 16 + q₂ / 4), UInt8.ofNat (q₂ * 64 + q₃)]
  | _ => none

/-- `emit_base64_quartet`: the bytes it writes behind the first `outputSize`, and whether it succeeds. -/
def emitBase64Quartet (quartet : List Nat) (capacity outputSize : Nat) : Bytes × Bool :=
  match quartetBytes quartet with
  | none => ([], false)
  | some data => (data.take (capacity - outputSize), data.length ≤ capacity - outputSize)

/-- The variables of `decode_base64`. -/
structure Decoder where
  quartet : List Nat
  significant : Nat
  paddingStarted : Bool
  terminalQuartet : Bool
  outputSize : Nat

/-- A character that is none of the blanks that `decode_base64` passes over. -/
def Decoder.take (d : Decoder) (value : UInt8) : Option Decoder :=
  if d.terminalQuartet ∨ 4 ≤ d.quartet.length then none
  else if value = 61 then
    some { d with paddingStarted := true, quartet := d.quartet ++ [64], significant := d.significant + 1 }
  else
    match base64Value value with
    | none => none
    | some decoded =>
      if d.paddingStarted then none
      else some { d with quartet := d.quartet ++ [decoded], significant := d.significant + 1 }

/-- One turn of the loop of `decode_base64`: the bytes it writes, and the variables after it unless the
    decoding has failed. -/
def Decoder.step (d : Decoder) (capacity : Nat) (value : UInt8) : Bytes × Option Decoder :=
  if value = 32 ∨ value = 10 ∨ value = 13 ∨ value = 9 then ([], some d)
  else
    match d.take value with
    | none => ([], none)
    | some d =>
      if d.quartet.length ≠ 4 then ([], some d)
      else
        let padded := d.quartet.getD 2 0 = 64 || d.quartet.getD 3 0 = 64
        let (written, ok) := emitBase64Quartet d.quartet capacity d.outputSize
        (written, if ok then some { d with quartet := [], terminalQuartet := padded, outputSize := d.outputSize + written.length }
          else none)

/-- What `decode_base64` does behind its loop. -/
def Decoder.finish (d : Decoder) (capacity : Nat) : Bytes × Option Nat :=
  if d.significant < 16 ∨ d.quartet.length = 1 then ([], none)
  else if d.quartet = [] then ([], some d.outputSize)
  else
    let (written, ok) := emitBase64Quartet d.quartet capacity d.outputSize
    (written, if ok then some (d.outputSize + written.length) else none)

def Decoder.start : Decoder := ⟨[], 0, false, false, 0⟩

/-- The loop of `decode_base64`: each turn reads a byte and may write to the output buffer, which can be the
    one it reads from. -/
def decodeLoop (content : Bytes) (source : Source) (output : BufferId) : Nat → Nat → Decoder → Workspace →
    Option Nat × Workspace
  | 0, _, d, w =>
    let (written, size) := d.finish workspaceBytes
    (size, w.write output d.outputSize written)
  | left + 1, i, d, w =>
    let (written, next) := d.step workspaceBytes (w.byte content source i)
    let w := w.write output d.outputSize written
    match next with
    | none => (none, w)
    | some d => decodeLoop content source output left (i + 1) d w

/-- `decode_base64` of `size` bytes at `offset`, into `output`; the size of the decoded bytes. -/
def decodeBase64 (source : Source) (offset size : Nat) (output : BufferId) : Inspect (Option Nat) := fun env w =>
  let (decoded, w) := decodeLoop env.content source output size offset .start w
  ([], .ok (decoded, w))

/-- Copy `data` into the buffer at `offset`. -/
def Buffer.put (output : Buffer) (offset : Nat) (data : Bytes) : Buffer := fun i =>
  if offset ≤ i ∧ i < offset + data.length then data.getD (i - offset) 0 else output i

/-- The loop of `decode_base64` over an input that the output buffer does not overlap. -/
def decodeLoopInto (capacity : Nat) : Bytes → Decoder → Buffer → Option Nat × Buffer
  | [], d, output =>
    let (written, size) := d.finish capacity
    (size, output.put d.outputSize written)
  | value :: rest, d, output =>
    let (written, next) := d.step capacity value
    let output := output.put d.outputSize written
    match next with
    | none => (none, output)
    | some d => decodeLoopInto capacity rest d output

/-- `decode_base64` into a buffer of its own: the size of the decoded bytes, and the buffer after it. -/
def decodeBase64Into (input : Bytes) (capacity : Nat) (output : Buffer) : Option Nat × Buffer :=
  if capacity = 0 then (none, output) else decodeLoopInto capacity input .start output

/-! ### Case folding -/

def printable (value : UInt8) : Bool := (32 ≤ value && value ≤ 126) || value = 10 || value = 13 || value = 9

def lowercase (value : UInt8) : Bool := 97 ≤ value && value ≤ 122

def textCaseCandidate (data : Bytes) : Bool :=
  if data.length < 8 ∨ workspaceBytes < data.length then false
  else data.countP lowercase ≠ 0 && data.length * 9 ≤ data.countP printable * 10

/-- `uppercase_copy`. -/
def uppercase (data : Bytes) : Bytes := data.map fun value => if lowercase value then value - 32 else value

/-! ### Archives -/

def loadLe16 (data : Bytes) (offset : Nat) : Nat := toNat (slice data offset 2)
def loadLe32 (data : Bytes) (offset : Nat) : Nat := toNat (slice data offset 4)

def rangeFits (offset length size : Nat) : Bool := offset ≤ size && length ≤ size - offset

def expansionWithinLimit (compressedSize expandedSize : Nat) : Bool := expandedSize ≤ compressedSize * maxExpansionRatio + 1024

/-- The end record of the archive, the last one whose comment ends with the data. -/
def findZipEocd (data : Bytes) : Option Nat :=
  let size := data.length
  if size < 22 then none
  else
    let minimum := size - 65557
    ((List.range (size - 22 - minimum + 1)).map (size - 22 - ·)).find? fun cursor =>
      loadLe32 data cursor = 0x06054B50 && cursor + 22 + loadLe16 data (cursor + 20) = size

def looksLikeZip (data : Bytes) : Bool :=
  if data.length < 4 then false else loadLe32 data 0 = 0x04034B50 || (findZipEocd data).isSome

def pathHasZipExtension (path : Bytes) : Bool :=
  if path.length < 4 ∨ 1024 ≤ path.length then false
  else
    match path.drop (path.length - 4) with
    | [dot, a, b, c] => dot = 46 && (a = 122 || a = 90) && (b = 105 || b = 73) && (c = 112 || c = 80)
    | _ => false

structure ZipEntryView where
  localOffset : Nat
  payloadOffset : Nat
  payloadEnd : Nat
  compressedSize : Nat
  expandedSize : Nat
  expectedCrc : Nat
  method : Nat

/-- The bounds of an archive that its end record gives. -/
structure ZipBounds where
  eocdOffset : Nat
  centralOffset : Nat
  archiveBase : Nat
  totalEntries : Nat
  centralSize : Nat

def readBounds (data : Bytes) : Option ZipBounds := do
  let eocdOffset ← findZipEocd data
  let diskNumber := loadLe16 data (eocdOffset + 4)
  let centralDisk := loadLe16 data (eocdOffset + 6)
  let diskEntries := loadLe16 data (eocdOffset + 8)
  let totalEntries := loadLe16 data (eocdOffset + 10)
  let centralSize := loadLe32 data (eocdOffset + 12)
  let centralRelative := loadLe32 data (eocdOffset + 16)
  if diskNumber ≠ 0 ∨ centralDisk ≠ 0 ∨ diskEntries ≠ totalEntries ∨ maxArchiveEntries < totalEntries ∨
      eocdOffset < centralSize then none
  else
    let centralOffset := eocdOffset - centralSize
    if centralOffset < centralRelative then none
    else some ⟨eocdOffset, centralOffset, centralOffset - centralRelative, totalEntries, centralSize⟩

/-- The entry whose central record is at `cursor`, checked against its local header, and the size of the
    variable part of the central record. -/
def readEntry (data : Bytes) (bounds : ZipBounds) (cursor : Nat) : Option (ZipEntryView × Nat) :=
  if !rangeFits cursor 46 bounds.eocdOffset || loadLe32 data cursor ≠ 0x02014B50 then none
  else
    let versionNeeded := loadLe16 data (cursor + 6)
    let flags := loadLe16 data (cursor + 8)
    let method := loadLe16 data (cursor + 10)
    let expectedCrc := loadLe32 data (cursor + 16)
    let compressedSize := loadLe32 data (cursor + 20)
    let expandedSize := loadLe32 data (cursor + 24)
    let nameSize := loadLe16 data (cursor + 28)
    let extraSize := loadLe16 data (cursor + 30)
    let commentSize := loadLe16 data (cursor + 32)
    let startDisk := loadLe16 data (cursor + 34)
    let localRelative := loadLe32 data (cursor + 42)
    let variableSize := nameSize + extraSize + commentSize
    if 20 < versionNeeded ∨ flags &&& 0xF7F9 ≠ 0 ∨ (method ≠ 8 ∧ flags &&& 0x0006 ≠ 0) ∨ startDisk ≠ 0 ∨
        compressedSize = 0xFFFFFFFF ∨ expandedSize = 0xFFFFFFFF ∨ localRelative = 0xFFFFFFFF ∨
        workspaceBytes < expandedSize ∨ !rangeFits (cursor + 46) variableSize bounds.eocdOffset ∨
        bounds.centralOffset - bounds.archiveBase < localRelative then none
    else
      let localOffset := bounds.archiveBase + localRelative
      if !rangeFits localOffset 30 bounds.centralOffset || loadLe32 data localOffset ≠ 0x04034B50 then none
      else
        let localExtraSize := loadLe16 data (localOffset + 28)
        if loadLe16 data (localOffset + 4) ≠ versionNeeded ∨ loadLe16 data (localOffset + 6) ≠ flags ∨
            loadLe16 data (localOffset + 8) ≠ method ∨ loadLe32 data (localOffset + 14) ≠ expectedCrc ∨
            loadLe32 data (localOffset + 18) ≠ compressedSize ∨ loadLe32 data (localOffset + 22) ≠ expandedSize ∨
            loadLe16 data (localOffset + 26) ≠ nameSize ∨
            !rangeFits (localOffset + 30) (nameSize + localExtraSize) bounds.centralOffset ∨
            slice data (localOffset + 30) nameSize ≠ slice data (cursor + 46) nameSize then none
        else
          let payloadOffset := localOffset + 30 + nameSize + localExtraSize
          if !rangeFits payloadOffset compressedSize bounds.centralOffset then none
          else some (⟨localOffset, payloadOffset, payloadOffset + compressedSize, compressedSize, expandedSize, expectedCrc,
            method⟩, variableSize)

/-- The loop over the central directory; `entries` are those read so far. -/
def readEntries (data : Bytes) (bounds : ZipBounds) : Nat → Nat → List ZipEntryView → Option (List ZipEntryView)
  | 0, cursor, entries => if cursor ≠ bounds.eocdOffset then none else some entries
  | left + 1, cursor, entries => do
    let (entry, variableSize) ← readEntry data bounds cursor
    if entries.any (·.localOffset = entry.localOffset) then none
    else readEntries data bounds left (cursor + 46 + variableSize) (entries ++ [entry])

/-- Insert an entry behind those that do not start after it. -/
def insertEntry (value : ZipEntryView) : List ZipEntryView → List ZipEntryView
  | [] => [value]
  | entry :: rest =>
    if value.localOffset < entry.localOffset then value :: entry :: rest else entry :: insertEntry value rest

def sortEntries (entries : List ZipEntryView) : List ZipEntryView := entries.foldl (fun sorted value => insertEntry value sorted) []

/-- Each entry starts where the one before it ends, from `start` to `stop`. -/
def contiguous (start stop : Nat) : List ZipEntryView → Bool
  | [] => start = stop
  | entry :: rest => entry.localOffset = start && contiguous entry.payloadEnd stop rest

/-- The bytes of an entry, unpacked, when they are as large as declared and their checksum is right. -/
def unpackEntry (data : Bytes) (entry : ZipEntryView) : Option Bytes :=
  let payload := slice data entry.payloadOffset entry.compressedSize
  let unpacked :=
    if entry.method = 0 then (if entry.compressedSize ≠ entry.expandedSize then none else some payload)
    else if entry.method = 8 then (Inflate.inflateRaw payload workspaceBytes).filter (·.length = entry.expandedSize)
    else none
  unpacked.filter fun output => (Inflate.crc32 output).toNat = entry.expectedCrc

/-! ### The inspection -/

/-- `inspect_payload` of a region, with a scratch buffer and perhaps an alternate one. -/
abbrev Inspector := Region → BufferId → Option BufferId → Inspect Unit

/-- The loop of `inspect_zip` over the entries: each is unpacked into `output`, shown to the classifier and
    inspected there. -/
def inspectEntries (inner : Inspector) (layer : Layer) (region : Region) (output : BufferId) (alternate : Option BufferId) :
    List ZipEntryView → Nat → Inspect Unit
  | [], _ => pure ()
  | entry :: rest, totalExpanded =>
    if maxExpandedTotal - totalExpanded < entry.expandedSize ∨
        !expansionWithinLimit entry.compressedSize entry.expandedSize then Inspect.unsupported
    else do
      match unpackEntry (← Inspect.bytes region) entry with
      | none => Inspect.unsupported
      | some unpacked => do
        Inspect.write output unpacked
        Inspect.classifyDecoded layer unpacked
        let nestedAlternate := if alternate.map Source.buffer = some region.source ∧ rest ≠ [] then none else alternate
        inner ⟨.buffer output, unpacked.length⟩ output nestedAlternate
        inspectEntries inner layer region output alternate rest (totalExpanded + unpacked.length)

/-- `inspect_zip` below the depth limit. `inner` inspects an entry, `prefixed` the bytes before the archive. -/
def inspectZip (inner prefixed : Inspector) (layer : Layer) (region : Region) (output : BufferId)
    (alternate : Option BufferId) : Inspect Unit := do
  let data ← Inspect.bytes region
  match readBounds data with
  | none => Inspect.unsupported
  | some bounds =>
    match readEntries data bounds bounds.totalEntries bounds.centralOffset [] with
    | none => Inspect.unsupported
    | some entries =>
      if bounds.totalEntries = 0 ∧ bounds.centralSize ≠ 0 then Inspect.unsupported
      else do
        Inspect.when (bounds.archiveBase ≠ 0) (prefixed ⟨region.source, bounds.archiveBase⟩ output none)
        if bounds.totalEntries = 0 then pure ()
        else
          let sorted := sortEntries entries
          if !contiguous bounds.archiveBase bounds.centralOffset sorted then Inspect.unsupported
          else inspectEntries inner layer region output alternate sorted 0

/-- The upper-case view of a region, when it is a text; it is produced in `scratch`. -/
def inspectCase (region : Region) (scratch : BufferId) (layer : Layer) : Inspect Unit := do
  let data ← Inspect.bytes region
  Inspect.when (textCaseCandidate data) do
    Inspect.write scratch (uppercase data)
    Inspect.classifyDecoded layer (uppercase data)

/-- `inspect_decoded_payload`; `inner` is `inspect_payload` one level deeper. -/
def inspectDecodedPayload (inner : Inspector) (decoded : BufferId) (size : Nat) (alternate : Option BufferId) (layer : Layer) :
    Inspect Unit := do
  let data ← Inspect.bytes ⟨.buffer decoded, size⟩
  Inspect.classifyDecoded layer data
  Inspect.when (looksLikeZip data) (inner ⟨.buffer decoded, size⟩ decoded alternate)
  inspectCase ⟨.buffer decoded, size⟩ decoded .base64Case

/-- A Base64 decoding, and the inspection of what it gives if it succeeds and gives anything. -/
def inspectBase64 (inner : Inspector) (source : Source) (offset size : Nat) (scratch : BufferId) (alternate : Option BufferId)
    (layer : Layer) : Inspect Unit := do
  match ← decodeBase64 source offset size scratch with
  | none | some 0 => pure ()
  | some decodedSize => inspectDecodedPayload inner scratch decodedSize alternate layer

/-- The next Base64 token from `cursor` on: where it starts and where it ends. -/
def nextToken (data : Bytes) (cursor : Nat) : Nat × Nat :=
  let skipped := (data.drop cursor).takeWhile fun b => (base64Value b).isNone
  let start := cursor + skipped.length
  let letters := (data.drop start).takeWhile fun b => (base64Value b).isSome
  let padding := ((data.drop (start + letters.length)).take 2).takeWhile (· = 61)
  (start, start + letters.length + padding.length)

/-- The loop of `inspect_embedded_base64`; each turn moves the cursor on. -/
def inspectTokens (inner : Inspector) (region : Region) (scratch : BufferId) (alternate : Option BufferId) :
    Nat → Nat → Inspect Unit
  | 0, _ => pure ()
  | left + 1, cursor =>
    if region.size ≤ cursor then pure ()
    else do
      let token := nextToken (← Inspect.bytes region) cursor
      let size := token.2 - token.1
      Inspect.when (16 ≤ size && size ≠ region.size)
        (inspectBase64 inner region.source token.1 size scratch alternate .base64Token)
      inspectTokens inner region scratch alternate left token.2

/-- `inspect_payload` of an archive: it is unpacked into the buffer that does not hold it. -/
def inspectArchive (zip : Inspector) : Inspector := fun region scratch alternate =>
  if region.source = .buffer scratch then
    match alternate with
    | none => Inspect.unsupported
    | some other => if region.source = .buffer other then Inspect.unsupported else zip region other (some scratch)
  else zip region scratch alternate

/-- `inspect_payload` of anything else. -/
def inspectText (inner : Inspector) : Inspector := fun region scratch alternate => do
  inspectBase64 inner region.source 0 region.size scratch alternate .base64
  inspectTokens inner region scratch alternate region.size 0
  inspectCase region scratch .caseFold

/-- `inspect_payload`. `zip` is `inspect_zip` and `inner` is `inspect_payload` one level deeper; `top` says
    whether the archive depth is zero. -/
def payloadWith (top : Bool) (zip inner : Inspector) : Inspector := fun region scratch alternate => do
  let data ← Inspect.bytes region
  let path ← Inspect.path
  if looksLikeZip data || (top && pathHasZipExtension path) then inspectArchive zip region scratch alternate
  else inspectText inner region scratch alternate

/-- At the limit of the archive depth, where `inspect_zip` is not supported and a decoded archive neither. -/
def inspectFlat : Inspector := payloadWith false (fun _ _ _ => Inspect.unsupported) fun _ _ _ => Inspect.unsupported

/-- `inspect_payload` with `levels` archive levels left. -/
def inspectPayload : Nat → Inspector
  | 0 => inspectFlat
  | levels + 1 =>
    payloadWith (levels + 1 = maxArchiveDepth)
      (inspectZip (inspectPayload levels) inspectFlat (if levels + 1 = maxArchiveDepth then .zip else .zip2))
      (inspectPayload levels)

end ZenovOS.Security.Inspection
