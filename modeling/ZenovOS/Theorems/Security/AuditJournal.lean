import ZenovOS.Theorems.Security.AuditChain

/-! # The journal that `append_to` writes

A log of all events there have been, against the ring that keeps the last 64: every call of `append_to`
takes the log's next record in, and the stored journal passes `verify`. -/

namespace ZenovOS.Security.Audit
open Bytes Storage HashChain

/-! ### The stored form of a record -/

/-- The sizes of a record's fields in memory. -/
structure Record.Fits (r : Record) : Prop where
  sequence : r.sequence < 2 ^ 32
  tick : r.tick < 2 ^ 32
  path : r.path.length ≤ 48
  digest : r.digest.length = 32
  recordHash : r.recordHash.length = 32

def Record.disk (r : Record) : DiskRecord where
  sequence := UInt32.ofNat r.sequence
  tick := UInt32.ofNat r.tick
  action := r.action
  verdict := r.verdict
  pathLength := UInt16.ofNat r.path.length
  path := Block.of (field 48 r.path)
  digest := Block.of r.digest
  recordHash := Block.of r.recordHash
  reserved := Block.of (List.replicate 4 0)

theorem length_field {n : Nat} {text : Bytes} (h : text.length ≤ n) : (field n text).length = n := by
  rw [field, List.length_append, List.length_replicate]
  omega

theorem length_encode {r : Record} (h : r.Fits) : r.encode.length = recordBytes := by
  simp only [Record.encode, List.length_append, length_le, List.length_cons, List.length_nil, List.length_replicate,
    length_field h.path, h.digest, h.recordHash]

theorem ofNat_le16 {n : Nat} : UInt16.ofNat (toNat (le 2 n)) = UInt16.ofNat n := by
  rw [toNat_le]
  exact UInt16.toNat.inj (by simp)

theorem ofNat_le32 {n : Nat} : UInt32.ofNat (toNat (le 4 n)) = UInt32.ofNat n := by
  rw [toNat_le]
  exact UInt32.toNat.inj (by simp)

theorem slice_flatten {pieces : List Bytes} {lengths : List Nat} (h : pieces.map List.length = lengths) (k off n : Nat)
    {piece : Bytes} (hoff : (lengths.take k).sum = off) (hn : lengths[k]? = some n)
    (hk : pieces[k]? = some piece) : slice pieces.flatten off n = piece := by
  obtain ⟨hlt, hget⟩ := List.getElem?_eq_some_iff.mp hk
  have hsplit : pieces = pieces.take k ++ piece :: pieces.drop (k + 1) := by
    rw [← hget, ← List.drop_eq_getElem_cons hlt, List.take_append_drop]
  have hpre : (pieces.take k).flatten.length = off := by
    rw [List.length_flatten, List.map_take, h, hoff]
  have hlength : piece.length = n := by
    rw [← h, List.getElem?_map, hk, Option.map_some] at hn
    exact Option.some.inj hn
  have hflatten : pieces.flatten = (pieces.take k).flatten ++ (piece ++ (pieces.drop (k + 1)).flatten) := by
    rw [← List.flatten_cons, ← List.flatten_append, ← hsplit]
  exact slice_field _ piece hpre hlength hflatten

theorem decode_record {r : Record} (h : r.Fits) : DiskRecord.decode r.encode = r.disk := by
  have hencode : r.encode = [le 4 r.sequence, le 4 r.tick, [r.action], [r.verdict], le 2 r.path.length, field 48 r.path,
      r.digest, r.recordHash, List.replicate 4 0].flatten := by
    simp [Record.encode]
  have hlengths : [le 4 r.sequence, le 4 r.tick, [r.action], [r.verdict], le 2 r.path.length, field 48 r.path,
      r.digest, r.recordHash, List.replicate 4 0].map List.length = [4, 4, 1, 1, 2, 48, 32, 32, 4] := by
    simp [length_field h.path, h.digest, h.recordHash]
  unfold DiskRecord.decode Record.disk
  rw [hencode, slice_flatten hlengths 0 0 4 rfl rfl rfl, slice_flatten hlengths 1 4 4 rfl rfl rfl,
    slice_flatten hlengths 2 8 1 rfl rfl rfl, slice_flatten hlengths 3 9 1 rfl rfl rfl, slice_flatten hlengths 4 10 2 rfl rfl rfl,
    slice_flatten hlengths 5 12 48 rfl rfl rfl, slice_flatten hlengths 6 60 32 rfl rfl rfl, slice_flatten hlengths 7 92 32 rfl rfl rfl,
    slice_flatten hlengths 8 124 4 rfl rfl rfl, ofNat_le32, ofNat_le32, ofNat_le16, ofNat_toNat_byte, ofNat_toNat_byte]

/-! ### The stored form of the journal -/

/-- The sizes of a journal's fields in memory. -/
structure Journal.Fits (j : Journal) : Prop where
  anchorHash : j.anchorHash.length = 32
  headHash : j.headHash.length = 32
  records : j.records.length = diskCapacity
  record : ∀ r ∈ j.records, r.Fits

/-- The fields of the stored header. -/
def Journal.headerPieces (j : Journal) : List Bytes :=
  [ascii "ZGAL", le 2 1, le 2 96, le 2 128, le 2 diskCapacity, le 4 j.count, le 4 j.nextIndex, le 4 j.nextSequence,
    j.anchorHash, j.headHash, List.replicate 8 0]

def Journal.disk (j : Journal) : Image where
  header :=
    { magic := Block.of (ascii "ZGAL")
      schema := 1
      headerSize := 96
      recordSize := 128
      capacity := 64
      count := UInt32.ofNat j.count
      nextIndex := UInt32.ofNat j.nextIndex
      nextSequence := UInt32.ofNat j.nextSequence
      anchorHash := Block.of j.anchorHash
      headHash := Block.of j.headHash
      reserved := Block.of (List.replicate 8 0) }
  records i := (j.records.getD i emptyRecord).disk

theorem headerPieces_lengths {j : Journal} (h : j.Fits) :
    j.headerPieces.map List.length = [4, 2, 2, 2, 2, 4, 4, 4, 32, 32, 8] := by
  simp only [Journal.headerPieces, List.map_cons, List.map_nil, length_le, h.anchorHash, h.headHash, List.length_replicate]
  rfl

theorem length_header {j : Journal} (h : j.Fits) : j.headerPieces.flatten.length = headerBytes := by
  rw [List.length_flatten, headerPieces_lengths h]
  rfl

theorem decode_header {j : Journal} (h : j.Fits) : DiskHeader.decode j.headerPieces.flatten = j.disk.header := by
  have hlengths := headerPieces_lengths h
  unfold DiskHeader.decode
  rw [slice_flatten hlengths 0 0 4 rfl rfl rfl, slice_flatten hlengths 1 4 2 rfl rfl rfl,
      slice_flatten hlengths 2 6 2 rfl rfl rfl, slice_flatten hlengths 3 8 2 rfl rfl rfl,
      slice_flatten hlengths 4 10 2 rfl rfl rfl, slice_flatten hlengths 5 12 4 rfl rfl rfl,
      slice_flatten hlengths 6 16 4 rfl rfl rfl, slice_flatten hlengths 7 20 4 rfl rfl rfl,
      slice_flatten hlengths 8 24 32 rfl rfl rfl, slice_flatten hlengths 9 56 32 rfl rfl rfl,
      slice_flatten hlengths 10 88 8 rfl rfl rfl]
  simp only [ofNat_le16, ofNat_le32]
  rfl

theorem encode_pieces (j : Journal) : j.encode = j.headerPieces.flatten ++ (j.records.map Record.encode).flatten := by
  simp [Journal.encode, Journal.headerPieces, List.flatMap_def]

theorem recordPieces_lengths {j : Journal} (h : j.Fits) :
    (j.records.map Record.encode).map List.length = List.replicate diskCapacity recordBytes := by
  rw [List.map_map, List.eq_replicate_iff, List.length_map]
  refine ⟨h.records, fun n hn => ?_⟩
  obtain ⟨r, hr, rfl⟩ := List.mem_map.mp hn
  exact length_encode (h.record r hr)

theorem decode_journal {j : Journal} (h : j.Fits) : Image.decode j.encode = j.disk := by
  have hencode := encode_pieces j
  have hlengths := recordPieces_lengths h
  have hrecords : ∀ i : Fin diskCapacity,
      DiskRecord.decode (slice j.encode (headerBytes + i * recordBytes) recordBytes) =
        (j.records.getD i emptyRecord).disk := by
    intro i
    have hi : i.val < j.records.length := by rw [h.records]; exact i.isLt
    have hoff : ((List.replicate diskCapacity recordBytes).take i).sum = i * recordBytes := by
      rw [List.take_replicate, List.sum_replicate_nat, Nat.min_eq_left i.isLt.le]
    have hn : (List.replicate diskCapacity recordBytes)[i.val]? = some recordBytes := by
      rw [List.getElem?_replicate, if_pos i.isLt]
    have hk : (j.records.map Record.encode)[i.val]? = some (j.records[i.val]).encode := by
      rw [List.getElem?_map, List.getElem?_eq_getElem hi, Option.map_some]
    rw [hencode, slice_append_right (by rw [length_header h]; exact Nat.le_add_right _ _), length_header h,
      Nat.add_sub_cancel_left, slice_flatten hlengths i (i * recordBytes) recordBytes hoff hn hk,
      decode_record (h.record _ (List.getElem_mem hi)), List.getD_eq_getElem _ _ hi]
  unfold Image.decode
  rw [funext hrecords, hencode, slice_first (length_header h), decode_header h]
  rfl

/-! ### The log of all events -/

/-- The arguments of a call of `append_to`, each in its range. -/
structure Event where
  tick : UInt32
  action : UInt8
  verdict : UInt8
  path : Bytes
  digest : Block 32
  action_le : action ≤ AuditAction.readAudit.code
  verdict_le : verdict ≤ Verdict.error.code
  path_ne : path ≠ []
  path_lt : path.length < 48

def zeroHash : Bytes := List.replicate 32 0

/-- The record of an event, but for its hash. -/
def Event.opened (e : Event) (sequence : Nat) : Record :=
  ⟨sequence, e.tick.toNat, e.action, e.verdict, e.path, e.digest.bytes, zeroHash⟩

def Record.seal (r : Record) (hash : Bytes) : Record := { r with recordHash := hash }

theorem Record.seal_recordHash (r : Record) (hash : Bytes) : (r.seal hash).recordHash = hash := rfl

theorem Record.hash_seal (r : Record) (hash previousHash : Bytes) :
    hashRecord (r.seal hash) previousHash = hashRecord r previousHash := rfl

def Event.record (e : Event) (sequence : Nat) (previousHash : Bytes) : Record :=
  (e.opened sequence).seal (hashRecord (e.opened sequence) previousHash)

def extend (records : List Record) (e : Event) : List Record :=
  records ++ [e.record (records.length + 1) (head Record.recordHash zeroHash records)]

/-- The records that the events would leave if the journal kept all of them. -/
def log (events : List Event) : List Record := events.foldl extend []

/-- The calls of `append_to`, one after the other. -/
def appendAll (j : Journal) (events : List Event) : Option Journal :=
  events.foldlM (fun j e => appendTo j e.tick.toNat e.action e.verdict e.path e.digest.bytes) j

@[simp] theorem log_snoc (events : List Event) (e : Event) : log (events ++ [e]) = extend (log events) e := by
  rw [log, List.foldl_append]
  rfl

@[simp] theorem length_extend (records : List Record) (e : Event) : (extend records e).length = records.length + 1 := by
  rw [extend, List.length_append, List.length_singleton]

@[simp] theorem length_log (events : List Event) : (log events).length = events.length := by
  induction events using List.reverseRecOn with
  | nil => rfl
  | append_singleton events e ih => rw [log_snoc, length_extend, ih, List.length_append, List.length_singleton]

theorem length_hashRecord (r : Record) (previousHash : Bytes) : (hashRecord r previousHash).length = 32 :=
  length_sha256Final _

/-- What an event's record is made of. -/
structure Record.Of (r : Record) (e : Event) (sequence : Nat) : Prop where
  sequence : r.sequence = sequence
  tick : r.tick = e.tick.toNat
  action : r.action = e.action
  verdict : r.verdict = e.verdict
  path : r.path = e.path
  digest : r.digest = e.digest.bytes
  recordHash : r.recordHash.length = 32

theorem Record.Of.fits {r : Record} {e : Event} {n : Nat} (h : r.Of e n) (hn : n < 2 ^ 32) : r.Fits where
  sequence := by rw [h.sequence]; exact hn
  tick := by rw [h.tick]; exact e.tick.toNat_lt
  path := by rw [h.path]; exact e.path_lt.le
  digest := by rw [h.digest, e.digest.length_eq]
  recordHash := h.recordHash

theorem seal_of (e : Event) (sequence : Nat) {hash : Bytes} (h : hash.length = 32) :
    ((e.opened sequence).seal hash).Of e sequence :=
  ⟨rfl, rfl, rfl, rfl, rfl, rfl, h⟩

theorem record_of (e : Event) (sequence : Nat) (previousHash : Bytes) : (e.record sequence previousHash).Of e sequence :=
  seal_of e sequence (length_hashRecord _ _)

theorem hash_record (e : Event) (sequence : Nat) (previousHash : Bytes) :
    hashRecord (e.record sequence previousHash) previousHash = (e.record sequence previousHash).recordHash := by
  rw [Event.record, Record.hash_seal, Record.seal_recordHash]

theorem log_of {events : List Event} {n : Nat} {e : Event} (h : events[n]? = some e) :
    ∃ r, (log events)[n]? = some r ∧ r.Of e (n + 1) := by
  induction events using List.reverseRecOn with
  | nil => cases h
  | append_singleton events last ih =>
    rw [log_snoc, extend]
    rcases Nat.lt_trichotomy n events.length with hn | rfl | hn
    · rw [List.getElem?_append_left hn] at h
      rw [List.getElem?_append_left (by rw [length_log]; exact hn)]
      exact ih h
    · rw [List.getElem?_append_right (Nat.le_refl _), Nat.sub_self] at h
      obtain rfl := Option.some.inj h
      rw [List.getElem?_append_right (Nat.le_of_eq (length_log _)), length_log, Nat.sub_self]
      exact ⟨_, rfl, record_of last _ _⟩
    · rw [List.getElem?_eq_none (by rw [List.length_append, List.length_singleton]; exact hn)] at h
      cases h

theorem linked_log (events : List Event) : Linked hashRecord Record.recordHash zeroHash (log events) := by
  induction events using List.reverseRecOn with
  | nil => trivial
  | append_singleton events e ih =>
    rw [log_snoc, extend, linked_append]
    exact ⟨ih, hash_record e _ _, trivial⟩

/-! ### The ring keeps the end of the log -/

structure Keeps (j : Journal) (records : List Record) : Prop where
  count : j.count = min records.length diskCapacity
  nextIndex : j.nextIndex = records.length % diskCapacity
  nextSequence : j.nextSequence = records.length + 1
  headHash : j.headHash = head Record.recordHash zeroHash records
  anchorHash : j.anchorHash = head Record.recordHash zeroHash (records.take (records.length - diskCapacity))
  records : Ring.Holds diskCapacity emptyRecord j.records records
  fits : ∀ r ∈ j.records, r.Fits

theorem fits_empty : emptyRecord.Fits := ⟨by decide, by decide, by decide, rfl, rfl⟩

theorem keeps_initial : Keeps initializeEmpty [] :=
  ⟨rfl, rfl, rfl, rfl, rfl, Ring.Holds.nil rfl, fun _ hr => (List.mem_replicate.mp hr).2 ▸ fits_empty⟩

/-- The journal after a call, if the record is taken. -/
def Journal.push (j : Journal) (record : Record) : Journal where
  count := if j.count < diskCapacity then j.count + 1 else j.count
  nextIndex := (j.nextIndex + 1) % diskCapacity
  nextSequence := j.nextSequence + 1
  anchorHash := if j.count = diskCapacity then (j.records.getD j.nextIndex emptyRecord).recordHash else j.anchorHash
  headHash := record.recordHash
  records := j.records.set j.nextIndex record

theorem appendTo_eq {j : Journal} (h : j.nextSequence ≠ 0xFFFFFFFF) (e : Event) :
    appendTo j e.tick.toNat e.action e.verdict e.path e.digest.bytes =
      some (j.push (e.record j.nextSequence j.headHash)) := by
  have hpath : Storage.pathCopy e.path 48 = some e.path := if_pos e.path_lt
  unfold appendTo
  rw [if_neg (not_or.mpr ⟨h, e.path_ne⟩), hpath]
  rfl

theorem Journal.Fits.push {j : Journal} (h : j.Fits) {r : Record} (hr : r.Fits) : (j.push r).Fits where
  anchorHash := by
    show (if j.count = diskCapacity then (j.records.getD j.nextIndex emptyRecord).recordHash else j.anchorHash).length = 32
    split
    · by_cases hi : j.nextIndex < j.records.length
      · rw [List.getD_eq_getElem _ _ hi]
        exact (h.record _ (List.getElem_mem hi)).recordHash
      · rw [List.getD_eq_default _ _ (Nat.not_lt.mp hi)]
        rfl
    · exact h.anchorHash
  headHash := hr.recordHash
  records := by
    show (j.records.set j.nextIndex r).length = diskCapacity
    rw [List.length_set]
    exact h.records
  record r' hr' := by
    rcases List.mem_or_eq_of_mem_set hr' with hr' | rfl
    · exact h.record r' hr'
    · exact hr

theorem appendTo_taken {j : Journal} (h : j.Fits) (hnext : j.nextSequence < 0xFFFFFFFF) (e : Event) :
    ∃ j', appendTo j e.tick.toNat e.action e.verdict e.path e.digest.bytes = some j' ∧ j'.Fits ∧
      j'.nextSequence = j.nextSequence + 1 := by
  have hrecord := record_of e j.nextSequence j.headHash
  exact ⟨j.push (e.record j.nextSequence j.headHash), appendTo_eq hnext.ne e, h.push (hrecord.fits (by omega)), rfl⟩

theorem anchor_push {j : Journal} {records : List Record} (h : Keeps j records) (r : Record) :
    (if j.count = diskCapacity then (j.records.getD j.nextIndex emptyRecord).recordHash else j.anchorHash) =
      head Record.recordHash zeroHash ((records ++ [r]).take (records.length + 1 - diskCapacity)) := by
  by_cases hfull : diskCapacity ≤ records.length
  · have hcount : j.count = diskCapacity := by rw [h.count, Nat.min_eq_right hfull]
    have hlt : records.length - diskCapacity < records.length := Nat.sub_lt (Nat.lt_of_lt_of_le (by decide) hfull) (by decide)
    have hslot : j.nextIndex = (records.length - diskCapacity) % diskCapacity := by
      rw [h.nextIndex, ← Nat.sub_add_cancel hfull, Nat.add_mod_right, Nat.add_sub_cancel]
    have hnext : records.length + 1 - diskCapacity = records.length - diskCapacity + 1 := Nat.succ_sub hfull
    rw [if_pos hcount, hslot, h.records.2 _ hlt (Nat.le_of_eq (Nat.sub_add_cancel hfull).symm), hnext,
      List.take_append_of_le_length (Nat.succ_le_of_lt hlt), List.take_add_one, List.getElem?_eq_getElem hlt,
      Option.toList_some, head_snoc, List.getD_eq_getElem _ _ hlt]
  · have hlt : records.length < diskCapacity := Nat.lt_of_not_le hfull
    have hcount : j.count ≠ diskCapacity := by
      rw [h.count, Nat.min_eq_left hlt.le]
      exact hlt.ne
    rw [if_neg hcount, h.anchorHash, Nat.sub_eq_zero_of_le hlt.le, Nat.sub_eq_zero_of_le (Nat.succ_le_of_lt hlt)]
    rfl

theorem keeps_push {j : Journal} {records : List Record} (h : Keeps j records) {r : Record} (hr : r.Fits) :
    Keeps (j.push r) (records ++ [r]) := by
  have hlen : (records ++ [r]).length = records.length + 1 := by rw [List.length_append, List.length_singleton]
  constructor
  · rw [hlen]
    show (if j.count < diskCapacity then j.count + 1 else j.count) = _
    rw [h.count]
    split
    · omega
    · omega
  · rw [hlen]
    show (j.nextIndex + 1) % diskCapacity = _
    rw [h.nextIndex, Nat.mod_add_mod]
  · rw [hlen]
    exact congrArg (· + 1) h.nextSequence
  · rw [head_snoc]
    rfl
  · rw [hlen]
    exact anchor_push h r
  · show Ring.Holds _ _ (j.records.set j.nextIndex r) _
    rw [h.nextIndex]
    exact h.records.push (by decide) r
  · intro r' hr'
    rcases List.mem_or_eq_of_mem_set hr' with hr' | rfl
    · exact h.fits r' hr'
    · exact hr

theorem appendAll_keeps (events : List Event) (h : events.length < 0xFFFFFFFF) :
    ∃ j, appendAll initializeEmpty events = some j ∧ Keeps j (log events) := by
  induction events using List.reverseRecOn with
  | nil => exact ⟨initializeEmpty, rfl, keeps_initial⟩
  | append_singleton events e ih =>
    rw [List.length_append, List.length_singleton] at h
    obtain ⟨j, hj, hkeeps⟩ := ih (Nat.lt_of_succ_lt h)
    have hnext : j.nextSequence ≠ 0xFFFFFFFF := by
      rw [hkeeps.nextSequence, length_log]
      exact h.ne
    refine ⟨j.push (e.record j.nextSequence j.headHash), ?_, ?_⟩
    · unfold appendAll at hj ⊢
      rw [List.foldlM_append, hj, Option.bind_eq_bind, Option.bind_some, List.foldlM_cons, appendTo_eq hnext,
        Option.bind_eq_bind, Option.bind_some, List.foldlM_nil]
      rfl
    · rw [log_snoc, extend, hkeeps.nextSequence, hkeeps.headHash]
      exact keeps_push hkeeps ((record_of e _ _).fits (by rw [length_log]; omega))

/-! ### Stored records pass the checks -/

theorem bytes_of_length {n : Nat} {b : Bytes} (h : b.length = n) : (Block.of b : Block n).bytes = b := by
  rw [Block.bytes_of h.le, h, Nat.sub_self, List.replicate_zero, List.append_nil]

theorem hash_disk {r : Record} (h : r.Fits) {previousHash : Bytes} (hprevious : previousHash.length = 32) :
    r.disk.hash (Block.of previousHash) = Block.of (hashRecord r previousHash) := by
  have hsequence : r.disk.sequence.toNat = r.sequence := UInt32.toNat_ofNat_of_lt h.sequence
  have htick : r.disk.tick.toNat = r.tick := UInt32.toNat_ofNat_of_lt h.tick
  have hlength : r.disk.pathLength.toNat = r.path.length :=
    UInt16.toNat_ofNat_of_lt (Nat.lt_of_le_of_lt h.path (by decide))
  have hpath : r.disk.path.bytes = field 48 r.path := bytes_of_length (length_field h.path)
  have hdigest : r.disk.digest.bytes = r.digest := bytes_of_length h.digest
  have hpieces : r.disk.pieces (Block.of previousHash) = [ascii "ZENOV-AUDIT-V1" ++ [0, 0], previousHash,
      le 4 r.sequence ++ le 4 r.tick ++ [r.action, r.verdict] ++ le 2 r.path.length, field 48 r.path, r.digest] := by
    unfold DiskRecord.pieces
    dsimp only
    rw [hsequence, htick, hlength, hpath, hdigest, bytes_of_length hprevious]
    rfl
  rw [DiskRecord.hash, hpieces, hashRecord]

theorem getD_field {n : Nat} (text : Bytes) : (field n text).getD text.length 0 = 0 := by
  rw [field, List.getD_append_right _ _ _ _ (Nat.le_refl _), Nat.sub_self, List.getD_eq_getElem?_getD, List.getElem?_replicate]
  split
  · rfl
  · rfl

theorem recordValid_disk {r : Record} {e : Event} {n : Nat} (h : r.Of e n) : recordValid r.disk = true := by
  have hlt : r.path.length < 48 := by rw [h.path]; exact e.path_lt
  have hlength : r.disk.pathLength.toNat = r.path.length := UInt16.toNat_ofNat_of_lt (Nat.lt_trans hlt (by decide))
  have hne : r.disk.pathLength ≠ 0 := by
    intro hzero
    rw [hzero, h.path] at hlength
    exact e.path_ne (List.length_eq_zero_iff.mp hlength.symm)
  have hpath : r.disk.path.bytes = field 48 r.path := bytes_of_length (length_field hlt.le)
  have haction : r.disk.action = e.action := h.action
  have hverdict : r.disk.verdict = e.verdict := h.verdict
  have hreserved : zeroBytes r.disk.reserved.bytes = true := by
    show zeroBytes (Block.of (List.replicate 4 0) : Block 4).bytes = true
    decide
  have hrest : ((field 48 r.path).drop (r.path.length + 1)).all (· = 0) = true := by
    rw [field, List.drop_append, List.drop_eq_nil_of_le (Nat.le_succ _), List.nil_append, List.drop_replicate,
      List.all_eq_true]
    intro byte hbyte
    rw [(List.mem_replicate.mp hbyte).2]
    rfl
  unfold recordValid
  dsimp only
  rw [hlength, hpath, haction, hverdict, getD_field, if_neg, hrest]
  simp only [not_or, not_not, UInt8.not_lt]
  exact ⟨e.action_le, e.verdict_le, hne, Nat.not_le_of_lt hlt, trivial, by rw [hreserved]; decide⟩

theorem mem_log {events : List Event} {r : Record} (h : r ∈ log events) : ∃ e ∈ events, ∃ n ≤ events.length, r.Of e n := by
  obtain ⟨n, hn⟩ := List.getElem?_of_mem h
  have hlt : n < events.length := by
    rw [← length_log]
    exact (List.getElem?_eq_some_iff.mp hn).1
  obtain ⟨r', hr', hof⟩ := log_of (List.getElem?_eq_getElem hlt)
  rw [hn] at hr'
  obtain rfl := Option.some.inj hr'
  exact ⟨_, List.getElem_mem hlt, n + 1, hlt, hof⟩

/-! ### The stored journal passes `verify` -/

theorem length_head {records : List Record} (h : ∀ r ∈ records, r.recordHash.length = 32) :
    (head Record.recordHash zeroHash records).length = 32 :=
  head_of_forall (P := fun hash : Bytes => hash.length = 32) List.length_replicate h

theorem Keeps.journalFits {j : Journal} {events : List Event} (h : Keeps j (log events)) : j.Fits := by
  have hhash : ∀ r ∈ log events, r.recordHash.length = 32 := by
    intro r hr
    obtain ⟨_, -, _, -, hof⟩ := mem_log hr
    exact hof.recordHash
  refine ⟨?_, ?_, h.records.1, h.fits⟩
  · rw [h.anchorHash]
    exact length_head fun r hr => hhash r (List.mem_of_mem_take hr)
  · rw [h.headHash]
    exact length_head hhash

section Stored
variable {j : Journal} {events : List Event} (h : Keeps j (log events)) (hlen : events.length < 0xFFFFFFFF)
include h

theorem count_disk : j.disk.header.count.toNat = min events.length diskCapacity := by
  show (UInt32.ofNat j.count).toNat = _
  rw [h.count, length_log]
  exact UInt32.toNat_ofNat_of_lt (Nat.lt_of_le_of_lt (Nat.min_le_right _ _) (by decide))

theorem nextIndex_disk : j.disk.header.nextIndex.toNat = events.length % diskCapacity := by
  show (UInt32.ofNat j.nextIndex).toNat = _
  rw [h.nextIndex, length_log]
  exact UInt32.toNat_ofNat_of_lt (Nat.lt_trans (Nat.mod_lt _ (by decide)) (by decide))

theorem first_disk : j.disk.first % diskCapacity = (events.length - min events.length diskCapacity) % diskCapacity := by
  have hcount := count_disk h
  unfold Image.first
  split
  · rename_i hfull
    rw [hfull] at hcount
    have hle : diskCapacity ≤ events.length := by
      have : (64 : UInt32).toNat = diskCapacity := rfl
      omega
    rw [nextIndex_disk h, Nat.min_eq_right hle, Nat.mod_mod, ← Nat.sub_add_cancel hle, Nat.add_mod_right,
      Nat.add_sub_cancel]
  · rename_i hfull
    have hne : min events.length diskCapacity ≠ diskCapacity := by
      intro he
      exact hfull (UInt32.toNat.inj (hcount.trans he))
    rw [Nat.min_eq_left (by omega), Nat.sub_self]

theorem window_disk : j.disk.window = ((log events).drop (events.length - diskCapacity)).map Record.disk := by
  have hwindow : j.disk.window =
      (Ring.window diskCapacity emptyRecord j.records j.disk.first (min events.length diskCapacity)).map Record.disk := by
    rw [Image.window, count_disk h, Ring.window, List.map_map]
    rfl
  have hfirst := first_disk h
  rw [← length_log events] at hfirst
  rw [hwindow, ← length_log events, h.records.window (Nat.min_le_left _ _) (Nat.min_le_right _ _) hfirst]
  congr 2
  omega

theorem record_disk {i : Nat} (hi : i < min events.length diskCapacity) :
    ∃ r ∈ log events, ∃ e, events[events.length - diskCapacity + i]? = some e ∧
      r.Of e (events.length - diskCapacity + i + 1) ∧ j.disk.record (j.disk.first + i) = r.disk := by
  have hlt : events.length - diskCapacity + i < events.length := by omega
  obtain ⟨r, hr, hof⟩ := log_of (List.getElem?_eq_getElem hlt)
  refine ⟨r, List.mem_of_getElem? hr, _, List.getElem?_eq_getElem hlt, hof, ?_⟩
  have hget := window_getElem? (j := j.disk) (n := i) (by rw [count_disk h]; exact hi)
  rw [window_disk h, List.getElem?_map, List.getElem?_drop, hr, Option.map_some] at hget
  exact (Option.some.inj hget).symm

include hlen

theorem nextSequence_disk : j.disk.header.nextSequence.toNat = events.length + 1 := by
  show (UInt32.ofNat j.nextSequence).toNat = _
  rw [h.nextSequence, length_log]
  exact UInt32.toNat_ofNat_of_lt (Nat.lt_of_lt_of_le (Nat.succ_lt_succ hlen) (by decide))

theorem linked_disk :
    Linked DiskRecord.hash DiskRecord.recordHash j.disk.header.anchorHash j.disk.window ∧
      head DiskRecord.recordHash j.disk.header.anchorHash j.disk.window = j.disk.header.headHash := by
  have hanchor : j.disk.header.anchorHash = Block.of j.anchorHash := rfl
  have hhead : j.disk.header.headHash = Block.of j.headHash := rfl
  have hfits : ∀ r ∈ (log events).drop (events.length - diskCapacity), r.Fits := by
    intro r hr
    obtain ⟨e, -, n, hn, hof⟩ := mem_log (List.mem_of_mem_drop hr)
    exact hof.fits (by omega)
  have hstored : ∀ r ∈ (log events).drop (events.length - diskCapacity),
      DiskRecord.recordHash (Record.disk r) = Block.of (Record.recordHash r) := fun _ _ => rfl
  have hhash : ∀ r ∈ (log events).drop (events.length - diskCapacity), ∀ p : Bytes, p.length = 32 →
      DiskRecord.hash (Record.disk r) (Block.of p) = Block.of (hashRecord r p) := fun r hr _ hp => hash_disk (hfits r hr) hp
  have hlinked := (linked_log events).drop (events.length - diskCapacity)
  have hstart := h.anchorHash
  rw [length_log] at hstart
  rw [hanchor, hhead, window_disk h]
  constructor
  · rw [← hstart] at hlinked
    exact hlinked.map (P := fun hash : Bytes => hash.length = 32) hstored (fun r hr => (hfits r hr).recordHash) hhash
      h.journalFits.anchorHash
  · rw [head_map hstored, hstart, h.headHash, ← head_append, List.take_append_drop]

theorem sequence_disk {i : Nat} (hi : i < min events.length diskCapacity) :
    (j.disk.record (j.disk.first + i)).sequence =
      j.disk.header.nextSequence - j.disk.header.count + UInt32.ofNat i := by
  obtain ⟨r, -, e, -, hof, hrecord⟩ := record_disk h hi
  have hcount : j.disk.header.count = UInt32.ofNat (min events.length diskCapacity) := by
    rw [← count_disk h, UInt32.ofNat_toNat]
  have hnext : j.disk.header.nextSequence =
      UInt32.ofNat (events.length - diskCapacity + 1) + UInt32.ofNat (min events.length diskCapacity) := by
    rw [← UInt32.ofNat_toNat (x := j.disk.header.nextSequence), nextSequence_disk h hlen, ← UInt32.ofNat_add]
    congr 1
    omega
  rw [hrecord, hnext, hcount, UInt32.add_sub_cancel, ← UInt32.ofNat_add]
  show UInt32.ofNat r.sequence = _
  rw [hof.sequence, Nat.add_right_comm]

theorem verify_disk : verify j.disk = true := by
  have hcount := count_disk h
  have hindex := nextIndex_disk h
  have hnext := nextSequence_disk h hlen
  have hreserved : zeroBytes j.disk.header.reserved.bytes = true := by
    show zeroBytes (Block.of (List.replicate 8 0) : Block 8).bytes = true
    decide
  have hstart : events.length ≤ diskCapacity → j.disk.header.anchorHash = Block.of zeroHash := by
    intro hle
    show Block.of j.anchorHash = _
    rw [h.anchorHash, length_log, Nat.sub_eq_zero_of_le hle]
    rfl
  have hzero : zeroBytes (Block.of zeroHash : Block 32).bytes = true := by decide
  have hcapacity : diskCapacity = 64 := rfl
  have hcount_le : ¬64 < j.disk.header.count := by
    rw [UInt32.lt_iff_toNat_lt, hcount]
    exact Nat.not_lt.mpr (Nat.min_le_right _ _)
  have hindex_lt : ¬64 ≤ j.disk.header.nextIndex := by
    rw [UInt32.le_iff_toNat_le, hindex]
    exact Nat.not_le_of_lt (Nat.mod_lt _ (by decide))
  have hnext_ne : j.disk.header.nextSequence ≠ 0 := by
    intro hzero
    rw [hzero] at hnext
    exact absurd hnext (Nat.zero_ne_add_one _)
  unfold verify
  dsimp only
  rw [if_neg (by
    simp only [not_or, not_not, hreserved]
    exact ⟨rfl, rfl, rfl, rfl, rfl, hcount_le, hindex_lt, hnext_ne, Bool.false_ne_true⟩)]
  split
  · rename_i hnone
    have hnil : events = [] := by
      rw [hnone] at hcount
      have hmin : 0 = min events.length diskCapacity := hcount
      rw [← List.length_eq_zero_iff]
      omega
    subst hnil
    have hhead : j.disk.header.headHash = Block.of zeroHash := congrArg Block.of h.headHash
    rw [hhead, hstart (Nat.zero_le _), hzero, Bool.and_true, Bool.and_true, Bool.and_eq_true, decide_eq_true_eq,
      decide_eq_true_eq]
    exact ⟨UInt32.toNat.inj hindex, UInt32.toNat.inj hnext⟩
  · rw [if_neg (by rw [UInt32.le_iff_toNat_le, hcount, hnext]; omega), if_neg, decide_eq_true_eq, verifyRecords_eq_some,
      ← window_eq_run]
    · refine ⟨fun i hi => ?_, linked_disk h hlen⟩
      rw [hcount] at hi
      rw [Nat.zero_add]
      obtain ⟨r, -, e, -, hof, hrecord⟩ := record_disk h hi
      refine ⟨?_, sequence_disk h hlen hi⟩
      rw [hrecord]
      exact recordValid_disk hof
    · -- a ring that is not full has not turned yet
      rintro ⟨hlt, hwrong⟩
      rw [UInt32.lt_iff_toNat_lt, hcount] at hlt
      have hshort : events.length < diskCapacity := by
        have h64 : (64 : UInt32).toNat = diskCapacity := rfl
        omega
      rcases hwrong with hwrong | hwrong
      · refine hwrong (UInt32.toNat.inj ?_)
        rw [hindex, hcount, Nat.mod_eq_of_lt hshort, Nat.min_eq_left hshort.le]
      · rw [hstart hshort.le, hzero] at hwrong
        cases hwrong

end Stored

/-! ### Every run of `append_to` -/

/-- The fields of an event as a stored record has them. -/
structure DiskRecord.Stores (r : DiskRecord) (e : Event) (sequence : Nat) : Prop where
  sequence : r.sequence.toNat = sequence
  tick : r.tick = e.tick
  action : r.action = e.action
  verdict : r.verdict = e.verdict
  pathLength : r.pathLength.toNat = e.path.length
  path : r.path.bytes = field 48 e.path
  digest : r.digest = e.digest

/-- The image holds the last events in order, each linked to the record that was written before it. -/
structure Image.Recent (image : Image) (events : List Event) : Prop where
  count : image.header.count.toNat = min events.length diskCapacity
  stores : ∀ i < min events.length diskCapacity, ∃ e, events[events.length - diskCapacity + i]? = some e ∧
    (image.record (image.first + i)).Stores e (events.length - diskCapacity + i + 1)
  chained : ∀ i < min events.length diskCapacity,
    (image.record (image.first + i)).hash (image.previous i) = (image.record (image.first + i)).recordHash
  anchor : image.previous 0 =
    Block.of (head Record.recordHash zeroHash ((log events).take (events.length - diskCapacity)))
  headHash : image.header.headHash = Block.of (head Record.recordHash zeroHash (log events))

theorem Record.Of.stores {r : Record} {e : Event} {n : Nat} (h : r.Of e n) (hn : n < 2 ^ 32) : r.disk.Stores e n where
  sequence := by
    show (UInt32.ofNat r.sequence).toNat = n
    rw [h.sequence]
    exact UInt32.toNat_ofNat_of_lt hn
  tick := by
    show UInt32.ofNat r.tick = e.tick
    rw [h.tick, UInt32.ofNat_toNat]
  action := h.action
  verdict := h.verdict
  pathLength := by
    show (UInt16.ofNat r.path.length).toNat = _
    rw [h.path]
    exact UInt16.toNat_ofNat_of_lt (Nat.lt_trans e.path_lt (by decide))
  path := by
    show (Block.of (field 48 r.path) : Block 48).bytes = _
    rw [h.path, bytes_of_length (length_field e.path_lt.le)]
  digest := by
    show Block.of r.digest = e.digest
    rw [h.digest, Block.of_bytes]

theorem chained_of_linked {image : Image}
    (h : Linked DiskRecord.hash DiskRecord.recordHash image.header.anchorHash image.window) {i : Nat}
    (hi : i < image.header.count.toNat) :
    (image.record (image.first + i)).hash (image.previous i) = (image.record (image.first + i)).recordHash := by
  have hdrop := h.drop i
  have hsplit : image.window.drop i = image.record (image.first + i) :: image.window.drop (i + 1) := by
    have hlt : i < image.window.length := by rw [length_window]; exact hi
    rw [List.drop_eq_getElem_cons hlt]
    congr 1
    exact Option.some.inj ((List.getElem?_eq_getElem hlt).symm.trans (window_getElem? hi))
  rw [hsplit, head_take hi.le] at hdrop
  exact hdrop.1

theorem appendAll_verify (events : List Event) (h : events.length < 0xFFFFFFFF) :
    ∃ j, appendAll initializeEmpty events = some j ∧ verify (Image.decode j.encode) = true ∧
      (Image.decode j.encode).Recent events := by
  obtain ⟨j, hj, hkeeps⟩ := appendAll_keeps events h
  refine ⟨j, hj, ?_⟩
  rw [decode_journal hkeeps.journalFits]
  refine ⟨verify_disk hkeeps h, ?_⟩
  have hcount := count_disk hkeeps
  refine ⟨hcount, fun i hi => ?_, fun i hi => ?_, ?_, ?_⟩
  · obtain ⟨r, -, e, he, hof, hrecord⟩ := record_disk hkeeps hi
    rw [hrecord]
    exact ⟨e, he, hof.stores (by omega)⟩
  · exact chained_of_linked (linked_disk hkeeps h).1 (hcount ▸ hi)
  · show Block.of j.anchorHash = _
    rw [hkeeps.anchorHash, length_log]
  · exact congrArg Block.of hkeeps.headHash

/-- One event. -/
def sampleEvent : Event where
  tick := 7
  action := AuditAction.scan.code
  verdict := Verdict.infected.code
  path := ascii "/data/tool.zex"
  digest := Block.of (ascii "digest")
  action_le := by decide
  verdict_le := by decide
  path_ne := by decide
  path_lt := by decide

theorem appendAll_verify_sample :
    ∃ j, appendAll initializeEmpty (List.replicate 70 sampleEvent) = some j ∧ verify (Image.decode j.encode) = true ∧
      (Image.decode j.encode).Recent (List.replicate 70 sampleEvent) :=
  appendAll_verify (List.replicate 70 sampleEvent) (by rw [List.length_replicate]; decide)

end ZenovOS.Security.Audit
