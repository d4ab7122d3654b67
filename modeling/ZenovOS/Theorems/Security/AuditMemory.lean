import ZenovOS.Security.AuditMemory
import ZenovOS.Theorems.Security.AuditChain

/-! # The audit journal in memory stays verified

A call of `append` that fails leaves the journal as it was. One that succeeds writes the next record of the chain, so that
`verify` accepts the journal after it as before. -/

namespace ZenovOS.Security.Audit
open Bytes Storage HashChain

/-! ### A failed append -/

theorem appendInPlace_records (j : Image) (arguments : Arguments) {i : Fin diskCapacity} (hi : i ≠ j.nextSlot) :
    (appendInPlace j arguments).1.records i = j.records i := by
  have hanchor : j.moveAnchor.records = j.records := by
    unfold Image.moveAnchor
    split <;> rfl
  unfold appendInPlace
  split
  · split
    · rfl
    · dsimp only
      split
      · simp only [Image.setRecord, if_neg hi, hanchor]
      · simp only [Image.setRecord, if_neg hi, hanchor]
  · rfl

theorem restored (j : Image) (arguments : Arguments) :
    ({ (appendInPlace j arguments).1.setRecord j.nextSlot (j.records j.nextSlot) with header := j.header } : Image) = j := by
  refine congrArg (Image.mk j.header) (funext fun i => ?_)
  show (if i = j.nextSlot then j.records j.nextSlot else (appendInPlace j arguments).1.records i) = j.records i
  split
  · rename_i hi
    rw [hi]
  · rename_i hi
    exact appendInPlace_records j arguments hi

section Restore
variable {σ : Type} (writeFile : Image → σ → σ × Bool)

/-- What a call of `append` does: nothing, or it fails and only the file system and `ready` change, or the record is there. -/
theorem appendRestoring_cases (s : JournalState σ) (arguments : Arguments) :
    (s.ready = false ∧ appendRestoring writeFile s arguments = (s, false)) ∨
    (s.ready = true ∧ ∃ disk, appendRestoring writeFile s arguments = ({ s with ready := false, disk }, false)) ∨
    (s.ready = true ∧ ∃ journal disk, appendInPlace s.journal arguments = (journal, true) ∧
      appendRestoring writeFile s arguments =
        ({ s with journal, disk, persistentAppends := s.persistentAppends + 1 }, true)) := by
  have hback := restored s.journal arguments
  obtain ⟨old, ready, replayed, persistentAppends, disk⟩ := s
  unfold appendRestoring
  cases ready with
  | false => exact .inl ⟨rfl, rfl⟩
  | true =>
    refine .inr ?_
    dsimp only at hback ⊢
    rw [if_neg (by decide)]
    generalize appendInPlace old arguments = result at hback ⊢
    obtain ⟨journal, done⟩ := result
    cases done with
    | false => exact .inl ⟨rfl, disk, congrArg (fun j => (JournalState.mk j false replayed persistentAppends disk, false)) hback⟩
    | true =>
      dsimp only
      generalize writeFile journal disk = written
      obtain ⟨next, stored⟩ := written
      cases stored with
      | false => exact .inl ⟨rfl, next, congrArg (fun j => (JournalState.mk j false replayed persistentAppends next, false)) hback⟩
      | true => exact .inr ⟨rfl, journal, next, rfl, rfl⟩

/-- A failed call leaves the header and the records, and `append` is off if it was attempted. -/
theorem appendRestoring_failed (s : JournalState σ) (arguments : Arguments)
    (h : (appendRestoring writeFile s arguments).2 = false) :
    (appendRestoring writeFile s arguments).1.journal = s.journal ∧
      (s.ready = true → (appendRestoring writeFile s arguments).1.ready = false) := by
  rcases appendRestoring_cases writeFile s arguments with ⟨hoff, heq⟩ | ⟨-, disk, heq⟩ | ⟨-, journal, disk, -, heq⟩
  · rw [heq]
    exact ⟨rfl, fun hon => absurd (hoff.symm.trans hon) Bool.false_ne_true⟩
  · rw [heq]
    exact ⟨rfl, fun _ => rfl⟩
  · rw [heq] at h
    cases h

end Restore

/-! ### What `verify` checks -/

/-- A journal that `verify` accepts. -/
structure Verified (j : Image) : Prop where
  magic : j.header.magic = Block.of (ascii "ZGAL")
  schema : j.header.schema = schemaVersion
  headerSize : j.header.headerSize = 96
  recordSize : j.header.recordSize = 128
  capacity : j.header.capacity = 64
  reserved : zeroBytes j.header.reserved.bytes = true
  count_le : j.header.count.toNat ≤ 64
  index_lt : j.header.nextIndex.toNat < 64
  ahead : j.header.count.toNat < j.header.nextSequence.toNat
  first : j.header.count = 0 → j.header.nextSequence = 1
  short : j.header.count.toNat < 64 → j.header.nextIndex = j.header.count ∧ zeroBytes j.header.anchorHash.bytes = true
  valid : ∀ k < j.header.count.toNat, recordValid (j.record (j.first + k)) = true
  sequence : ∀ k < j.header.count.toNat,
    (j.record (j.first + k)).sequence.toNat + j.header.count.toNat = j.header.nextSequence.toNat + k
  linked : Linked DiskRecord.hash DiskRecord.recordHash j.header.anchorHash j.window
  head : head DiskRecord.recordHash j.header.anchorHash j.window = j.header.headHash

theorem sequence_iff {next count sequence : UInt32} {k : Nat} (hahead : count.toNat < next.toNat) (hk : k < count.toNat) :
    sequence = next - count + UInt32.ofNat k ↔ sequence.toNat + count.toNat = next.toNat + k := by
  have hnext := next.toNat_lt
  have hsub : (next - count).toNat = next.toNat - count.toNat := UInt32.toNat_sub_of_le _ _ (UInt32.le_iff_toNat_le.mpr hahead.le)
  have hofNat : (UInt32.ofNat k).toNat = k := UInt32.toNat_ofNat_of_lt' (show k < 2 ^ 32 by omega)
  have hsum : (next - count + UInt32.ofNat k).toNat = next.toNat - count.toNat + k := by
    rw [UInt32.toNat_add, hsub, hofNat]
    exact Nat.mod_eq_of_lt (by omega)
  rw [← UInt32.toNat_inj, hsum]
  omega

theorem verify_eq_true_iff (j : Image) : verify j = true ↔ Verified j := by
  have hcount_le : 64 < j.header.count ↔ 64 < j.header.count.toNat := UInt32.lt_iff_toNat_lt
  have hindex_le : 64 ≤ j.header.nextIndex ↔ 64 ≤ j.header.nextIndex.toNat := UInt32.le_iff_toNat_le
  have hnext_le : j.header.nextSequence ≤ j.header.count ↔ j.header.nextSequence.toNat ≤ j.header.count.toNat :=
    UInt32.le_iff_toNat_le
  have hshort : j.header.count < 64 ↔ j.header.count.toNat < 64 := UInt32.lt_iff_toNat_lt
  have hzero : j.header.count = 0 ↔ j.header.count.toNat = 0 := UInt32.toNat_inj.symm
  have hrecords : j.header.count.toNat < j.header.nextSequence.toNat →
      (decide (j.verifyRecords j.first (j.header.nextSequence - j.header.count) j.header.count.toNat 0 j.header.anchorHash =
        some j.header.headHash) = true ↔
      (∀ k < j.header.count.toNat, recordValid (j.record (j.first + k)) = true ∧
        (j.record (j.first + k)).sequence.toNat + j.header.count.toNat = j.header.nextSequence.toNat + k) ∧
      Linked DiskRecord.hash DiskRecord.recordHash j.header.anchorHash j.window ∧
        head DiskRecord.recordHash j.header.anchorHash j.window = j.header.headHash) := by
    intro hahead
    rw [decide_eq_true_eq, verifyRecords_eq_some, ← window_eq_run]
    refine and_congr_left' (forall₂_congr fun k hk => ?_)
    rw [Nat.zero_add, sequence_iff hahead hk]
  unfold verify
  dsimp only
  constructor
  · intro h
    split at h
    · cases h
    rename_i hguard
    simp only [not_or, not_not, Bool.not_eq_true', Bool.not_eq_false] at hguard
    obtain ⟨hmagic, hschema, hheader, hrecord, hcapacity, hle, hlt, hnext, hreserved⟩ := hguard
    rw [hcount_le] at hle
    rw [hindex_le] at hlt
    split at h
    · rename_i hnone
      simp only [Bool.and_eq_true, decide_eq_true_eq] at h
      obtain ⟨⟨⟨hindex, hone⟩, hanchor⟩, hhead⟩ := h
      have hempty : j.window = [] := by
        rw [Image.window, hnone]
        rfl
      refine ⟨hmagic, hschema, hheader, hrecord, hcapacity, hreserved, Nat.le_of_not_lt hle, Nat.lt_of_not_le hlt, ?_, fun _ => hone,
        fun _ => ⟨hindex.trans hnone.symm, hanchor⟩, fun k hk => ?_, fun k hk => ?_, ?_, ?_⟩
      · rw [hnone, hone]
        decide
      · rw [hnone] at hk
        exact absurd hk (Nat.not_lt_zero k)
      · rw [hnone] at hk
        exact absurd hk (Nat.not_lt_zero k)
      · rw [hempty]
        trivial
      · rw [hempty]
        exact eq_of_zeroBytes hanchor hhead
    · rename_i hsome
      split at h
      · cases h
      rename_i hahead
      split at h
      · cases h
      rename_i hfilled
      have hahead := Nat.lt_of_not_le (fun hle => hahead (hnext_le.mpr hle))
      obtain ⟨hchecked, hlinked, hhead⟩ := (hrecords hahead).mp h
      refine ⟨hmagic, hschema, hheader, hrecord, hcapacity, hreserved, Nat.le_of_not_lt hle, Nat.lt_of_not_le hlt, hahead,
        fun hnone => absurd hnone hsome, fun hlt => ?_, fun k hk => (hchecked k hk).1, fun k hk => (hchecked k hk).2, hlinked, hhead⟩
      have hfilled := fun hwrong => hfilled ⟨hshort.mpr hlt, hwrong⟩
      exact ⟨not_not.mp fun hne => hfilled (.inl hne), by simpa using fun hne => hfilled (.inr hne)⟩
  · intro h
    have hnext : j.header.nextSequence ≠ 0 := fun hzero => by
      have hahead := h.ahead
      rw [hzero] at hahead
      exact absurd hahead (Nat.not_lt_zero _)
    rw [if_neg (by
      simp only [not_or, not_not, hcount_le, hindex_le, h.reserved]
      exact ⟨h.magic, h.schema, h.headerSize, h.recordSize, h.capacity, Nat.not_lt.mpr h.count_le, Nat.not_le.mpr h.index_lt,
        hnext, by decide⟩)]
    by_cases hnone : j.header.count = 0
    · have hempty : j.window = [] := by
        rw [Image.window, hnone]
        rfl
      obtain ⟨hindex, hanchor⟩ := h.short (by rw [hnone]; decide)
      have hhead := h.head
      rw [hempty] at hhead
      rw [if_pos hnone, ← hhead, hindex, hnone, h.first hnone]
      simp [head, hanchor]
    · rw [if_neg hnone, if_neg (by rw [hnext_le]; exact Nat.not_le.mpr h.ahead), if_neg, hrecords h.ahead]
      · exact ⟨fun k hk => ⟨h.valid k hk, h.sequence k hk⟩, h.linked, h.head⟩
      · rintro ⟨hlt, hwrong⟩
        obtain ⟨hindex, hanchor⟩ := h.short (hshort.mp hlt)
        rcases hwrong with hwrong | hwrong
        · exact hwrong hindex
        · rw [hanchor] at hwrong
          cases hwrong

/-! ### The next record -/

/-- The journal with the next record. -/
def Image.push (j : Image) (record : DiskRecord) : Image :=
  let header := j.moveAnchor.header
  { j.moveAnchor.setRecord j.nextSlot record with
    header := { header with
      count := if header.count < 64 then header.count + 1 else header.count
      nextIndex := (header.nextIndex + 1) % 64
      nextSequence := header.nextSequence + 1
      headHash := record.recordHash } }

/-- The record of a call, but for its hash. -/
def Arguments.opened (arguments : Arguments) (sequence : UInt32) (text : Bytes) (digest : Block 32) : DiskRecord :=
  ⟨sequence, arguments.tick, arguments.action, arguments.verdict, UInt16.ofNat text.length, Block.of text, digest, Block.of [],
    Block.of []⟩

def Arguments.record (arguments : Arguments) (sequence : UInt32) (headHash : Block 32) (text : Bytes) (digest : Block 32) : DiskRecord :=
  { arguments.opened sequence text digest with recordHash := (arguments.opened sequence text digest).hash headHash }

theorem moveAnchor_header (j : Image) : j.moveAnchor.header = { j.header with anchorHash := j.moveAnchor.header.anchorHash } := by
  unfold Image.moveAnchor
  split <;> rfl

theorem appendInPlace_push {j journal : Image} {arguments : Arguments} (h : appendInPlace j arguments = (journal, true)) :
    ∃ text digest, j.header.nextSequence ≠ 0xFFFFFFFF ∧ text ≠ [] ∧ text.length < 48 ∧
      journal = j.push (arguments.record j.header.nextSequence j.header.headHash text digest) := by
  have hheader := moveAnchor_header j
  have hsequence : j.moveAnchor.header.nextSequence = j.header.nextSequence := by rw [hheader]
  have hhead : j.moveAnchor.header.headHash = j.header.headHash := by rw [hheader]
  unfold appendInPlace at h
  split at h
  swap
  · cases h
  rename_i path digest _ _
  split at h
  · cases h
  rename_i hchecks
  dsimp only at h
  split at h
  · cases h
  rename_i text hcopy
  unfold pathCopy at hcopy
  split at hcopy
  swap
  · cases hcopy
  rename_i hlen
  obtain rfl := Option.some.inj hcopy
  obtain ⟨hnext, htext⟩ := not_or.mp hchecks
  refine ⟨path.text, digest, hnext, htext, hlen, ?_⟩
  rw [← hsequence, ← hhead, ← (Prod.mk.inj h).1]
  rfl

theorem record_valid {arguments : Arguments} {text : Bytes} (haction : arguments.action ≤ AuditAction.readAudit.code)
    (hverdict : arguments.verdict ≤ Verdict.error.code) (htext : text ≠ []) (hlen : text.length < 48) (sequence : UInt32)
    (headHash digest : Block 32) : recordValid (arguments.record sequence headHash text digest) = true := by
  have hlength : (UInt16.ofNat text.length).toNat = text.length := UInt16.toNat_ofNat_of_lt' (show text.length < 2 ^ 16 by omega)
  have hpath : (Block.of text : Block 48).bytes = text ++ List.replicate (48 - text.length) 0 := Block.bytes_of hlen.le
  have hne : UInt16.ofNat text.length ≠ 0 := by
    intro hzero
    rw [hzero] at hlength
    exact htext (List.length_eq_zero_iff.mp hlength.symm)
  have hend : (Block.of text : Block 48).bytes.getD text.length 0 = 0 := by
    rw [hpath, List.getD_append_right _ _ _ _ (Nat.le_refl _), Nat.sub_self, List.getD_replicate 0 (by omega)]
  have hrest : ((Block.of text : Block 48).bytes.drop (text.length + 1)).all (· = 0) = true := by
    rw [hpath, List.drop_append, List.drop_eq_nil_of_le (Nat.le_succ _), List.nil_append, Nat.add_sub_cancel_left, List.drop_replicate]
    exact List.all_eq_true.mpr fun byte hbyte => decide_eq_true (List.eq_of_mem_replicate hbyte)
  have hreserved : zeroBytes (Block.of [] : Block 4).bytes = true := by decide
  unfold recordValid Arguments.record Arguments.opened
  dsimp only
  rw [hlength, if_neg, hrest]
  simp only [not_or, UInt8.not_lt, Nat.not_le, not_not, hreserved, hend]
  exact ⟨haction, hverdict, hne, hlen, trivial, by decide⟩

theorem hash_seal (r : DiskRecord) (recordHash previousHash : Block 32) :
    ({ r with recordHash } : DiskRecord).hash previousHash = r.hash previousHash := by
  have hpieces : ({ r with recordHash } : DiskRecord).pieces previousHash = r.pieces previousHash := rfl
  unfold DiskRecord.hash
  rw [hpieces]

theorem record_hash (arguments : Arguments) (sequence : UInt32) (headHash : Block 32) (text : Bytes) (digest : Block 32) :
    (arguments.record sequence headHash text digest).hash headHash =
      (arguments.record sequence headHash text digest).recordHash := hash_seal (arguments.opened sequence text digest) _ headHash

section Push
variable {j : Image} {r : DiskRecord}

theorem push_header (j : Image) (r : DiskRecord) : (j.push r).header = { j.header with
    count := if j.header.count < 64 then j.header.count + 1 else j.header.count
    nextIndex := (j.header.nextIndex + 1) % 64
    nextSequence := j.header.nextSequence + 1
    anchorHash := j.moveAnchor.header.anchorHash
    headHash := r.recordHash } := by
  unfold Image.push
  dsimp only
  rw [moveAnchor_header]

/-- One record leaves the chain when the ring is full. -/
def Image.leaving (j : Image) : Nat := if j.header.count.toNat < 64 then 0 else 1

theorem push_record (j : Image) (r : DiskRecord) (n : Nat) :
    (j.push r).record n = if n % 64 = j.header.nextIndex.toNat % 64 then r else j.record n := by
  have hrecords : j.moveAnchor.records = j.records := by
    unfold Image.moveAnchor
    split <;> rfl
  have hslot : Fin.ofNat diskCapacity n = j.nextSlot ↔ n % 64 = j.header.nextIndex.toNat % 64 := Fin.ext_iff
  unfold Image.record Image.push Image.setRecord
  dsimp only
  rw [hrecords]
  by_cases hn : n % 64 = j.header.nextIndex.toNat % 64
  · rw [if_pos (hslot.mpr hn), if_pos hn]
  · rw [if_neg (fun heq => hn (hslot.mp heq)), if_neg hn]

theorem record_mod (j : Image) (n : Nat) : j.record (n % 64) = j.record n := by
  unfold Image.record
  exact congrArg j.records (Fin.ext (Nat.mod_mod n 64))

theorem push_sequence (hnext : j.header.nextSequence ≠ 0xFFFFFFFF) :
    (j.push r).header.nextSequence.toNat = j.header.nextSequence.toNat + 1 := by
  have hlt := j.header.nextSequence.toNat_lt
  have hne : j.header.nextSequence.toNat ≠ 0xFFFFFFFF := fun heq => hnext (UInt32.toNat_inj.mp heq)
  rw [push_header]
  dsimp only
  rw [UInt32.toNat_add]
  exact Nat.mod_eq_of_lt (by show j.header.nextSequence.toNat + 1 < 2 ^ 32; omega)

theorem first_eq : j.first = if j.header.count.toNat = 64 then j.header.nextIndex.toNat else 0 := by
  have hfull : j.header.count = 64 ↔ j.header.count.toNat = 64 := UInt32.toNat_inj.symm
  unfold Image.first
  by_cases hcount : j.header.count = 64
  · rw [if_pos hcount, if_pos (hfull.mp hcount)]
  · rw [if_neg hcount, if_neg (fun heq => hcount (hfull.mpr heq))]

variable (h : Verified j)
include h

theorem push_count : (j.push r).header.count.toNat = j.header.count.toNat - j.leaving + 1 := by
  have hle := h.count_le
  have hlt : j.header.count < 64 ↔ j.header.count.toNat < 64 := UInt32.lt_iff_toNat_lt
  rw [push_header]
  unfold Image.leaving
  dsimp only
  by_cases hfull : j.header.count.toNat < 64
  · rw [if_pos (hlt.mpr hfull), if_pos hfull, UInt32.toNat_add]
    exact Nat.mod_eq_of_lt (by show j.header.count.toNat + 1 < 2 ^ 32; omega)
  · rw [if_neg (fun hcount => hfull (hlt.mp hcount)), if_neg hfull]
    omega

theorem push_index : (j.push r).header.nextIndex.toNat = (j.header.nextIndex.toNat + 1) % 64 := by
  have hlt := h.index_lt
  have hsum : (j.header.nextIndex + 1).toNat = j.header.nextIndex.toNat + 1 := by
    rw [UInt32.toNat_add]
    exact Nat.mod_eq_of_lt (by show j.header.nextIndex.toNat + 1 < 2 ^ 32; omega)
  rw [push_header]
  dsimp only
  rw [UInt32.toNat_mod, hsum]
  rfl

theorem leaving_eq : j.leaving = if j.header.count.toNat = 64 then 1 else 0 := by
  have hle := h.count_le
  unfold Image.leaving
  split <;> split <;> omega

theorem first_count : (j.first + j.header.count.toNat) % 64 = j.header.nextIndex.toNat := by
  have hlt := h.index_lt
  rw [first_eq]
  split
  · omega
  · have hle := h.count_le
    have hindex := (h.short (by omega)).1
    rw [hindex]
    omega

theorem push_first : (j.push r).first = (j.first + j.leaving) % 64 := by
  have hcount := push_count (r := r) h
  have hlast := first_count h
  have hlt := h.index_lt
  have hle := h.count_le
  have hleaving := leaving_eq h
  have hfirst := first_eq (j := j)
  by_cases hfull : j.header.count.toNat = 64
  · rw [if_pos hfull] at hleaving hfirst
    rw [first_eq, hcount, hfirst, hleaving, hfull, if_pos rfl, push_index h]
  · rw [if_neg hfull] at hleaving hfirst
    rw [first_eq, hcount, hfirst, hleaving, push_index h]
    rw [hfirst] at hlast
    split <;> omega

theorem push_stays {k : Nat} (hk : k < j.header.count.toNat - j.leaving) :
    (j.push r).record ((j.push r).first + k) = j.record (j.first + (j.leaving + k)) := by
  have hlast := first_count h
  have hle := h.count_le
  have hstay : j.header.count.toNat - j.leaving < 64 := by
    rw [leaving_eq h]
    split <;> omega
  have hplace : ((j.push r).first + k) % 64 = (j.first + (j.leaving + k)) % 64 := by
    rw [push_first h]
    omega
  have hother : ((j.push r).first + k) % 64 ≠ j.header.nextIndex.toNat % 64 := by
    rw [hplace]
    omega
  rw [push_record, if_neg hother, ← record_mod, hplace, record_mod]

theorem push_new : (j.push r).record ((j.push r).first + (j.header.count.toNat - j.leaving)) = r := by
  have hlast := first_count h
  have hlt := h.index_lt
  have hle : j.leaving ≤ j.header.count.toNat := by
    rw [leaving_eq h]
    split <;> omega
  have hplace : ((j.push r).first + (j.header.count.toNat - j.leaving)) % 64 = j.header.nextIndex.toNat % 64 := by
    rw [push_first h]
    omega
  rw [push_record, if_pos hplace]

theorem window_push : (j.push r).window = j.window.drop j.leaving ++ [r] := by
  have hcount := push_count (r := r) h
  have hdrop : j.window.drop j.leaving =
      (List.range (j.header.count.toNat - j.leaving)).map fun k => j.record (j.first + (j.leaving + k)) := by
    unfold Image.window
    rw [← List.map_drop, List.range_eq_range', List.drop_range', List.range'_eq_map_range, List.map_map]
    refine List.map_congr_left fun k _ => ?_
    simp
  have hstays : (List.range (j.header.count.toNat - j.leaving)).map (fun k => (j.push r).record ((j.push r).first + k)) =
      (List.range (j.header.count.toNat - j.leaving)).map fun k => j.record (j.first + (j.leaving + k)) :=
    List.map_congr_left fun k hk => push_stays h (List.mem_range.mp hk)
  rw [hdrop, ← hstays]
  unfold Image.window
  rw [hcount, List.range_succ, List.map_append, List.map_singleton, push_new h]

theorem push_anchor : (j.push r).header.anchorHash = j.previous j.leaving := by
  have hfull : j.header.count = 64 ↔ j.header.count.toNat = 64 := UInt32.toNat_inj.symm
  have hleaving := leaving_eq h
  rw [push_header, hleaving]
  dsimp only
  unfold Image.moveAnchor
  by_cases hcount : j.header.count = 64
  · rw [if_pos hcount, if_pos (hfull.mp hcount)]
    show (j.records j.nextSlot).recordHash = (j.record (j.first + 0)).recordHash
    rw [first_eq, if_pos (hfull.mp hcount)]
    rfl
  · rw [if_neg hcount, if_neg (fun heq => hcount (hfull.mpr heq))]
    rfl

theorem Verified.push (hnext : j.header.nextSequence ≠ 0xFFFFFFFF) (hvalid : recordValid r = true)
    (hsequence : r.sequence = j.header.nextSequence) (hhash : r.hash j.header.headHash = r.recordHash) : Verified (j.push r) := by
  have hcount := push_count (r := r) h
  have hnumber := push_sequence (r := r) hnext
  have hahead := h.ahead
  have hle := h.count_le
  have hleaving := leaving_eq h
  have hcut : j.leaving ≤ j.header.count.toNat := by
    rw [hleaving]
    split <;> omega
  have hanchor : (j.push r).header.anchorHash = HashChain.head DiskRecord.recordHash j.header.anchorHash (j.window.take j.leaving) := by
    rw [push_anchor h, head_take hcut]
  have hbefore : HashChain.head DiskRecord.recordHash (j.push r).header.anchorHash (j.window.drop j.leaving) = j.header.headHash := by
    rw [hanchor, ← head_append, List.take_append_drop, h.head]
  have hheader := push_header j r
  constructor
  · rw [hheader]
    exact h.magic
  · rw [hheader]
    exact h.schema
  · rw [hheader]
    exact h.headerSize
  · rw [hheader]
    exact h.recordSize
  · rw [hheader]
    exact h.capacity
  · rw [hheader]
    exact h.reserved
  · rw [hcount, hleaving]
    split <;> omega
  · rw [push_index h]
    exact Nat.mod_lt _ (by decide)
  · rw [hcount, hnumber]
    omega
  · intro hnone
    rw [hnone] at hcount
    exact absurd hcount (Nat.zero_ne_add_one _)
  · intro hshort
    rw [hcount, hleaving] at hshort
    have hlt : j.header.count.toNat < 64 := by
      split at hshort <;> omega
    obtain ⟨hindex, hzero⟩ := h.short hlt
    rw [if_neg hlt.ne] at hleaving
    refine ⟨UInt32.toNat_inj.mp ?_, ?_⟩
    · rw [push_index h, hcount, hleaving, hindex]
      rw [if_neg hlt.ne] at hshort
      omega
    · rw [push_anchor h, hleaving]
      exact hzero
  · intro k hk
    rw [hcount] at hk
    rcases Nat.lt_succ_iff_lt_or_eq.mp hk with hk | rfl
    · rw [push_stays h hk]
      exact h.valid _ (by omega)
    · rw [push_new h]
      exact hvalid
  · intro k hk
    rw [hcount] at hk
    rw [hcount, hnumber]
    rcases Nat.lt_succ_iff_lt_or_eq.mp hk with hk | rfl
    · rw [push_stays h hk]
      have hold := h.sequence (j.leaving + k) (by omega)
      omega
    · rw [push_new h, hsequence]
      omega
  · rw [window_push h, linked_append, hanchor]
    refine ⟨h.linked.drop j.leaving, ?_, trivial⟩
    rw [← hanchor, hbefore]
    exact hhash
  · rw [window_push h, head_snoc, hheader]

end Push

theorem appendInPlace_verify {j journal : Image} {arguments : Arguments} (hj : verify j = true)
    (haction : arguments.action ≤ AuditAction.readAudit.code) (hverdict : arguments.verdict ≤ Verdict.error.code)
    (h : appendInPlace j arguments = (journal, true)) : verify journal = true := by
  obtain ⟨text, digest, hnext, htext, hlen, rfl⟩ := appendInPlace_push h
  rw [verify_eq_true_iff] at hj ⊢
  exact hj.push hnext (record_valid haction hverdict htext hlen _ _ _) rfl (record_hash _ _ _ _ _)

/-! ### Every run -/

section Runs
variable {σ : Type} (exists_ : σ → Bool) (readFile : σ → Image → Image × Bool) (writeFile : Image → σ → σ × Bool)

theorem verify_empty : verify emptyImage = true := by decide

theorem init_verify (s : JournalState σ) (h : (init exists_ readFile writeFile s).2 = true) :
    verify (init exists_ readFile writeFile s).1.journal = true := by
  unfold init at h ⊢
  dsimp only at h ⊢
  split at h
  · rename_i hnone
    rw [if_pos hnone]
    split at h
    · cases h
    · exact verify_empty
  · rename_i hsome
    rw [if_neg hsome]
    split at h
    · cases h
    · split at h
      · cases h
      · rename_i hverify
        rw [if_neg hverify]
        simpa using hverify

/-- The states after `init` has returned true (the kernel stops otherwise) or with any verified journal, and calls of `append`
    with enumerators. -/
inductive Run : JournalState σ → Prop
  | verified {s : JournalState σ} : verify s.journal = true → Run s
  | boot {s : JournalState σ} : (init exists_ readFile writeFile s).2 = true → Run (init exists_ readFile writeFile s).1
  | append {s : JournalState σ} (arguments : Arguments) : Run s → arguments.action ≤ AuditAction.readAudit.code →
      arguments.verdict ≤ Verdict.error.code → Run (appendRestoring writeFile s arguments).1

theorem run_verify {s : JournalState σ} (hr : Run exists_ readFile writeFile s) : verify s.journal = true := by
  induction hr with
  | verified h => exact h
  | boot h => exact init_verify exists_ readFile writeFile _ h
  | @append s arguments _ haction hverdict ih =>
    rcases appendRestoring_cases writeFile s arguments with ⟨-, heq⟩ | ⟨-, disk, heq⟩ | ⟨-, journal, disk, hpush, heq⟩
    · rw [heq]
      exact ih
    · rw [heq]
      exact ih
    · rw [heq]
      exact appendInPlace_verify ih haction hverdict hpush

/-- A call of `append` that returns false leaves the header and all records, and turns `ready` off if it was on; and in every
    run the journal in memory is verified. -/
theorem append_restores :
    (∀ (s : JournalState σ) (arguments : Arguments), verify s.journal = true →
      (appendRestoring writeFile s arguments).2 = false →
      (appendRestoring writeFile s arguments).1.journal.header = s.journal.header ∧
      (appendRestoring writeFile s arguments).1.journal.records = s.journal.records ∧
      (s.ready = true → (appendRestoring writeFile s arguments).1.ready = false)) ∧
    ∀ s : JournalState σ, Run exists_ readFile writeFile s → verify s.journal = true := by
  refine ⟨fun s arguments _ h => ?_, fun s hr => run_verify exists_ readFile writeFile hr⟩
  obtain ⟨hjournal, hready⟩ := appendRestoring_failed writeFile s arguments h
  exact ⟨by rw [hjournal], by rw [hjournal], hready⟩

end Runs
end ZenovOS.Security.Audit
