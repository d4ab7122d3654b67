import ZenovOS.Security.AuditImage

/-! # What an accepted journal shows

The bytes that `hash_record` hashes tell the record's fields and the hash before it. A journal that `verify`
accepts is a chain of such hashes from the anchor to the head; so a journal with the same head is the same
journal, or two different inputs have one hash. -/

namespace ZenovOS.Security.Audit
open Bytes Storage HashChain

/-! ### Hashing in pieces -/

theorem sha256Byte_total (context : Sha256Context) (n : Nat) (byte : UInt8) :
    sha256Byte { context with totalBytes := n } byte = { sha256Byte context byte with totalBytes := n } := by
  unfold sha256Byte
  dsimp only
  split
  · rfl
  · rfl

theorem foldl_sha256Byte_total (data : Bytes) (context : Sha256Context) (n : Nat) :
    data.foldl sha256Byte { context with totalBytes := n } = { data.foldl sha256Byte context with totalBytes := n } := by
  induction data generalizing context with
  | nil => rfl
  | cons byte rest ih => rw [List.foldl_cons, List.foldl_cons, sha256Byte_total, ih]

theorem sha256Update_eq (context : Sha256Context) (data : Bytes) :
    sha256Update context data =
      { data.foldl sha256Byte context with totalBytes := context.totalBytes + data.length } :=
  foldl_sha256Byte_total data context _

theorem sha256Update_append (context : Sha256Context) (a b : Bytes) :
    sha256Update context (a ++ b) = sha256Update (sha256Update context a) b := by
  simp only [sha256Update_eq, foldl_sha256Byte_total, List.foldl_append, List.length_append, Nat.add_assoc]

theorem foldl_sha256Update (pieces : List Bytes) (context : Sha256Context) :
    pieces.foldl sha256Update context = sha256Update context pieces.flatten := by
  induction pieces generalizing context with
  | nil => rfl
  | cons piece rest ih => rw [List.foldl_cons, ih, List.flatten_cons, sha256Update_append]

/-- SHA-256 of an input that is there as a whole. -/
def inputHash (input : Bytes) : Block 32 := Block.of (sha256 input)

theorem DiskRecord.hash_eq (r : DiskRecord) (previousHash : Block 32) :
    r.hash previousHash = inputHash (r.input previousHash) := by
  rw [hash, foldl_sha256Update, input, inputHash, sha256]

/-! ### The input tells its parts -/

theorem le4_inj {x y : UInt32} (h : le 4 x.toNat = le 4 y.toNat) : x = y := by
  rw [← ofNat_toNat_le32 x, h, ofNat_toNat_le32]

theorem le2_inj {x y : UInt16} (h : le 2 x.toNat = le 2 y.toNat) : x = y := by
  rw [← ofNat_toNat_le16 x, h, ofNat_toNat_le16]

theorem DiskRecord.input_inj {r s : DiskRecord} {p q : Block 32} (h : r.input p = s.input q) :
    r.hashed = s.hashed ∧ p = q := by
  simp only [input, pieces, List.flatten_cons, List.flatten_nil, List.append_nil, List.append_assoc] at h
  have hbehind := List.append_cancel_left (List.append_cancel_left h)
  obtain ⟨hprevious, h⟩ := List.append_inj hbehind (by rw [p.length_eq, q.length_eq])
  obtain ⟨hsequence, h⟩ := List.append_inj h (by rw [length_le, length_le])
  obtain ⟨htick, h⟩ := List.append_inj h (by rw [length_le, length_le])
  obtain ⟨hcodes, h⟩ := List.append_inj h rfl
  obtain ⟨haction, hcodes⟩ := List.cons.inj hcodes
  obtain ⟨hverdict, -⟩ := List.cons.inj hcodes
  obtain ⟨hlength, h⟩ := List.append_inj h (by rw [length_le, length_le])
  obtain ⟨hpath, hdigest⟩ := List.append_inj h (by rw [r.path.length_eq, s.path.length_eq])
  refine ⟨?_, Block.ext_bytes hprevious⟩
  rw [hashed, hashed, le4_inj hsequence, le4_inj htick, haction, hverdict, le2_inj hlength, Block.ext_bytes hpath,
    Block.ext_bytes hdigest]

/-! ### The verified chain -/

/-- The records that the loop of `verify` reads. -/
def Image.run (j : Image) (first i left : Nat) : List DiskRecord := (List.range' i left).map fun k => j.record (first + k)

theorem verifyRecords_eq_some {j : Image} {first left i : Nat} {firstSequence : UInt32} {previous last : Block 32} :
    j.verifyRecords first firstSequence left i previous = some last ↔
      (∀ k, k < left → recordValid (j.record (first + (i + k))) = true ∧
        (j.record (first + (i + k))).sequence = firstSequence + UInt32.ofNat (i + k)) ∧
      Linked DiskRecord.hash DiskRecord.recordHash previous (j.run first i left) ∧
      head DiskRecord.recordHash previous (j.run first i left) = last := by
  induction left generalizing i previous with
  | zero =>
    constructor
    · intro h
      exact ⟨fun k hk => absurd hk (Nat.not_lt_zero k), trivial, Option.some.inj h⟩
    · rintro ⟨-, -, rfl⟩
      rfl
  | succ left ih =>
    have hrun : j.run first i (left + 1) = j.record (first + i) :: j.run first (i + 1) left := by
      rw [Image.run, List.range'_succ, List.map_cons, Image.run]
    have hshift : ∀ k, i + (k + 1) = i + 1 + k := fun k => by omega
    rw [hrun]
    unfold Image.verifyRecords
    dsimp only
    constructor
    · intro h
      split at h
      · cases h
      rename_i hchecks
      split at h
      · cases h
      rename_i hhash
      simp only [not_or, Bool.not_eq_true', Bool.not_eq_false, not_not] at hchecks hhash
      obtain ⟨hrest, hlinked, hhead⟩ := ih.mp h
      refine ⟨fun k hk => ?_, ⟨hhash, hlinked⟩, hhead⟩
      cases k with
      | zero => exact hchecks
      | succ k =>
        rw [hshift]
        exact hrest k (Nat.lt_of_succ_lt_succ hk)
    · rintro ⟨hrecords, ⟨hhash, hlinked⟩, hhead⟩
      obtain ⟨hvalid, hsequence⟩ := hrecords 0 (Nat.succ_pos left)
      rw [Nat.add_zero] at hvalid hsequence
      rw [if_neg (by simp [hvalid, hsequence]), if_neg (by rw [not_not]; exact hhash)]
      refine ih.mpr ⟨fun k hk => ?_, hlinked, hhead⟩
      rw [← hshift]
      exact hrecords (k + 1) (Nat.succ_lt_succ hk)

theorem window_eq_run (j : Image) : j.window = j.run j.first 0 j.header.count.toNat := by
  rw [Image.window, Image.run, List.range_eq_range']

theorem foldl_or_eq_zero {data : Bytes} {value : UInt8} :
    data.foldl (fun combined byte => combined ||| byte) value = 0 ↔ value = 0 ∧ ∀ byte ∈ data, byte = 0 := by
  induction data generalizing value with
  | nil => simp
  | cons byte rest ih =>
    rw [List.foldl_cons, ih, UInt8.or_eq_zero_iff, List.forall_mem_cons]
    exact and_assoc

theorem zeroBytes_iff {data : Bytes} : zeroBytes data = true ↔ data = List.replicate data.length 0 := by
  rw [zeroBytes, decide_eq_true_eq, foldl_or_eq_zero, List.eq_replicate_iff]
  simp

theorem eq_of_zeroBytes {a b : Block 32} (ha : zeroBytes a.bytes = true) (hb : zeroBytes b.bytes = true) : a = b := by
  apply Block.ext_bytes
  rw [zeroBytes_iff.mp ha, zeroBytes_iff.mp hb, a.length_eq, b.length_eq]

theorem linked_of_verify {j : Image} (h : verify j = true) :
    Linked DiskRecord.hash DiskRecord.recordHash j.header.anchorHash j.window ∧
      head DiskRecord.recordHash j.header.anchorHash j.window = j.header.headHash := by
  unfold verify at h
  dsimp only at h
  split at h
  · cases h
  split at h
  · rename_i hcount
    have hempty : j.window = [] := by
      rw [Image.window, hcount]
      rfl
    simp only [Bool.and_eq_true] at h
    rw [hempty]
    exact ⟨trivial, eq_of_zeroBytes h.1.2 h.2⟩
  split at h
  · cases h
  split at h
  · cases h
  · rw [decide_eq_true_eq, verifyRecords_eq_some, ← window_eq_run] at h
    exact h.2

theorem length_window (j : Image) : j.window.length = j.header.count.toNat := by
  rw [Image.window, List.length_map, List.length_range]

theorem window_getElem? {j : Image} {n : Nat} (h : n < j.header.count.toNat) :
    j.window[n]? = some (j.record (j.first + n)) := by
  rw [Image.window, List.getElem?_map, List.getElem?_range h, Option.map_some]

/-- The hash before the valid record `n` is the last one of the records before it. -/
theorem head_take {j : Image} {n : Nat} (h : n ≤ j.header.count.toNat) :
    head DiskRecord.recordHash j.header.anchorHash (j.window.take n) = j.previous n := by
  cases n with
  | zero => rfl
  | succ n =>
    rw [List.take_add_one, window_getElem? h, Option.toList_some, head_snoc]
    rfl

/-- Two accepted journals that end alike agree in everything that is hashed, or they show a collision. -/
theorem tamper_evident {a b : Image} (ha : verify a = true) (hb : verify b = true)
    (hcount : a.header.count = b.header.count) (_ : a.header.nextSequence = b.header.nextSequence)
    (_ : a.header.nextIndex = b.header.nextIndex) (hhead : a.header.headHash = b.header.headHash) :
    (a.header.anchorHash = b.header.anchorHash ∧
      ∀ n < a.header.count.toNat, (a.record (a.first + n)).hashed = (b.record (b.first + n)).hashed) ∨
    ∃ n < a.header.count.toNat,
      (a.record (a.first + n)).input (a.previous n) ≠ (b.record (b.first + n)).input (b.previous n) ∧
      (a.record (a.first + n)).hash (a.previous n) = (b.record (b.first + n)).hash (b.previous n) := by
  obtain ⟨hlinked, hlast⟩ := linked_of_verify ha
  obtain ⟨hlinked', hlast'⟩ := linked_of_verify hb
  have hdigest : DiskRecord.hash = fun r p => inputHash (r.input p) := by
    funext r p
    exact r.hash_eq p
  rw [hdigest] at hlinked hlinked'
  have hlen : a.window.length = b.window.length := by rw [length_window, length_window, hcount]
  have hends := hlast.trans (hhead.trans hlast'.symm)
  rcases HashChain.agree_or_collide DiskRecord.input inputHash DiskRecord.input_inj hlinked hlinked' hlen hends with
    ⟨hanchor, hcontent⟩ | ⟨n, r, s, hr, hs, hne, heq⟩
  · refine .inl ⟨hanchor, fun n hn => ?_⟩
    have hget := congrArg (fun records => records[n]?) hcontent
    simp only [List.getElem?_map] at hget
    rw [window_getElem? hn, window_getElem? (hcount ▸ hn)] at hget
    exact Option.some.inj hget
  · have hn : n < a.header.count.toNat := by
      rw [← length_window]
      exact (List.getElem?_eq_some_iff.mp hr).1
    rw [window_getElem? hn, Option.some.injEq] at hr
    rw [window_getElem? (hcount ▸ hn), Option.some.injEq] at hs
    rw [head_take hn.le, head_take (hcount ▸ hn.le), ← hr, ← hs] at hne heq
    refine .inr ⟨n, hn, hne, ?_⟩
    rw [DiskRecord.hash_eq, DiskRecord.hash_eq]
    exact heq

/-- One record. -/
def sampleRecord : DiskRecord where
  sequence := 1
  tick := 7
  action := AuditAction.scan.code
  verdict := Verdict.infected.code
  pathLength := 5
  path := Block.of (ascii "/tool")
  digest := Block.of (ascii "digest")
  recordHash := Block.of []
  reserved := Block.of []

/-- A journal of one record; `unused` stands in the other slots. -/
def sampleImage (unused : DiskRecord) : Image :=
  let hash := sampleRecord.hash (Block.of [])
  { header :=
      { magic := Block.of (ascii "ZGAL")
        schema := 1
        headerSize := 96
        recordSize := 128
        capacity := 64
        count := 1
        nextIndex := 1
        nextSequence := 2
        anchorHash := Block.of []
        headHash := hash
        reserved := Block.of [] }
    records := fun i => if i = 0 then { sampleRecord with recordHash := hash } else unused }

theorem tamper_evident_sample :
    let a := sampleImage sampleRecord
    let b := sampleImage { sampleRecord with tick := 8 }
    (a.header.anchorHash = b.header.anchorHash ∧
      ∀ n < a.header.count.toNat, (a.record (a.first + n)).hashed = (b.record (b.first + n)).hashed) ∨
    ∃ n < a.header.count.toNat,
      (a.record (a.first + n)).input (a.previous n) ≠ (b.record (b.first + n)).input (b.previous n) ∧
      (a.record (a.first + n)).hash (a.previous n) = (b.record (b.first + n)).hash (b.previous n) :=
  tamper_evident (by decide +kernel) (by decide +kernel) rfl rfl rfl rfl

end ZenovOS.Security.Audit
