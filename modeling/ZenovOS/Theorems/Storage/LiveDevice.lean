import ZenovOS.Storage.LiveImage
import Mathlib.Data.List.Dedup

/-! # The live device is a plain array

The sectors of the live device are those of its image, except the ones that were written. A sector that is written
for the first time takes a slot of the overlay, and keeps it. -/

namespace ZenovOS.Storage.LiveImage
open Bytes

/-! ### Requests -/

inductive Request
  | read (lba : Nat) (output : Bool)
  | write (lba : Nat) (input : Option Sector)

/-- The device after a request, and its result. -/
def Request.run (image : LiveImage) (d : LiveDevice) : Request → LiveDevice × BlockResult
  | read lba output => (d, (image.liveReadSector d lba output).1)
  | write lba input => image.liveWriteSector d lba input

/-- The writes that succeeded, the last one first. -/
abbrev Log := List (Nat × Sector)

def Request.logged (result : BlockResult) (log : Log) : Request → Log
  | read _ _ => log
  | write _ none => log
  | write lba (some data) => if result.ok then (lba, data) :: log else log

/-- A device and the log of its writes, after some more requests. -/
def runRequests (image : LiveImage) : List Request → LiveDevice × Log → LiveDevice × Log
  | [], state => state
  | request :: requests, (d, log) =>
    let (d', result) := request.run image d
    runRequests image requests (d', request.logged result log)

/-- A plain array: what was written last, or else the base. -/
def plain (base : Nat → Sector) (log : Log) (lba : Nat) : Sector :=
  match log.find? (·.1 = lba) with
  | some write => write.2
  | none => base lba

/-- The distinct sectors that were written. -/
def written (log : Log) : List Nat := (log.map Prod.fst).dedup

/-! ### The invariant -/

/-- The overlay holds the sectors that were written, each in its own slot below those that are free. -/
structure Holds (image : LiveImage) (pack : Bytes) (d : LiveDevice) (log : Log) : Prop where
  active : d.storageActive = true
  packDecoded : d.packDecoded = pack
  used : d.overlayUsed = (written log).length
  room : d.overlayUsed ≤ overlayCapacitySectors
  inside : ∀ lba ∈ written log, lba < image.logicalSectors
  unwritten : ∀ lba < image.logicalSectors, lba ∉ written log → d.overlayMap lba = overlayEmpty
  slot : ∀ lba ∈ written log, ∃ k < d.overlayUsed, d.overlayMap lba = UInt16.ofNat k ∧
    d.overlaySectors k = plain (image.liveReadBaseSector pack) log lba
  apart : ∀ lba ∈ written log, ∀ lba' ∈ written log, d.overlayMap lba = d.overlayMap lba' → lba = lba'

variable {image : LiveImage} {pack : Bytes} {d d' : LiveDevice} {log : Log} {lba k : Nat} {data : Sector} {base : Nat → Sector}

theorem mem_written : lba ∈ written log ↔ ∃ data, (lba, data) ∈ log := by
  unfold written
  rw [List.mem_dedup, List.mem_map]
  constructor
  · rintro ⟨⟨_, data⟩, hmem, rfl⟩
    exact ⟨data, hmem⟩
  · rintro ⟨data, hmem⟩
    exact ⟨_, hmem, rfl⟩

theorem written_cons_of_mem (data : Sector) (h : lba ∈ written log) : written ((lba, data) :: log) = written log :=
  List.dedup_cons_of_mem (List.mem_dedup.mp h)

theorem written_cons_of_notMem (data : Sector) (h : lba ∉ written log) : written ((lba, data) :: log) = lba :: written log :=
  List.dedup_cons_of_notMem fun hmem => h (List.mem_dedup.mpr hmem)

theorem plain_unwritten (h : lba ∉ written log) : plain base log lba = base lba := by
  have hnone : log.find? (·.1 = lba) = none := by
    rw [List.find?_eq_none]
    intro write hmem he
    have he : write.1 = lba := by simpa using he
    exact h (mem_written.mpr ⟨write.2, he ▸ hmem⟩)
  rw [plain, hnone]

theorem plain_cons_self : plain base ((lba, data) :: log) lba = data := by simp [plain]

theorem plain_cons_ne {other : Nat} (h : other ≠ lba) : plain base ((lba, data) :: log) other = plain base log other := by
  simp [plain, Ne.symm h]

theorem toNat_slot (h : k < overlayCapacitySectors) : (UInt16.ofNat k).toNat = k := by
  rw [UInt16.toNat_ofNat']
  exact Nat.mod_eq_of_lt (Nat.lt_trans h (by decide))

theorem slot_ne_empty (h : k < overlayCapacitySectors) : UInt16.ofNat k ≠ overlayEmpty := by
  intro he
  have htoNat := congrArg UInt16.toNat he
  rw [toNat_slot h] at htoNat
  subst htoNat
  exact absurd h (by decide)

theorem Holds.written_iff (h : Holds image pack d log) (hlba : lba < image.logicalSectors) :
    d.overlayMap lba ≠ overlayEmpty ↔ lba ∈ written log := by
  constructor
  · intro hne
    by_contra hnot
    exact hne (h.unwritten lba hlba hnot)
  · intro hmem
    obtain ⟨k, hk, hmap, -⟩ := h.slot lba hmem
    rw [hmap]
    exact slot_ne_empty (Nat.lt_of_lt_of_le hk h.room)

/-! ### One request -/

theorem Holds.read (h : Holds image pack d log) (lba : Nat) :
    image.liveReadSector d lba true =
      if image.logicalSectors ≤ lba then (blockResult .read .outOfRange lba, none)
      else (blockSuccess .read lba, some (plain (image.liveReadBaseSector pack) log lba)) := by
  unfold liveReadSector
  rw [h.active, if_neg (by decide)]
  split
  · rfl
  · rename_i hlba
    have hlba := Nat.not_le.mp hlba
    dsimp only
    by_cases hmem : lba ∈ written log
    · obtain ⟨k, hk, hmap, hdata⟩ := h.slot lba hmem
      rw [if_pos ((h.written_iff hlba).mpr hmem), hmap, toNat_slot (Nat.lt_of_lt_of_le hk h.room), hdata]
    · rw [if_neg (by rw [h.unwritten lba hlba hmem]; exact fun hne => hne rfl), plain_unwritten hmem, h.packDecoded]

theorem Holds.rewrite (h : Holds image pack d log) (hmem : lba ∈ written log) :
    Holds image pack (d.store (d.overlayMap lba) data) ((lba, data) :: log) := by
  obtain ⟨k, hk, hmap, -⟩ := h.slot lba hmem
  have hslot : (d.overlayMap lba).toNat = k := by rw [hmap, toNat_slot (Nat.lt_of_lt_of_le hk h.room)]
  have hwritten := written_cons_of_mem data hmem
  refine ⟨h.active, h.packDecoded, ?_, h.room, ?_, ?_, ?_, ?_⟩ <;> rw [hwritten]
  · exact h.used
  · exact h.inside
  · exact h.unwritten
  · intro other hother
    obtain ⟨m, hm, hmap', hdata⟩ := h.slot other hother
    refine ⟨m, hm, hmap', ?_⟩
    by_cases he : other = lba
    · subst he
      obtain rfl : m = k := by rw [← hslot, hmap', toNat_slot (Nat.lt_of_lt_of_le hm h.room)]
      rw [plain_cons_self]
      exact if_pos hslot.symm
    · have hne : m ≠ (d.overlayMap lba).toNat := by
        intro hm'
        refine he (h.apart other hother lba hmem ?_)
        rw [hmap', hm', hslot, hmap]
      rw [plain_cons_ne he]
      exact (if_neg hne).trans hdata
  · exact h.apart

theorem Holds.add (h : Holds image pack d log) (hlba : lba < image.logicalSectors) (hnew : lba ∉ written log)
    (hroom : d.overlayUsed < overlayCapacitySectors) :
    Holds image pack (({ d with
        overlayUsed := d.overlayUsed + 1
        overlayMap := fun sector => if sector = lba then UInt16.ofNat d.overlayUsed else d.overlayMap sector } : LiveDevice).store
      (UInt16.ofNat d.overlayUsed) data) ((lba, data) :: log) := by
  have hslot := toNat_slot hroom
  have hother : ∀ other ∈ written log, other ≠ lba := fun other hmem he => hnew (he ▸ hmem)
  have hwritten := written_cons_of_notMem data hnew
  -- a slot in use is not the new one
  have hbelow : ∀ other ∈ written log, d.overlayMap other ≠ UInt16.ofNat d.overlayUsed := by
    intro other hmem he
    obtain ⟨k, hk, hmap, -⟩ := h.slot other hmem
    have hk' : k = d.overlayUsed := by
      rw [← toNat_slot (Nat.lt_of_lt_of_le hk h.room), ← hmap, he, hslot]
    exact Nat.lt_irrefl _ (hk' ▸ hk)
  refine ⟨h.active, h.packDecoded, ?_, hroom, ?_, ?_, ?_, ?_⟩ <;> rw [hwritten]
  · exact congrArg (· + 1) h.used
  · intro other hmem
    rcases List.mem_cons.mp hmem with rfl | hmem
    · exact hlba
    · exact h.inside other hmem
  · intro other hinside hnot
    rw [List.mem_cons, not_or] at hnot
    exact (if_neg hnot.1).trans (h.unwritten other hinside hnot.2)
  · intro other hmem
    rcases List.mem_cons.mp hmem with rfl | hmem
    · refine ⟨d.overlayUsed, Nat.lt_succ_self _, if_pos rfl, ?_⟩
      rw [plain_cons_self]
      exact if_pos hslot.symm
    · obtain ⟨k, hk, hmap, hdata⟩ := h.slot other hmem
      refine ⟨k, Nat.lt_succ_of_lt hk, (if_neg (hother other hmem)).trans hmap, ?_⟩
      rw [plain_cons_ne (hother other hmem)]
      exact (if_neg (by rw [hslot]; exact Nat.ne_of_lt hk)).trans hdata
  · intro a ha b hb he
    rcases List.mem_cons.mp ha with rfl | ha'
    · rcases List.mem_cons.mp hb with rfl | hb'
      · rfl
      · have he : (if a = a then UInt16.ofNat d.overlayUsed else d.overlayMap a) = if b = a then _ else d.overlayMap b := he
        rw [if_pos rfl, if_neg (hother b hb')] at he
        exact absurd he.symm (hbelow b hb')
    · rcases List.mem_cons.mp hb with rfl | hb'
      · have he : (if a = b then UInt16.ofNat d.overlayUsed else d.overlayMap a) = if b = b then _ else d.overlayMap b := he
        rw [if_pos rfl, if_neg (hother a ha')] at he
        exact absurd he (hbelow a ha')
      · have he : (if a = lba then UInt16.ofNat d.overlayUsed else d.overlayMap a) =
            if b = lba then UInt16.ofNat d.overlayUsed else d.overlayMap b := he
        rw [if_neg (hother a ha'), if_neg (hother b hb')] at he
        exact h.apart a ha' b hb' he

/-- What a write of a sector does: nothing outside the device; it is stored in its slot or in a new one; or there is
    no slot left for a new one. -/
theorem Holds.write (h : Holds image pack d log) (lba : Nat) (data : Sector) :
    (image.logicalSectors ≤ lba ∧ image.liveWriteSector d lba (some data) = (d, blockResult .write .outOfRange lba)) ∨
    (lba ∉ written log ∧ (written log).length = overlayCapacitySectors ∧
      image.liveWriteSector d lba (some data) = (d, ⟨.write, .deviceError, lba, 1, 0, 0⟩)) ∨
    ∃ d', image.liveWriteSector d lba (some data) = (d', blockSuccess .write lba) ∧ Holds image pack d' ((lba, data) :: log) := by
  have hactive : ¬(!d.storageActive) = true := by
    rw [h.active]
    decide
  unfold liveWriteSector
  dsimp only
  rw [if_neg hactive]
  by_cases hlba : image.logicalSectors ≤ lba
  · exact .inl ⟨hlba, if_pos hlba⟩
  · rw [if_neg hlba]
    have hlba := Nat.not_le.mp hlba
    by_cases hmem : lba ∈ written log
    · rw [if_neg ((h.written_iff hlba).mpr hmem)]
      exact .inr (.inr ⟨_, rfl, h.rewrite hmem⟩)
    · rw [if_pos (h.unwritten lba hlba hmem)]
      by_cases hfull : overlayCapacitySectors ≤ d.overlayUsed
      · rw [if_pos hfull]
        exact .inr (.inl ⟨hmem, by rw [← h.used]; exact Nat.le_antisymm h.room hfull, rfl⟩)
      · rw [if_neg hfull]
        exact .inr (.inr ⟨_, rfl, h.add hlba hmem (Nat.not_le.mp hfull)⟩)

theorem Holds.request (h : Holds image pack d log) (request : Request) :
    Holds image pack (request.run image d).1 (request.logged (request.run image d).2 log) ∧
      ((request.run image d).2.ok = false → (request.run image d).1 = d) := by
  cases request with
  | read lba output => exact ⟨h, fun _ => rfl⟩
  | write lba input =>
    cases input with
    | none => exact ⟨h, fun _ => rfl⟩
    | some data =>
      rcases h.write lba data with ⟨-, hwrite⟩ | ⟨-, -, hwrite⟩ | ⟨d', hwrite, hnext⟩
      · simp only [Request.run, Request.logged, hwrite]
        exact ⟨h, fun _ => trivial⟩
      · simp only [Request.run, Request.logged, hwrite]
        exact ⟨h, fun _ => trivial⟩
      · simp only [Request.run, Request.logged, hwrite]
        exact ⟨hnext, fun hok => Bool.noConfusion (show true = false from hok)⟩

/-! ### Every run -/

end ZenovOS.Storage.LiveImage
