import Mathlib.Data.Nat.Bitwise
import ZenovOS.Theorems.Tools.LiveImagePack

/-! # The live image reads back

What the packer compresses the kernel decompresses. The pack has a row for each chunk, and where the disk has at most
as many sectors as the overlay map has slots, a sector that is put together from the chunks is that of the image. -/

namespace ZenovOS.LiveImagePack
open Bytes Storage Lzss

/-! ### Decompression -/

section Decompression
variable {text input output : Bytes} {position stop distance length left bit : Nat} {flags : UInt8} {tokens : List (Token UInt8)}

theorem flag_ne_zero : flags.toNat &&& 2 ^ bit ≠ 0 ↔ flags.toNat.testBit bit = true := by
  rw [Nat.and_two_pow]
  cases flags.toNat.testBit bit with
  | true => simp
  | false => simp

theorem code_fields (hdistance : 0 < distance ∧ distance ≤ lzWindow) (hlength : lzMinMatch ≤ length ∧ length ≤ lzMaxMatch) :
    ∃ a b, encodeToken (.copy distance length) = [a, b] ∧
      ((a.toNat ||| b.toNat <<< 8) >>> 4) + 1 = distance ∧ ((a.toNat ||| b.toNat <<< 8) &&& 0x0F) + LiveImage.lzMinMatch = length := by
  obtain ⟨hpos, hwindow⟩ : 0 < distance ∧ distance ≤ 4096 := hdistance
  obtain ⟨hmin, hmax⟩ : 3 ≤ length ∧ length ≤ 18 := hlength
  obtain ⟨code, hcode⟩ : ∃ code, code = (distance - 1) <<< 4 ||| (length - lzMinMatch) := ⟨_, rfl⟩
  have hsum : code = (distance - 1) * 16 + (length - 3) := by
    rw [hcode, ← Nat.shiftLeft_add_eq_or_of_lt (show length - 3 < 2 ^ 4 by omega), Nat.shiftLeft_eq]
  have hbytes : (UInt8.ofNat (code % 256)).toNat ||| (UInt8.ofNat (code / 256 % 256)).toNat <<< 8 = code := by
    have ha : (UInt8.ofNat (code % 256)).toNat = code % 256 := by simp
    have hb : (UInt8.ofNat (code / 256 % 256)).toNat = code / 256 % 256 := by simp
    rw [ha, hb, Nat.or_comm, ← Nat.shiftLeft_add_eq_or_of_lt (show code % 256 < 2 ^ 8 by omega), Nat.shiftLeft_eq]
    omega
  refine ⟨_, _, by rw [encodeToken, ← hcode]; rfl, ?_, ?_⟩
  · rw [hbytes, Nat.shiftRight_eq_div_pow]
    omega
  · have hmod : code &&& 0x0F = code % 16 := Nat.and_two_pow_sub_one_eq_mod code 4
    have hmatch : LiveImage.lzMinMatch = 3 := rfl
    rw [hbytes, hmod, hmatch]
    omega

theorem decompressBits_tokens (hparses : Parses text position tokens stop) (hsmall : ∀ token ∈ tokens, Small token)
    (hle : tokens.length ≤ left) (hfull : tokens.length = left ∨ text.length ≤ stop) (hposition : position ≤ text.length)
    (hflags : ∀ k < left, flags.toNat.testBit (bit + k) = tokens[k]?.any isLiteral) :
    LiveImage.decompressBits text.length flags left bit (tokens.flatMap encodeToken ++ input) (text.take position) =
      some (input, text.take stop) := by
  induction left generalizing bit position tokens with
  | zero =>
    obtain rfl : tokens = [] := List.eq_nil_of_length_eq_zero (Nat.le_zero.mp hle)
    cases hparses
    rfl
  | succ left ih =>
    have hlength : (text.take position).length = position := List.length_take_of_le hposition
    rw [LiveImage.decompressBits.eq_def]
    dsimp only
    rw [hlength]
    cases hparses with
    | nil =>
      have hend : text.length ≤ stop := hfull.resolve_left (Nat.zero_ne_add_one left)
      rw [if_pos hend]
      rfl
    | @cons _ _ token tokens hdescribes hparses =>
      have hflag : flags.toNat.testBit bit = isLiteral token := hflags 0 (Nat.succ_pos left)
      have hstop := hdescribes.stop_le
      have hnext : LiveImage.decompressBits text.length flags left (bit + 1) (tokens.flatMap encodeToken ++ input)
          (text.take (position + token.size)) = some (input, text.take stop) :=
        ih hparses (fun token ht => hsmall token (List.mem_cons_of_mem _ ht)) (Nat.le_of_succ_le_succ hle)
          (hfull.imp_left Nat.succ.inj) hstop fun k hk => by
            have hk := hflags (k + 1) (Nat.succ_lt_succ hk)
            rwa [show bit + (k + 1) = bit + 1 + k by omega] at hk
      cases token with
      | literal b =>
        have hinside : ¬text.length ≤ position := Nat.not_le.mpr hstop
        rw [if_neg hinside, if_pos (flag_ne_zero.mpr hflag)]
        have happly := hdescribes.apply
        dsimp only [Token.apply] at happly
        show LiveImage.decompressBits text.length flags left (bit + 1) (tokens.flatMap encodeToken ++ input) (text.take position ++ [b]) = _
        rw [happly]
        exact hnext
      | copy distance length =>
        obtain ⟨hpos, hwindow, hmin, hmax⟩ := hsmall _ List.mem_cons_self
        have hsome : 3 ≤ length := hmin
        have hstop : position + length ≤ text.length := hstop
        obtain ⟨a, b, hbytes, hdistance, hlen⟩ := code_fields ⟨hpos, hwindow⟩ ⟨hmin, hmax⟩
        have hclear : ¬flags.toNat &&& 2 ^ bit ≠ 0 := fun h => Bool.false_ne_true (hflag.symm.trans (flag_ne_zero.mp h))
        rw [if_neg (by omega), if_neg hclear, List.flatMap_cons, hbytes]
        dsimp only [List.cons_append, List.nil_append]
        have hback : distance ≤ position := hdescribes.2.1
        rw [hdistance, hlen, if_neg (by omega)]
        have happly := hdescribes.apply
        dsimp only [Token.apply] at happly
        rw [happly]
        exact hnext

theorem compressFrom_append {t : Tables} (output : Bytes) :
    compressFrom text left position t output = output ++ compressFrom text left position t [] := by
  induction left generalizing position t output with
  | zero => exact (List.append_nil output).symm
  | succ left ih =>
    rw [compressFrom, compressFrom]
    split
    · exact (List.append_nil output).symm
    · dsimp only
      rw [ih, ih ([] ++ _), List.nil_append, List.append_assoc]

theorem decompressFrom_done {fuel : Nat} (h : text.length ≤ position) :
    LiveImage.decompressFrom text.length fuel [] (text.take position) = some ([], text) := by
  rw [List.take_of_length_le h, LiveImage.decompressFrom.eq_def]
  exact if_neg (Nat.lt_irrefl _)

theorem decompressFrom_compressFrom {t : Tables} {fuel : Nat} (hposition : position ≤ text.length) (ht : Below t position)
    (hleft : text.length ≤ position + left) (hfuel : (compressFrom text left position t []).length ≤ fuel) :
    LiveImage.decompressFrom text.length fuel (compressFrom text left position t []) (text.take position) = some ([], text) := by
  induction left generalizing position t fuel with
  | zero => exact decompressFrom_done hleft
  | succ left ih =>
    rw [compressFrom] at hfuel ⊢
    by_cases hdone : text.length ≤ position
    · rw [if_pos hdone]
      exact decompressFrom_done hdone
    · rw [if_neg hdone] at hfuel ⊢
      have hinside := Nat.not_le.mp hdone
      obtain ⟨tokens, position', t', hrun, hparses, hsmall, hlen, hfull, hstop, hbelow, hmore⟩ :=
        compressBits_spec 8 0 0 [] hposition ht
      have hmore := hmore (by omega) hinside
      rw [hrun] at hfuel ⊢
      dsimp only at hfuel ⊢
      rw [compressFrom_append, List.nil_append, List.nil_append, List.cons_append] at hfuel ⊢
      have hfits : (compressFrom text left position' t' []).length + (tokens.flatMap encodeToken).length + 1 ≤ fuel := by
        rw [List.length_cons, List.length_append] at hfuel
        omega
      cases fuel with
      | zero => omega
      | succ fuel =>
        have hlength : (text.take position).length = position := List.length_take_of_le hposition
        have hbits : ∀ k < 8, (UInt8.ofNat (0 ||| groupFlags 0 tokens)).toNat.testBit (0 + k) = tokens[k]?.any isLiteral := by
          intro k hk
          have hmod : (UInt8.ofNat (0 ||| groupFlags 0 tokens)).toNat = groupFlags 0 tokens % 2 ^ 8 := by
            rw [Nat.zero_or]
            rfl
          rw [hmod, Nat.zero_add, Nat.testBit_mod_two_pow, testBit_groupFlags, decide_eq_true hk, decide_eq_true (Nat.zero_le k)]
          rfl
        rw [LiveImage.decompressFrom.eq_def]
        dsimp only
        rw [hlength, if_pos hinside]
        rw [decompressBits_tokens hparses hsmall hlen hfull hposition hbits]
        exact ih hstop hbelow (by omega) (by omega)

theorem decompress_compress (text : Bytes) :
    LiveImage.decompressFrom text.length (lzssCompress text).length (lzssCompress text) [] = some ([], text) :=
  decompressFrom_compressFrom (Nat.zero_le _) ⟨(fun _ _ h => nomatch h), fun _ _ h => nomatch h⟩ (Nat.le_add_left _ _) (Nat.le_refl _)

end Decompression

/-! ### The pack -/

/-- The row that stands for a chunk. -/
def Chunk.row (c : Chunk) : LiveImage.ChunkRow := ⟨c.offset, c.bytes.length, 0⟩

/-- A chunk's offset and length fit its row. -/
def Chunk.Fits (c : Chunk) : Prop := c.offset < 2 ^ 32 ∧ c.bytes.length ≤ maxChunkBytes

section Pack
variable {sectors : Nat} {chunks : List Chunk} {c : Chunk} {live : LiveImage}

theorem length_header (sectors : Nat) (chunks : List Chunk) : (ascii "ZLIVE002" ++ le 4 sectors ++ le 4 chunks.length ++ le 4 (dataBytes chunks)).length = 20 := by
  simp only [List.length_append, length_le]
  rfl

theorem length_encodeRow (c : Chunk) : (encodeRow c).length = 8 := by
  simp [encodeRow]

theorem length_rows (chunks : List Chunk) : (chunks.flatMap encodeRow).length = chunks.length * 8 := by
  induction chunks with
  | nil => rfl
  | cons c chunks ih =>
    rw [List.flatMap_cons, List.length_append, length_encodeRow, ih, List.length_cons]
    omega

theorem length_data (chunks : List Chunk) : (chunks.flatMap Chunk.bytes).length = dataBytes chunks := List.length_flatMap

theorem length_encodeSparse : (encodeSparse sectors chunks).length = 20 + chunks.length * 8 + dataBytes chunks := by
  rw [encodeSparse, List.length_append, List.length_append, length_header, length_rows, length_data]

theorem slice_encodeSparse {i : Nat} (hi : chunks[i]? = some c) : slice (encodeSparse sectors chunks) (20 + i * 8) 8 = encodeRow c := by
  have hlt : i < chunks.length := (List.getElem?_eq_some_iff.mp hi).1
  have hheader := length_header sectors chunks
  rw [encodeSparse, slice_append_left (by rw [List.length_append, hheader, length_rows]; omega), slice_append_right (by omega), hheader,
    Nat.add_sub_cancel_left]
  exact slice_flatMap length_encodeRow hi

theorem liveChunkRow_encodeSparse {i : Nat} (hi : chunks[i]? = some c) (hfits : c.Fits) :
    LiveImage.liveChunkRow (encodeSparse sectors chunks) i = c.row := by
  obtain ⟨hoffset, hlength⟩ : c.offset < 2 ^ 32 ∧ c.bytes.length ≤ 65535 := hfits
  have hfield : ∀ o m, o + m ≤ 8 → slice (encodeSparse sectors chunks) (20 + i * 8 + o) m = slice (encodeRow c) o m := by
    intro o m h
    rw [← slice_encodeSparse hi, slice_slice h]
  have hfirst : slice (encodeRow c) 0 4 = le 4 c.offset := by
    rw [encodeRow, List.append_assoc, slice_first (length_le 4 _)]
  have hsecond : slice (encodeRow c) 4 2 = le 2 c.bytes.length := slice_field _ _ (length_le 4 _) (length_le 2 _) rfl
  have hthird : slice (encodeRow c) 6 2 = le 2 0 := by
    rw [encodeRow, slice_append_right (by simp)]
    exact slice_of_length (length_le 2 _)
  have hzero := hfield 0 4 (by omega)
  rw [Nat.add_zero] at hzero
  show (⟨toNat (slice _ (20 + i * 8) 4), toNat (slice _ (20 + i * 8 + 4) 2), toNat (slice _ (20 + i * 8 + 6) 2)⟩ : LiveImage.ChunkRow) = _
  rw [hzero, hfield 4 2 (by omega), hfield 6 2 (by omega), hfirst, hsecond, hthird, toNat_le_of_lt (by omega), toNat_le_of_lt (by omega),
    toNat_le_of_lt (by omega)]
  rfl

theorem chunkRows_encodeSparse (sectors : Nat) (hcount : live.chunkCount = chunks.length) (hfits : ∀ c ∈ chunks, c.Fits) :
    live.chunkRows (encodeSparse sectors chunks) = chunks.map Chunk.row := by
  apply List.ext_getElem?
  intro i
  rw [LiveImage.chunkRows, List.getElem?_map, List.getElem?_map, hcount]
  by_cases hi : i < chunks.length
  · have hget : chunks[i]? = some chunks[i] := List.getElem?_eq_getElem hi
    rw [List.getElem?_range hi, hget, Option.map_some, Option.map_some,
      liveChunkRow_encodeSparse hget (hfits _ (List.getElem_mem hi))]
  · rw [List.getElem?_eq_none (by simpa using hi), List.getElem?_eq_none (Nat.not_lt.mp hi)]
    rfl

theorem drop_encodeSparse (sectors : Nat) (chunks : List Chunk) (low : Nat) :
    (encodeSparse sectors chunks).drop (20 + chunks.length * 8 + (((chunks.map Chunk.row).take low).map LiveImage.ChunkRow.length).sum) =
      (chunks.drop low).flatMap Chunk.bytes := by
  have hlengths : ((chunks.map Chunk.row).take low).map LiveImage.ChunkRow.length = (chunks.take low).map fun c => c.bytes.length := by
    rw [← List.map_take, List.map_map]
    rfl
  have hbefore : (ascii "ZLIVE002" ++ le 4 sectors ++ le 4 chunks.length ++ le 4 (dataBytes chunks) ++ chunks.flatMap encodeRow).length =
      20 + chunks.length * 8 := by
    rw [List.length_append, length_header, length_rows]
  rw [encodeSparse, ← List.drop_drop, ← hbefore, List.drop_left, hlengths]
  exact drop_flatMap chunks low

end Pack

/-! ### A sector -/

section Reading
variable {chunks : List Chunk} {c : Chunk} {start size position low high sectorBegin : Nat}

theorem valueAt_drop {x : Nat} (h : ∀ i < low, ∀ c, chunks[i]? = some c → c.stop ≤ x) : valueAt (chunks.drop low) x = valueAt chunks x := by
  induction chunks generalizing low with
  | nil => rw [List.drop_nil]
  | cons c chunks ih =>
    cases low with
    | zero => rfl
    | succ low =>
      have hfirst : c.stop ≤ x := h 0 (Nat.succ_pos low) c rfl
      rw [List.drop_succ_cons, valueAt_outside fun hin => Nat.not_lt.mpr hfirst hin.2]
      exact ih fun i hi d hd => h (i + 1) (Nat.succ_lt_succ hi) d hd

theorem firstRow_skips (hordered : Ordered start chunks size) (hsize : size < 2 ^ 32) (left : Nat) (hhigh : high ≤ chunks.length)
    (hlow : ∀ i < low, ∀ c, chunks[i]? = some c → c.stop ≤ sectorBegin) :
    ∀ i < LiveImage.firstRow (chunks.map Chunk.row) sectorBegin left low high, ∀ c, chunks[i]? = some c → c.stop ≤ sectorBegin := by
  induction left generalizing low high with
  | zero => exact hlow
  | succ left ih =>
    rw [LiveImage.firstRow]
    split
    · rename_i hlt
      obtain ⟨middle, hmiddle⟩ : ∃ middle, middle = low + (high - low) / 2 := ⟨_, rfl⟩
      have hinside : middle < chunks.length := by omega
      obtain ⟨c, hc⟩ : ∃ c, chunks[middle]? = some c := ⟨_, List.getElem?_eq_getElem hinside⟩
      have hrow : (chunks.map Chunk.row).getD middle ⟨0, 0, 0⟩ = c.row := by
        rw [List.getD_eq_getElem?_getD, List.getElem?_map, hc]
        rfl
      have hend : (c.row.offset + c.row.length) % 2 ^ 32 = c.stop :=
        Nat.mod_eq_of_lt (Nat.lt_of_le_of_lt (hordered.mem (List.mem_of_getElem? hc)).2.2 hsize)
      dsimp only
      rw [← hmiddle, hrow, hend]
      split
      · rename_i hskip
        refine ih hhigh fun i hi d hd => ?_
        rcases Nat.lt_or_ge i middle with hi' | hi'
        · -- the chunks are in order, so what is before this one ends before it
          have hi'' : i < chunks.length := (List.getElem?_eq_some_iff.mp hd).1
          have hbefore := List.pairwise_iff_getElem.mp hordered.pairwise i middle hi'' hinside hi'
          rw [(List.getElem?_eq_some_iff.mp hd).2, (List.getElem?_eq_some_iff.mp hc).2] at hbefore
          have hstop : c.offset ≤ c.stop := Nat.le_add_right _ _
          exact Nat.le_trans hbefore (Nat.le_trans hstop hskip)
        · obtain rfl : i = middle := by omega
          rw [hc] at hd
          rwa [← Option.some.inj hd]
      · exact ih (by omega) hlow
    · exact hlow

theorem patch_chunk {pack rest : Bytes} {dataAt copyBegin copyEnd : Nat} {output : Sector} (hdata : pack.drop dataAt = c.bytes ++ rest)
    (hbegin : c.offset ≤ copyBegin ∧ sectorBegin ≤ copyBegin ∧ (copyBegin = c.offset ∨ copyBegin = sectorBegin))
    (hend : copyEnd ≤ c.stop ∧ copyEnd ≤ sectorBegin + sectorSize ∧ (copyEnd = c.stop ∨ copyEnd = sectorBegin + sectorSize))
    {j : Nat} (hj : j < sectorSize) :
    (if copyBegin < copyEnd then
        output.patch (copyBegin - sectorBegin) (slice pack (dataAt + copyBegin - c.offset) (copyEnd - copyBegin))
      else output).bytes.getD j 0 =
      if c.offset ≤ sectorBegin + j ∧ sectorBegin + j < c.stop then c.bytes.getD (sectorBegin + j - c.offset) 0
      else output.bytes.getD j 0 := by
  have hstop : c.stop = c.offset + c.bytes.length := rfl
  split
  · rename_i hlt
    have hpiece : slice pack (dataAt + copyBegin - c.offset) (copyEnd - copyBegin) = slice c.bytes (copyBegin - c.offset) (copyEnd - copyBegin) := by
      rw [← slice_append_left (b := c.bytes) (c := rest) (by omega), ← hdata, slice, slice, List.drop_drop, Nat.add_sub_assoc hbegin.1]
    have hlength : (slice c.bytes (copyBegin - c.offset) (copyEnd - copyBegin)).length = copyEnd - copyBegin := length_slice (by omega)
    have hroom : copyBegin - sectorBegin + (slice c.bytes (copyBegin - c.offset) (copyEnd - copyBegin)).length ≤ sectorSize := by omega
    rw [hpiece, Block.bytes_patch hroom, getD_overwrite (by rw [output.length_eq]; exact hroom), hlength]
    by_cases hin : c.offset ≤ sectorBegin + j ∧ sectorBegin + j < c.stop
    · rw [if_pos hin, if_pos (by omega), getD_slice (by omega)]
      congr 1
      omega
    · rw [if_neg hin, if_neg (by omega)]
  · rw [if_neg (by omega)]

theorem copyRows_bytes {pack : Bytes} {dataStart dataOffset : Nat} {output : Sector} (hordered : Ordered start chunks size)
    (hsize : size < 2 ^ 32) (hdata : pack.drop (dataStart + dataOffset) = chunks.flatMap Chunk.bytes)
    (hzero : ∀ k < sectorSize, start ≤ sectorBegin + k → output.bytes.getD k 0 = 0) {k : Nat} (hk : k < sectorSize) :
    (LiveImage.copyRows pack dataStart sectorBegin (sectorBegin + sectorSize) (chunks.map Chunk.row) dataOffset output).bytes.getD k 0 =
      if sectorBegin + k < start then output.bytes.getD k 0 else valueAt chunks (sectorBegin + k) := by
  induction chunks generalizing start dataOffset output with
  | nil =>
    rw [List.map_nil, LiveImage.copyRows]
    split
    · rfl
    · rename_i hstart
      exact hzero k hk (Nat.not_lt.mp hstart)
  | cons c chunks ih =>
    obtain ⟨hstart, -, hrest⟩ := hordered
    have hstop : c.stop = c.offset + c.bytes.length := rfl
    rw [List.map_cons, LiveImage.copyRows]
    by_cases hbreak : sectorBegin + sectorSize ≤ c.row.offset
    · rw [if_pos hbreak]
      have hoffset : sectorBegin + k < c.offset := Nat.lt_of_lt_of_le (Nat.add_lt_add_left hk _) hbreak
      split
      · rfl
      · rename_i hpast
        rw [hzero k hk (Nat.not_lt.mp hpast), valueAt_outside fun hin => Nat.not_lt.mpr hin.1 hoffset]
        exact (hrest.valueAt_below (by omega)).symm
    · rw [if_neg hbreak]
      have hbefore : c.offset < sectorBegin + sectorSize := Nat.not_le.mp hbreak
      have hend : (c.row.offset + c.row.length) % 2 ^ 32 = c.stop := Nat.mod_eq_of_lt (Nat.lt_of_le_of_lt hrest.le hsize)
      obtain ⟨copyBegin, hbegin⟩ : ∃ x, x = if sectorBegin < c.row.offset then c.row.offset else sectorBegin := ⟨_, rfl⟩
      obtain ⟨copyEnd, hcopyEnd⟩ : ∃ x, x = if c.stop < sectorBegin + sectorSize then c.stop else sectorBegin + sectorSize := ⟨_, rfl⟩
      have hbegin' : c.offset ≤ copyBegin ∧ sectorBegin ≤ copyBegin ∧ (copyBegin = c.offset ∨ copyBegin = sectorBegin) := by
        have hoffset : c.row.offset = c.offset := rfl
        rw [hbegin, hoffset]
        split <;> omega
      have hend' : copyEnd ≤ c.stop ∧ copyEnd ≤ sectorBegin + sectorSize ∧
          (copyEnd = c.stop ∨ copyEnd = sectorBegin + sectorSize) := by
        rw [hcopyEnd]
        split <;> omega
      dsimp only
      rw [hend, ← hbegin, ← hcopyEnd]
      obtain ⟨output', houtput⟩ : ∃ output', output' = if copyBegin < copyEnd then
          output.patch (copyBegin - sectorBegin)
            (slice pack (dataStart + dataOffset + copyBegin - c.row.offset) (copyEnd - copyBegin)) else output := ⟨_, rfl⟩
      rw [← houtput]
      have hbyte : ∀ j < sectorSize, output'.bytes.getD j 0 =
          if c.offset ≤ sectorBegin + j ∧ sectorBegin + j < c.stop then c.bytes.getD (sectorBegin + j - c.offset) 0
          else output.bytes.getD j 0 := fun j hj => houtput ▸ patch_chunk hdata hbegin' hend' hj
      have hafter : pack.drop (dataStart + (dataOffset + c.row.length)) = chunks.flatMap Chunk.bytes := by
        rw [← Nat.add_assoc, ← List.drop_drop, hdata, List.flatMap_cons]
        exact List.drop_left
      have hzero' : ∀ j < sectorSize, c.stop ≤ sectorBegin + j → output'.bytes.getD j 0 = 0 := by
        intro j hj hpast
        rw [hbyte j hj, if_neg fun hin => Nat.not_lt.mpr hpast hin.2]
        exact hzero j hj (by omega)
      rw [ih hrest hafter hzero', hbyte k hk]
      by_cases hin : c.offset ≤ sectorBegin + k ∧ sectorBegin + k < c.stop
      · rw [if_pos hin.2, if_pos hin, if_neg (by omega), valueAt_inside hin]
      · rw [if_neg hin, valueAt_outside hin]
        by_cases hfirst : sectorBegin + k < start
        · rw [if_pos hfirst, if_pos (by omega)]
        · rw [if_neg hfirst]
          split
          · rename_i hlt
            rw [hzero k hk (Nat.not_lt.mp hfirst), hrest.valueAt_below hlt]
          · rfl

theorem getD_liveReadBaseSector (sectors lba : Nat) {live : LiveImage} (hcount : live.chunkCount = chunks.length) (hfits : ∀ c ∈ chunks, c.Fits)
    (hordered : Ordered 0 chunks size) (hsize : size < 2 ^ 32) (hlba : lba * 512 + 512 ≤ size) {k : Nat} (hk : k < sectorSize) :
    (live.liveReadBaseSector (encodeSparse sectors chunks) lba).bytes.getD k 0 = valueAt chunks (lba * 512 + k) := by
  have hbegin : lba * sectorSize % 2 ^ 32 = lba * 512 := Nat.mod_eq_of_lt (by rw [sectorSize]; omega)
  have hend : (lba * 512 + sectorSize) % 2 ^ 32 = lba * 512 + sectorSize := Nat.mod_eq_of_lt (by rw [sectorSize]; omega)
  have hempty : ∀ j, (Block.of [] : Sector).bytes.getD j 0 = 0 := by
    intro j
    rw [Block.bytes_of (Nat.zero_le _), List.nil_append, List.getD_eq_getElem?_getD, List.getElem?_replicate]
    split <;> rfl
  rw [LiveImage.liveReadBaseSector, hbegin, hend, chunkRows_encodeSparse sectors hcount hfits]
  obtain ⟨low, hlow⟩ : ∃ low, low = LiveImage.firstRow (chunks.map Chunk.row) (lba * 512) live.chunkCount 0 live.chunkCount := ⟨_, rfl⟩
  have hskips : ∀ i < low, ∀ c, chunks[i]? = some c → c.stop ≤ lba * 512 := by
    rw [hlow]
    exact firstRow_skips hordered hsize live.chunkCount (Nat.le_of_eq hcount) fun i hi => absurd hi (Nat.not_lt_zero i)
  rw [← hlow]
  have hdrop : Ordered 0 (chunks.drop low) size := hordered.drop low
  have hdata := drop_encodeSparse sectors chunks low
  rw [← List.map_drop, hcount]
  refine (copyRows_bytes hdrop hsize hdata (fun j _ _ => hempty j) hk).trans ?_
  rw [if_neg (Nat.not_lt_zero _)]
  exact valueAt_drop fun i hi c hc => Nat.le_trans (hskips i hi c hc) (Nat.le_add_right _ _)

theorem validRows_map {sectors total acc : Nat} (hordered : Ordered start chunks size) (hsectors : size ≤ sectors * sectorSize)
    (hsize : size < 2 ^ 32) (htotal : acc + dataBytes chunks = total) :
    LiveImage.validRows sectors total (chunks.map Chunk.row) start acc = true := by
  induction chunks generalizing start acc with
  | nil => exact decide_eq_true htotal
  | cons c chunks ih =>
    obtain ⟨hstart, hne, hrest⟩ := hordered
    have hend : c.stop ≤ size := hrest.le
    have hmod : (c.offset + c.bytes.length) % 2 ^ 32 = c.stop := Nat.mod_eq_of_lt (Nat.lt_of_le_of_lt hend hsize)
    have hdata : dataBytes (c :: chunks) = c.bytes.length + dataBytes chunks := List.sum_cons
    have hpositive : c.bytes.length ≠ 0 := fun h => hne (List.eq_nil_of_length_eq_zero h)
    have hinside : c.offset + c.bytes.length ≤ sectors * sectorSize := Nat.le_trans hend hsectors
    rw [List.map_cons, LiveImage.validRows, if_neg]
    · show LiveImage.validRows sectors total (chunks.map Chunk.row) ((c.offset + c.bytes.length) % 2 ^ 32) (acc + c.bytes.length) = true
      rw [hmod]
      exact ih hrest (by omega)
    · rintro (h | h | h | h | h)
      · exact hpositive h
      · exact h rfl
      · exact absurd hstart (Nat.not_le.mpr h)
      · exact absurd hinside (Nat.not_le.mpr h)
      · exact absurd (show acc + c.bytes.length ≤ total by omega) (Nat.not_le.mpr h)

end Reading

/-! ### The image -/

/-- What the program made of an image. -/
structure Packed (image sparse : Bytes) (live : LiveImage) (whole : List Chunk) : Prop where
  finds : Finds 0 image whole
  aligned : image.length = live.logicalSectors * 512
  sectors : 0 < live.logicalSectors ∧ live.logicalSectors < 2 ^ 32
  chunks : whole ≠ [] ∧ whole.length < 2 ^ 32 ∧ dataBytes (whole.map Chunk.narrow) < 2 ^ 32
  sparse_eq : sparse = encodeSparse live.logicalSectors (whole.map Chunk.narrow)
  live_eq : live = ⟨sparse.length, fnv1a sparse, live.logicalSectors, whole.length, lzssCompress sparse⟩

section Image
variable {image sparse : Bytes} {live : LiveImage} {whole : List Chunk}

theorem packImage_eq {chunks : List Chunk} (hne : image ≠ []) (haligned : image.length % 512 = 0) (hsectors : image.length / 512 < 2 ^ 32)
    (hfind : findChunks image.length image 0 = some chunks) (hsome : chunks ≠ []) (hcount : chunks.length < 2 ^ 32)
    (hdata : dataBytes chunks < 2 ^ 32) (hsparse : encodeSparse (image.length / 512) chunks = sparse)
    (hsmall : lzssCompress sparse ≠ [] ∧ (lzssCompress sparse).length < sparse.length) :
    packImage image = some (sparse, ⟨sparse.length, fnv1a sparse, image.length / 512, chunks.length, lzssCompress sparse⟩) := by
  subst hsparse
  have hmax : u32Max = 4294967295 := rfl
  have hsize : sectorSize = 512 := rfl
  rw [packImage, hsize, if_neg (by rintro (h | h | h); exacts [hne h, h haligned, by omega])]
  show (findChunks image.length image 0).bind _ = _
  rw [hfind, Option.bind_some, if_neg (by rintro (h | h | h); exacts [hsome h, by omega, by omega])]
  exact if_neg (by rintro (h | h); exacts [hsmall.1 h, absurd hsmall.2 (Nat.not_lt.mpr h)])

theorem packed_of_packImage (h : packImage image = some (sparse, live)) : ∃ whole, Packed image sparse live whole := by
  have hmax : u32Max = 4294967295 := rfl
  have hsize : sectorSize = 512 := rfl
  rw [packImage, hsize] at h
  split at h
  · cases h
  rename_i hshape
  obtain ⟨hne, haligned, hsectors⟩ : image ≠ [] ∧ image.length % 512 = 0 ∧ image.length / 512 ≤ u32Max := by
    refine ⟨fun h => hshape (.inl h), ?_, ?_⟩
    · exact Decidable.not_not.mp fun h => hshape (.inr (.inl h))
    · exact Nat.not_lt.mp fun h => hshape (.inr (.inr h))
  obtain ⟨chunks, hfind, h⟩ := Option.bind_eq_some_iff.mp h
  obtain ⟨whole, rfl, hfinds⟩ := findChunks_spec hfind (Nat.le_refl _)
  split at h
  · cases h
  rename_i hchunks
  dsimp only at h
  split at h
  · cases h
  obtain ⟨rfl, rfl⟩ := Prod.mk.inj (Option.some.inj h)
  have hpositive : 0 < image.length := List.length_pos_iff.mpr hne
  have hlength : (whole.map Chunk.narrow).length = whole.length := List.length_map _
  refine ⟨whole, hfinds, by dsimp only; omega, ⟨by dsimp only; omega, by dsimp only; omega⟩, ⟨?_, ?_, ?_⟩, rfl, ?_⟩
  · rintro rfl
    exact hchunks (.inl rfl)
  · have hcount : ¬u32Max < (whole.map Chunk.narrow).length := fun h => hchunks (.inr (.inl h))
    omega
  · have hdata : ¬u32Max < dataBytes (whole.map Chunk.narrow) := fun h => hchunks (.inr (.inr h))
    omega
  · rw [hlength]

theorem Packed.fits (h : Packed image sparse live whole) : ∀ c ∈ whole.map Chunk.narrow, c.Fits := by
  intro c hc
  obtain ⟨d, hd, rfl⟩ := List.mem_map.mp hc
  exact ⟨Nat.mod_lt _ (Nat.two_pow_pos 32), h.finds.short d hd⟩

theorem Packed.chunkCount (h : Packed image sparse live whole) : live.chunkCount = (whole.map Chunk.narrow).length := by
  rw [h.live_eq, List.length_map]

theorem Packed.decompressed (h : Packed image sparse live whole) : live.liveDecompressPack live.packBytes = some sparse := by
  have hbytes : live.packBytes = sparse.length := by rw [h.live_eq]
  have hcompressed : live.compressed = lzssCompress sparse := by rw [h.live_eq]
  rw [LiveImage.liveDecompressPack, if_neg fun hne => hne rfl, hbytes, hcompressed, decompress_compress]

theorem Packed.livePackValid (h : Packed image sparse live whole) :
    live.livePackValid sparse =
      LiveImage.validRows live.logicalSectors (dataBytes (whole.map Chunk.narrow)) ((whole.map Chunk.narrow).map Chunk.row) 0 0 := by
  have hchecksum : live.packChecksum = fnv1a sparse := by rw [h.live_eq]
  have hbytes : live.packBytes = sparse.length := by rw [h.live_eq]
  have hcount := h.chunkCount
  have hrows := chunkRows_encodeSparse live.logicalSectors h.chunkCount h.fits
  obtain ⟨hpositive, hsectors⟩ := h.sectors
  obtain ⟨hne, hchunks, hdata⟩ := h.chunks
  obtain ⟨chunks, hmap⟩ : ∃ chunks, chunks = whole.map Chunk.narrow := ⟨_, rfl⟩
  have hsome : 0 < chunks.length := by
    rw [hmap, List.length_map]
    exact List.length_pos_iff.mpr hne
  have hfew : chunks.length < 2 ^ 32 := by rwa [hmap, List.length_map]
  have hsparse := h.sparse_eq
  rw [← hmap] at hcount hdata hrows hsparse ⊢
  have hlength : sparse.length = 20 + chunks.length * 8 + dataBytes chunks := by rw [hsparse, length_encodeSparse]
  have hfields : sparse = ascii "ZLIVE002" ++ (le 4 live.logicalSectors ++ (le 4 chunks.length ++ (le 4 (dataBytes chunks) ++
      (chunks.flatMap encodeRow ++ chunks.flatMap Chunk.bytes)))) := by
    rw [hsparse, encodeSparse]
    simp only [List.append_assoc]
  have hmagic : slice sparse 0 8 = ascii "ZLIVE002" := hfields ▸ slice_first rfl
  have hfirst : slice sparse 8 4 = le 4 live.logicalSectors := slice_field _ _ rfl (length_le 4 _) hfields
  have hsecond : slice sparse 12 4 = le 4 chunks.length :=
    slice_field (ascii "ZLIVE002" ++ le 4 live.logicalSectors) _ rfl (length_le 4 _) (by rw [List.append_assoc]; exact hfields)
  have hthird : slice sparse 16 4 = le 4 (dataBytes chunks) :=
    slice_field (ascii "ZLIVE002" ++ (le 4 live.logicalSectors ++ le 4 chunks.length)) _ rfl (length_le 4 _)
      (by rw [List.append_assoc, List.append_assoc]; exact hfields)
  have hheader : LiveImage.packHeaderBytes = 20 := rfl
  have hrow : LiveImage.packChunkBytes = 8 := rfl
  rw [← hsparse] at hrows
  unfold LiveImage.livePackValid
  dsimp only
  rw [hmagic, hfirst, hsecond, hthird, toNat_le_of_lt (by omega), toNat_le_of_lt (by omega), toNat_le_of_lt (by omega), hbytes,
    slice_of_length rfl, ← hchecksum, hcount, hrows, hheader, hrow, decide_eq_true (by omega : 20 ≤ sparse.length),
    decide_eq_true (by omega : live.logicalSectors ≠ 0), decide_eq_true (by omega : chunks.length ≠ 0),
    decide_eq_true (by omega : 20 + chunks.length * 8 ≤ sparse.length),
    decide_eq_true (by omega : 20 + chunks.length * 8 + dataBytes chunks = sparse.length)]
  simp

/-- The kernel has the image back: it decompresses the pack, accepts it and reads every sector. -/
structure ReadsBack (image sparse : Bytes) (live : LiveImage) : Prop where
  decompressed : live.liveDecompressPack live.packBytes = some sparse
  valid : live.livePackValid sparse = true
  sectors : ∀ lba < live.logicalSectors, (live.liveReadBaseSector sparse lba).bytes = slice image (lba * sectorSize) sectorSize

theorem Packed.readsBack (h : Packed image sparse live whole) (hfew : live.logicalSectors ≤ 32768) : ReadsBack image sparse live := by
  have haligned := h.aligned
  have hordered : Ordered 0 whole (live.logicalSectors * 512) := by
    have hordered := h.finds.ordered
    rwa [Nat.zero_add, haligned] at hordered
  have hnarrow : whole.map Chunk.narrow = whole := by
    refine (List.map_congr_left fun c hc => ?_).trans (List.map_id _)
    have hstop : c.stop ≤ live.logicalSectors * 512 := (hordered.mem hc).2.2
    have hoffset : c.offset ≤ c.stop := Nat.le_add_right _ _
    show Chunk.mk (c.offset % 2 ^ 32) c.bytes = c
    rw [Nat.mod_eq_of_lt (by omega)]
  have hcount := h.chunkCount
  have hfits := h.fits
  have hvalid := h.livePackValid
  have hsparse := h.sparse_eq
  rw [hnarrow] at hcount hfits hvalid hsparse
  refine ⟨h.decompressed, ?_, fun lba hlba => ?_⟩
  · rw [hvalid]
    exact validRows_map hordered (Nat.le_refl _) (by omega) (Nat.zero_add _)
  · have hsize : sectorSize = 512 := rfl
    have hlength : (slice image (lba * sectorSize) sectorSize).length = sectorSize := length_slice (by rw [hsize, haligned]; omega)
    apply List.ext_getElem
    · rw [Block.length_eq, hlength]
    · intro k hk hk'
      rw [Block.length_eq] at hk
      have hread := getD_liveReadBaseSector live.logicalSectors lba hcount hfits hordered (by omega) (by omega) hk
      rw [List.getElem_eq_getD 0, List.getElem_eq_getD 0, getD_slice hk, hsparse, hread, h.finds.value, Nat.zero_add, hsize]

theorem liveReadBaseSector_last {block k : Nat} : (live.liveReadBaseSector sparse (block * 2 ^ 23 + (2 ^ 23 - 1))).bytes.getD k 0 = 0 := by
  have hend : ((block * 2 ^ 23 + (2 ^ 23 - 1)) * sectorSize % 2 ^ 32 + sectorSize) % 2 ^ 32 = 0 := by
    rw [sectorSize]
    omega
  have hcopy : ∀ dataStart sectorBegin rows dataOffset (output : Sector),
      LiveImage.copyRows sparse dataStart sectorBegin 0 rows dataOffset output = output := by
    intro dataStart sectorBegin rows dataOffset output
    cases rows with
    | nil => rfl
    | cons row rows => exact if_pos (Nat.zero_le _)
  rw [LiveImage.liveReadBaseSector, hend, hcopy, Block.bytes_of (Nat.zero_le _), List.nil_append, List.getD_eq_getElem?_getD,
    List.getElem?_replicate]
  split <;> rfl

theorem liveReadBaseSector_periodic (lba : Nat) : live.liveReadBaseSector sparse (lba + 2 ^ 23) = live.liveReadBaseSector sparse lba := by
  have hbegin : (lba + 2 ^ 23) * sectorSize % 2 ^ 32 = lba * sectorSize % 2 ^ 32 := by
    rw [sectorSize]
    omega
  rw [LiveImage.liveReadBaseSector, LiveImage.liveReadBaseSector, hbegin]

theorem ReadsBack.getD (h : ReadsBack image sparse live) (lba k : Nat) (hlba : lba < live.logicalSectors) (hk : k < 512) :
    image.getD (lba * 512 + k) 0 = (live.liveReadBaseSector sparse lba).bytes.getD k 0 := by
  rw [h.sectors lba hlba]
  exact (getD_slice hk).symm

theorem Ordered.valueAt_chunk {start size : Nat} {chunks : List Chunk} {c : Chunk} {x : Nat} (h : Ordered start chunks size) (hc : c ∈ chunks)
    (hin : c.offset ≤ x ∧ x < c.stop) : valueAt chunks x = c.bytes.getD (x - c.offset) 0 := by
  induction chunks generalizing start with
  | nil => cases hc
  | cons d chunks ih =>
    rcases List.mem_cons.mp hc with rfl | hc
    · exact valueAt_inside hin
    · have hbehind := (h.2.2.mem hc).1
      rw [valueAt_outside (by omega)]
      exact ih h.2.2 hc

theorem Packed.inside_block (h : Packed image sparse live whole) (hreads : ReadsBack image sparse live) {c : Chunk} (hc : c ∈ whole) :
    c.offset % 2 ^ 32 + c.bytes.length < 2 ^ 32 := by
  apply Nat.not_le.mp
  intro hlong
  have hordered := h.finds.ordered
  have hstop : c.stop = c.offset + c.bytes.length := rfl
  have hsize : c.stop ≤ live.logicalSectors * 512 := by
    have hle := (hordered.mem hc).2.2
    rwa [Nat.zero_add, h.aligned] at hle
  obtain ⟨block, hblock⟩ : ∃ block, block = c.offset / 2 ^ 32 := ⟨_, rfl⟩
  -- the last byte of the block is in the chunk
  obtain ⟨j, hj, hnear, hbyte⟩ := h.finds.tight c hc (block * 2 ^ 32 + (2 ^ 32 - 1) - c.offset) (by omega)
  have hgap : zeroGap = 8 := rfl
  have hvalue : image.getD (c.offset + j) 0 = c.bytes.getD j 0 := by
    rw [h.finds.value, Nat.zero_add, hordered.valueAt_chunk hc (by omega), Nat.add_sub_cancel_left]
  have hsector : c.offset + j = (block * 2 ^ 23 + (2 ^ 23 - 1)) * 512 + (c.offset + j - (block * 2 ^ 23 + (2 ^ 23 - 1)) * 512) := by omega
  have hread := hreads.getD (block * 2 ^ 23 + (2 ^ 23 - 1)) (c.offset + j - (block * 2 ^ 23 + (2 ^ 23 - 1)) * 512) (by omega) (by omega)
  rw [← hsector, hvalue, liveReadBaseSector_last] at hread
  exact hbyte hread

theorem ordered_of_validRows {sectors total start acc : Nat} {chunks : List Chunk}
    (hvalid : LiveImage.validRows sectors total (chunks.map Chunk.row) start acc = true) (hne : ∀ c ∈ chunks, c.bytes ≠ [])
    (hinside : ∀ c ∈ chunks, c.stop < 2 ^ 32) (hstart : start ≤ 2 ^ 32) : Ordered start chunks (2 ^ 32) := by
  induction chunks generalizing start acc with
  | nil => exact hstart
  | cons c chunks ih =>
    have hc := hinside c List.mem_cons_self
    have hmod : (c.row.offset + c.row.length) % 2 ^ 32 = c.stop := Nat.mod_eq_of_lt hc
    rw [List.map_cons, LiveImage.validRows] at hvalid
    split at hvalid
    · cases hvalid
    · rename_i hrow
      rw [hmod] at hvalid
      have hoffset : ¬c.row.offset < start := fun h => hrow (.inr (.inr (.inl h)))
      exact ⟨Nat.not_lt.mp hoffset, hne c List.mem_cons_self,
        ih hvalid (fun d hd => hne d (List.mem_cons_of_mem c hd)) (fun d hd => hinside d (List.mem_cons_of_mem c hd)) (Nat.le_of_lt hc)⟩

theorem Packed.not_readsBack (h : Packed image sparse live whole) (hmany : 2 ^ 31 ≤ live.logicalSectors) : ¬ReadsBack image sparse live := by
  intro hreads
  have hordered := h.finds.ordered
  rw [Nat.zero_add, h.aligned] at hordered
  have hinside := fun c hc => h.inside_block hreads (c := c) hc
  obtain ⟨c, hc⟩ := List.exists_mem_of_ne_nil whole h.chunks.1
  obtain ⟨j, hj, -, hbyte⟩ := h.finds.tight c hc 0 (List.length_pos_iff.mpr (hordered.mem hc).2.1)
  obtain rfl : j = 0 := Nat.le_zero.mp hj
  have hpositive : 0 < c.bytes.length := List.length_pos_iff.mpr (hordered.mem hc).2.1
  have hstop : c.stop ≤ live.logicalSectors * 512 := (hordered.mem hc).2.2
  have hvalue : image.getD c.offset 0 ≠ 0 := by
    rw [h.finds.value, Nat.zero_add, hordered.valueAt_chunk hc ⟨Nat.le_refl _, Nat.lt_add_of_pos_right hpositive⟩, Nat.sub_self]
    exact hbyte
  -- the two bytes
  have hperiod : ∀ x, x + 2 ^ 32 < live.logicalSectors * 512 → image.getD (x + 2 ^ 32) 0 = image.getD x 0 := by
    intro x hx
    have hnear := hreads.getD (x / 512) (x % 512) (by omega) (by omega)
    have hfar := hreads.getD (x / 512 + 2 ^ 23) (x % 512) (by omega) (by omega)
    rw [liveReadBaseSector_periodic, ← hnear] at hfar
    rwa [show (x / 512 + 2 ^ 23) * 512 + x % 512 = x + 2 ^ 32 by omega, show x / 512 * 512 + x % 512 = x by omega] at hfar
  obtain ⟨x, hx, hnonzero⟩ : ∃ x, x + 2 ^ 32 < live.logicalSectors * 512 ∧ image.getD x 0 ≠ 0 := by
    have hoffset : c.stop = c.offset + c.bytes.length := rfl
    by_cases hfar : c.offset + 2 ^ 32 < live.logicalSectors * 512
    · exact ⟨c.offset, hfar, hvalue⟩
    · have hback := hperiod (c.offset - 2 ^ 32) (by omega)
      rw [Nat.sub_add_cancel (by omega)] at hback
      exact ⟨c.offset - 2 ^ 32, by omega, hback ▸ hvalue⟩
  have hfar := hperiod x hx
  rw [h.finds.value, Nat.zero_add] at hnonzero hfar
  rw [h.finds.value, Nat.zero_add] at hfar
  obtain ⟨a, ha, hina⟩ := valueAt_mem hnonzero
  obtain ⟨b, hb, hinb⟩ := valueAt_mem (hfar ▸ hnonzero)
  -- their chunks are in order in the pack, which they cannot be
  have hvalid := hreads.valid
  rw [h.livePackValid] at hvalid
  have hnarrow : Ordered 0 (whole.map Chunk.narrow) (2 ^ 32) := by
    refine ordered_of_validRows hvalid (fun d hd => ?_) (fun d hd => ?_) (Nat.zero_le _)
    · obtain ⟨e, he, rfl⟩ := List.mem_map.mp hd
      exact (hordered.mem he).2.1
    · obtain ⟨e, he, rfl⟩ := List.mem_map.mp hd
      exact hinside e he
  have hpairs := List.pairwise_map.mp hnarrow.pairwise
  have hblocka := hinside a ha
  have hblockb := hinside b hb
  have hstopa : a.stop = a.offset + a.bytes.length := rfl
  have hstopb : b.stop = b.offset + b.bytes.length := rfl
  have hnarrowa : a.narrow.stop = a.offset % 2 ^ 32 + a.bytes.length := rfl
  have hnarrowb : b.narrow.stop = b.offset % 2 ^ 32 + b.bytes.length := rfl
  have hoffseta : a.narrow.offset = a.offset % 2 ^ 32 := rfl
  have hoffsetb : b.narrow.offset = b.offset % 2 ^ 32 := rfl
  obtain ⟨i, hi, rfl⟩ := List.getElem_of_mem ha
  obtain ⟨j, hj, rfl⟩ := List.getElem_of_mem hb
  rcases Nat.lt_trichotomy i j with hij | rfl | hij
  · have hle := List.pairwise_iff_getElem.mp hpairs i j hi hj hij
    omega
  · omega
  · have hle := List.pairwise_iff_getElem.mp hpairs j i hj hi hij
    omega

/-- The kernel has back every image that its assertions let pass, if and only if the overlay map has a slot for each
    sector: the product in the assertion has 32 bits, and an image of 2^31 sectors passes as well. -/
theorem readsBack_iff (h : packImage image = some (sparse, live)) (hasserted : live.Asserted) :
    ReadsBack image sparse live ↔ live.logicalSectors ≤ 32768 := by
  obtain ⟨whole, hpacked⟩ := packed_of_packImage h
  have hmap : LiveImage.overlayMapBytes = 65536 := rfl
  have hwrap := hasserted.2.2
  have hsectors := hpacked.sectors.2
  constructor
  · intro hreads
    apply Nat.not_lt.mp
    intro hmany
    exact hpacked.not_readsBack (by omega) hreads
  · exact hpacked.readsBack

/-- An image of one sector. -/
theorem readsBack_iff_sample :
    ∃ sparse live, packImage (List.replicate 24 7 ++ List.replicate 488 0) = some (sparse, live) ∧ live.Asserted ∧
      (ReadsBack (List.replicate 24 7 ++ List.replicate 488 0) sparse live ↔ live.logicalSectors ≤ 32768) := by
  have hfind : findChunks 512 (List.replicate 24 7 ++ List.replicate 488 0) 0 = some [⟨0, List.replicate 24 7⟩] := by decide +kernel
  have hlength : (List.replicate 24 (7 : UInt8) ++ List.replicate 488 0).length = 512 := by
    rw [List.length_append, List.length_replicate, List.length_replicate]
  generalize (List.replicate 24 7 ++ List.replicate 488 0 : Bytes) = image at hfind hlength ⊢
  have hsectors : image.length / 512 = 1 := by omega
  obtain ⟨sparse, hsparse⟩ : ∃ sparse, sparse = encodeSparse 1 [⟨0, List.replicate 24 7⟩] := ⟨_, rfl⟩
  have hsizes : sparse.length = 52 ∧ (lzssCompress sparse).length = 29 := by
    rw [hsparse]
    decide +kernel
  have hencode : encodeSparse (image.length / 512) [⟨0, List.replicate 24 7⟩] = sparse := by rw [hsectors, hsparse]
  have hpack := packImage_eq (fun h => by rw [h] at hlength; cases hlength) (by omega) (by omega) (hlength ▸ hfind)
    (List.cons_ne_nil _ _) (by decide) (by decide) hencode
    ⟨fun h => by rw [h] at hsizes; exact absurd hsizes.2 (by decide), by omega⟩
  rw [hsectors] at hpack
  have hsmall : (lzssCompress sparse).length < 32768 ∧ sparse.length ≤ 65536 := by omega
  have hwrap : 1 * 2 % 2 ^ 32 ≤ 65536 := by decide
  have hasserted : LiveImage.Asserted ⟨sparse.length, fnv1a sparse, 1, 1, lzssCompress sparse⟩ := ⟨hsmall.1, hsmall.2, hwrap⟩
  exact ⟨sparse, _, hpack, hasserted, readsBack_iff hpack hasserted⟩

end Image

/-! ### Two images -/

theorem findChunks_zeros {b : UInt8} (hb : b ≠ 0) (n left i : Nat) :
    findChunks (left + 1) (List.replicate n 0 ++ [b]) i = some [⟨(i + n) % 2 ^ 32, [b]⟩] := by
  have htake : (List.replicate n (0 : UInt8) ++ [b]).takeWhile (· = 0) = List.replicate n 0 := by
    rw [List.takeWhile_append_of_pos fun a ha => decide_eq_true (List.eq_of_mem_replicate ha)]
    simp [hb]
  have hdrop : (List.replicate n (0 : UInt8) ++ [b]).dropWhile (· = 0) = [b] := by
    rw [List.dropWhile_append_of_pos fun a ha => decide_eq_true (List.eq_of_mem_replicate ha)]
    simp [hb]
  have hlength : i + n + 1 - (i + n) = 1 := Nat.add_sub_cancel_left _ _
  have hrest : ∀ stop, findChunks left [] stop = some [] := by
    intro stop
    cases left with
    | zero => rfl
    | succ left => rfl
  rw [findChunks]
  dsimp only
  rw [htake, hdrop, List.length_replicate, if_neg (List.cons_ne_nil _ _), List.tail_cons, scanChunk, hlength, if_neg (by decide)]
  show (findChunks left [] _).bind _ = _
  rw [hrest]
  rfl

theorem last_byte_lost {n : Nat} (hn : n + 1 = 2 ^ 40) :
    ∃ sparse live, packImage (List.replicate n 0 ++ [1]) = some (sparse, live) ∧ live.Asserted ∧ ∃ lba < live.logicalSectors,
      (live.liveReadBaseSector sparse lba).bytes ≠ slice (List.replicate n 0 ++ [1]) (lba * sectorSize) sectorSize := by
  obtain ⟨image, himage⟩ : ∃ image : Bytes, image = List.replicate n 0 ++ [1] := ⟨_, rfl⟩
  have hlength : image.length = 2 ^ 40 := by
    rw [himage, List.length_append, List.length_replicate, List.length_singleton, hn]
  have hfind : findChunks image.length image 0 = some [⟨2 ^ 32 - 1, [1]⟩] := by
    rw [hlength, himage, ← hn, findChunks_zeros (by decide), show (0 + n) % 2 ^ 32 = 2 ^ 32 - 1 by omega]
  have hsectors : image.length / 512 = 2 ^ 31 := by omega
  obtain ⟨sparse, hsparse⟩ : ∃ sparse, sparse = encodeSparse (2 ^ 31) [⟨2 ^ 32 - 1, [1]⟩] := ⟨_, rfl⟩
  have hsizes : sparse.length = 29 ∧ (lzssCompress sparse).length = 25 := by
    rw [hsparse]
    decide +kernel
  have hlast : image.getD n 0 = 1 := by
    rw [himage, List.getD_eq_getElem?_getD, List.getElem?_append_right (by simp), List.length_replicate, Nat.sub_self]
    rfl
  have hencode : encodeSparse (image.length / 512) [⟨2 ^ 32 - 1, [1]⟩] = sparse := by rw [hsectors, hsparse]
  have hpack := packImage_eq (fun h => by rw [h] at hlength; cases hlength) (by omega) (by omega) hfind
    (List.cons_ne_nil _ _) (by decide) (by decide) hencode
    ⟨fun h => by rw [h] at hsizes; exact absurd hsizes.2 (by decide), by omega⟩
  rw [hsectors] at hpack
  rw [← himage]
  have hsmall : (lzssCompress sparse).length < 32768 ∧ sparse.length ≤ 65536 := by omega
  have hwrap : 2 ^ 31 * 2 % 2 ^ 32 ≤ 65536 ∧ 2 ^ 31 - 1 < 2 ^ 31 := by decide
  refine ⟨_, _, hpack, ⟨hsmall.1, hsmall.2, hwrap.1⟩, 2 ^ 31 - 1, hwrap.2, fun heq => ?_⟩
  have hbyte := congrArg (fun bytes : Bytes => bytes.getD 511 0) heq
  have hsector : 2 ^ 31 - 1 = 255 * 2 ^ 23 + (2 ^ 23 - 1) := rfl
  rw [hsector, liveReadBaseSector_last, getD_slice (by decide), show (255 * 2 ^ 23 + (2 ^ 23 - 1)) * sectorSize + 511 = n by rw [sectorSize]; omega,
    hlast] at hbyte
  exact absurd hbyte (by decide)

/-- An image of 2^31 sectors with one byte, the last: it passes, and its last sector reads as zeros. -/
theorem last_sector_lost :
    let image : Bytes := List.replicate (2 ^ 40 - 1) 0 ++ [1]
    ∃ sparse live, packImage image = some (sparse, live) ∧ live.Asserted ∧
      ∃ lba < live.logicalSectors, (live.liveReadBaseSector sparse lba).bytes ≠ slice image (lba * sectorSize) sectorSize :=
  last_byte_lost (Nat.sub_add_cancel (Nat.one_le_two_pow))

end ZenovOS.LiveImagePack
