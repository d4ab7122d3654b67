import ZenovOS.Tools.LiveImagePack

/-! # What the packer makes

The chunks of an image lie behind one another and hold every byte of it that is not zero. The compressed pack is a
series of tokens that describe the pack, eight behind each flag byte. -/

namespace ZenovOS.LiveImagePack
open Bytes Storage Lzss

/-! ### Chunks -/

def Chunk.stop (c : Chunk) : Nat := c.offset + c.bytes.length

/-- The chunks lie behind one another between two positions. -/
def Ordered : Nat → List Chunk → Nat → Prop
  | start, [], size => start ≤ size
  | start, c :: chunks, size => start ≤ c.offset ∧ c.bytes ≠ [] ∧ Ordered c.stop chunks size

/-- The byte at a position: a chunk's, or else zero. -/
def valueAt : List Chunk → Nat → UInt8
  | [], _ => 0
  | c :: chunks, x => if c.offset ≤ x ∧ x < c.stop then c.bytes.getD (x - c.offset) 0 else valueAt chunks x

/-- Wherever one looks in the chunk, a byte shortly before is not zero. -/
def Tight (c : Chunk) : Prop := ∀ k < c.bytes.length, ∃ j ≤ k, k ≤ j + zeroGap ∧ c.bytes.getD j 0 ≠ 0

/-- The chunk as the pack has it: its offset in 32 bits. -/
def Chunk.narrow (c : Chunk) : Chunk := ⟨c.offset % 2 ^ 32, c.bytes⟩

section Chunks
variable {start size i left lastNonzero : Nat} {chunks : List Chunk} {c : Chunk} {rest : Bytes}

theorem Ordered.le (h : Ordered start chunks size) : start ≤ size := by
  induction chunks generalizing start with
  | nil => exact h
  | cons c chunks ih =>
    obtain ⟨hle, -, hrest⟩ := h
    exact Nat.le_trans hle (Nat.le_trans (Nat.le_add_right _ _) (ih hrest))

theorem Ordered.mono {start' : Nat} (h : Ordered start chunks size) (hle : start' ≤ start) : Ordered start' chunks size := by
  cases chunks with
  | nil => exact Nat.le_trans hle h
  | cons c chunks => exact ⟨Nat.le_trans hle h.1, h.2⟩

theorem Ordered.mem (h : Ordered start chunks size) (hc : c ∈ chunks) : start ≤ c.offset ∧ c.bytes ≠ [] ∧ c.stop ≤ size := by
  induction chunks generalizing start with
  | nil => cases hc
  | cons d chunks ih =>
    obtain ⟨hle, hne, hrest⟩ := h
    rcases List.mem_cons.mp hc with rfl | hc
    · exact ⟨hle, hne, hrest.le⟩
    · obtain ⟨hle', hne', hstop⟩ := ih hrest hc
      have hd : d.offset ≤ d.stop := Nat.le_add_right _ _
      exact ⟨Nat.le_trans hle (Nat.le_trans hd hle'), hne', hstop⟩

theorem Ordered.pairwise (h : Ordered start chunks size) : chunks.Pairwise fun a b => a.stop ≤ b.offset := by
  induction chunks generalizing start with
  | nil => exact .nil
  | cons c chunks ih => exact .cons (fun d hd => (h.2.2.mem hd).1) (ih h.2.2)

theorem Ordered.drop (h : Ordered start chunks size) (count : Nat) : Ordered start (chunks.drop count) size := by
  induction chunks generalizing start count with
  | nil => rwa [List.drop_nil]
  | cons c chunks ih =>
    cases count with
    | zero => exact h
    | succ count => exact (ih h.2.2 count).mono (Nat.le_trans h.1 (Nat.le_add_right _ _))

theorem Ordered.valueAt_below (h : Ordered start chunks size) {x : Nat} (hx : x < start) : valueAt chunks x = 0 := by
  induction chunks generalizing start with
  | nil => rfl
  | cons c chunks ih =>
    have hoffset : x < c.offset := Nat.lt_of_lt_of_le hx h.1
    rw [valueAt, if_neg fun hin => Nat.not_lt.mpr hin.1 hoffset]
    exact ih h.2.2 (Nat.lt_of_lt_of_le hoffset (Nat.le_add_right _ _))

theorem valueAt_inside {x : Nat} (h : c.offset ≤ x ∧ x < c.stop) : valueAt (c :: chunks) x = c.bytes.getD (x - c.offset) 0 := if_pos h

theorem valueAt_outside {x : Nat} (h : ¬(c.offset ≤ x ∧ x < c.stop)) : valueAt (c :: chunks) x = valueAt chunks x := if_neg h

theorem valueAt_mem {x : Nat} (h : valueAt chunks x ≠ 0) : ∃ c ∈ chunks, c.offset ≤ x ∧ x < c.stop := by
  induction chunks with
  | nil => exact absurd rfl h
  | cons c chunks ih =>
    rw [valueAt] at h
    split at h
    · rename_i hin
      exact ⟨c, List.mem_cons_self, hin⟩
    · obtain ⟨d, hd, hin⟩ := ih h
      exact ⟨d, List.mem_cons_of_mem c hd, hin⟩

theorem scanChunk_spec (rest : Bytes) (i lastNonzero : Nat) (hlast : lastNonzero < i) (hgap : i ≤ lastNonzero + zeroGap + 1) :
    let r := scanChunk rest i lastNonzero
    lastNonzero ≤ r ∧ r < i + rest.length ∧
      ∀ x, lastNonzero < x → x ≤ r → ∃ y, lastNonzero ≤ y ∧ y ≤ x ∧ x ≤ y + zeroGap ∧
        (y = lastNonzero ∨ i ≤ y ∧ rest.getD (y - i) 0 ≠ 0) := by
  induction rest generalizing i lastNonzero with
  | nil =>
    refine ⟨Nat.le_refl _, hlast, fun x hx hle => ?_⟩
    exact absurd hle (Nat.not_le.mpr hx)
  | cons b rest ih =>
    have hshift : ∀ y, i + 1 ≤ y → (b :: rest).getD (y - i) 0 = rest.getD (y - (i + 1)) 0 := by
      intro y hy
      rw [show y - i = y - (i + 1) + 1 by omega]
      rfl
    rw [scanChunk]
    by_cases hb : b = 0
    · rw [if_neg fun hne => hne hb]
      by_cases hlong : zeroGap < i - lastNonzero
      · rw [if_pos hlong]
        refine ⟨Nat.le_refl _, by omega, fun x hx hle => ?_⟩
        exact absurd hle (Nat.not_le.mpr hx)
      · rw [if_neg hlong]
        obtain ⟨hle, hlt, hnear⟩ := ih (i + 1) lastNonzero (by omega) (by omega)
        refine ⟨hle, by rw [List.length_cons]; omega, fun x hx hxr => ?_⟩
        obtain ⟨y, hy, hyx, hxy, hvalue⟩ := hnear x hx hxr
        refine ⟨y, hy, hyx, hxy, hvalue.imp_right fun hv => ⟨by omega, ?_⟩⟩
        rw [hshift y hv.1]
        exact hv.2
    · rw [if_pos hb]
      obtain ⟨hle, hlt, hnear⟩ := ih (i + 1) i (by omega) (by omega)
      refine ⟨by omega, by rw [List.length_cons]; omega, fun x hx hxr => ?_⟩
      have hself : (b :: rest).getD (i - i) 0 ≠ 0 := by
        rw [Nat.sub_self]
        exact hb
      rcases Nat.lt_trichotomy x i with hxi | rfl | hxi
      · exact ⟨lastNonzero, Nat.le_refl _, by omega, by omega, .inl rfl⟩
      · exact ⟨x, by omega, Nat.le_refl _, by omega, .inr ⟨Nat.le_refl _, hself⟩⟩
      · obtain ⟨y, hy, hyx, hxy, hvalue⟩ := hnear x hxi hxr
        refine ⟨y, by omega, hyx, hxy, .inr ?_⟩
        rcases hvalue with rfl | ⟨hiy, hvalue⟩
        · exact ⟨Nat.le_refl _, hself⟩
        · refine ⟨by omega, ?_⟩
          rw [hshift y hiy]
          exact hvalue

/-- What the search finds in the image from a position on, before offsets are cut to 32 bits. -/
structure Finds (i : Nat) (rest : Bytes) (chunks : List Chunk) : Prop where
  ordered : Ordered i chunks (i + rest.length)
  tight : ∀ c ∈ chunks, Tight c
  short : ∀ c ∈ chunks, c.bytes.length ≤ maxChunkBytes
  value : ∀ k, rest.getD k 0 = valueAt chunks (i + k)

theorem Finds.cons {zeros : Nat} {bytes tail : Bytes} (h : Finds (i + zeros + bytes.length) tail chunks) (hne : bytes ≠ [])
    (htight : Tight ⟨i + zeros, bytes⟩) (hshort : bytes.length ≤ maxChunkBytes) :
    Finds i (List.replicate zeros 0 ++ (bytes ++ tail)) (⟨i + zeros, bytes⟩ :: chunks) where
  ordered := by
    refine ⟨Nat.le_add_right _ _, hne, ?_⟩
    have hsize : i + (List.replicate zeros (0 : UInt8) ++ (bytes ++ tail)).length = i + zeros + bytes.length + tail.length := by
      simp only [List.length_append, List.length_replicate]
      omega
    rw [hsize]
    exact h.ordered
  tight c hc := by
    rcases List.mem_cons.mp hc with rfl | hc
    · exact htight
    · exact h.tight c hc
  short c hc := by
    rcases List.mem_cons.mp hc with rfl | hc
    · exact hshort
    · exact h.short c hc
  value k := by
    have hstop : (⟨i + zeros, bytes⟩ : Chunk).stop = i + zeros + bytes.length := rfl
    rw [List.getD_eq_getElem?_getD]
    by_cases hzero : k < zeros
    · have hbelow : valueAt chunks (i + k) = 0 := h.ordered.valueAt_below (by omega)
      rw [valueAt_outside fun hin => Nat.not_lt.mpr (Nat.le_of_add_le_add_left hin.1) hzero, hbelow,
        List.getElem?_append_left (by simpa using hzero), List.getElem?_replicate, if_pos hzero]
      rfl
    · rw [List.getElem?_append_right (by simpa using hzero), List.length_replicate]
      by_cases hin : k < zeros + bytes.length
      · rw [valueAt_inside ⟨Nat.add_le_add_left (Nat.not_lt.mp hzero) i, by omega⟩, List.getElem?_append_left (by omega),
          List.getD_eq_getElem?_getD, Nat.add_sub_add_left]
      · rw [valueAt_outside (by omega), List.getElem?_append_right (by omega), ← List.getD_eq_getElem?_getD, h.value,
          show i + zeros + bytes.length + (k - zeros - bytes.length) = i + k by omega]

theorem findChunks_spec (h : findChunks left rest i = some chunks) (hleft : rest.length ≤ left) :
    ∃ whole, chunks = whole.map Chunk.narrow ∧ Finds i rest whole := by
  induction left generalizing rest i chunks with
  | zero =>
    obtain rfl : [] = chunks := Option.some.inj h
    obtain rfl : rest = [] := List.eq_nil_of_length_eq_zero (Nat.le_zero.mp hleft)
    exact ⟨[], rfl, Nat.le_refl _, (fun _ hc => nomatch hc), (fun _ hc => nomatch hc), fun _ => rfl⟩
  | succ left ih =>
    have hsplit : rest = List.replicate (rest.takeWhile (· = 0)).length 0 ++ rest.dropWhile (· = 0) := by
      have hzeros : rest.takeWhile (· = 0) = List.replicate (rest.takeWhile (· = 0)).length 0 :=
        List.eq_replicate_of_mem fun b hb => by simpa using List.mem_takeWhile_imp hb
      rw [← hzeros, List.takeWhile_append_dropWhile]
    rw [findChunks] at h
    dsimp only at h
    obtain ⟨zeros, hzeros⟩ : ∃ zeros, zeros = (rest.takeWhile (· = 0)).length := ⟨_, rfl⟩
    rw [← hzeros] at h hsplit
    cases htext : rest.dropWhile (· = 0) with
    | nil =>
      rw [htext, if_pos rfl] at h
      obtain rfl : [] = chunks := Option.some.inj h
      rw [htext, List.append_nil] at hsplit
      refine ⟨[], rfl, Nat.le_add_right _ _, (fun _ hc => nomatch hc), (fun _ hc => nomatch hc), fun k => ?_⟩
      rw [hsplit, List.getD_eq_getElem?_getD, List.getElem?_replicate]
      split <;> rfl
    | cons b tail =>
      have hb : b ≠ 0 := by
        have hhead := List.head_dropWhile_not (fun b : UInt8 => decide (b = 0)) (l := rest) (by rw [htext]; exact List.cons_ne_nil _ _)
        simpa [htext] using hhead
      rw [htext] at h hsplit
      rw [if_neg (List.cons_ne_nil _ _), List.tail_cons] at h
      obtain ⟨r, hr⟩ : ∃ r, r = scanChunk tail (i + zeros + 1) (i + zeros) := ⟨_, rfl⟩
      have hscan := scanChunk_spec tail (i + zeros + 1) (i + zeros) (by omega) (by omega)
      rw [← hr] at h hscan
      obtain ⟨hle, hlt, hnear⟩ := hscan
      split at h
      · cases h
      rename_i hshort
      obtain ⟨found, hfound, h⟩ := Option.bind_eq_some_iff.mp h
      obtain rfl := Option.some.inj h
      obtain ⟨length, hlength⟩ : ∃ length, length = r + 1 - (i + zeros) := ⟨_, rfl⟩
      rw [← hlength] at hfound hshort
      have hbytes : ((b :: tail).take length).length = length := List.length_take_of_le (by rw [List.length_cons]; omega)
      have hrest : ((b :: tail).drop length).length ≤ left := by
        have hlen := congrArg List.length hsplit
        rw [List.length_append, List.length_replicate, List.length_cons] at hlen
        rw [List.length_drop, List.length_cons]
        omega
      obtain ⟨whole, rfl, hfinds⟩ := ih hfound hrest
      have hstop : r + 1 = i + zeros + ((b :: tail).take length).length := by
        rw [hbytes]
        omega
      rw [hstop] at hfinds
      refine ⟨⟨i + zeros, (b :: tail).take length⟩ :: whole, by rw [← hlength]; rfl, ?_⟩
      have hparts : rest = List.replicate zeros 0 ++ ((b :: tail).take length ++ (b :: tail).drop length) := by
        rw [List.take_append_drop]
        exact hsplit
      rw [hparts]
      refine hfinds.cons ?_ ?_ ?_
      · intro hnil
        rw [hnil] at hbytes
        have hzero : 0 = length := hbytes
        omega
      · intro k hk
        have hk : k < length := by rwa [hbytes] at hk
        have hget : ∀ j, j ≤ k → ((b :: tail).take length).getD j 0 = (b :: tail).getD j 0 := fun j hj => by
          rw [List.getD_eq_getElem?_getD, List.getElem?_take_of_lt (by omega), List.getD_eq_getElem?_getD]
        cases k with
        | zero => exact ⟨0, Nat.le_refl _, Nat.zero_le _, by rw [hget 0 (Nat.le_refl _)]; exact hb⟩
        | succ k =>
          obtain ⟨y, hy, hyx, hxy, hvalue⟩ := hnear (i + zeros + (k + 1)) (by omega) (by omega)
          refine ⟨y - (i + zeros), by omega, by omega, ?_⟩
          rw [hget _ (by omega)]
          rcases hvalue with rfl | ⟨hiy, hvalue⟩
          · rw [Nat.sub_self]
            exact hb
          · rw [show y - (i + zeros) = y - (i + zeros + 1) + 1 by omega]
            exact hvalue
      · rw [hbytes]
        exact Nat.not_lt.mp hshort

end Chunks

/-! ### Matches -/

/-- The positions in the tables are below one. -/
structure Below (t : Tables) (position : Nat) : Prop where
  head : ∀ hash source, t.head hash = some source → source < position
  previous : ∀ source before, t.previous source = some before → before < position

/-- A match that is long enough is one that a token can stand for. -/
def Match.Right (m : Match) (input : Bytes) (position : Nat) : Prop :=
  lzMinMatch ≤ m.length → (Token.copy m.distance m.length : Token UInt8).Describes input position ∧
    m.distance ≤ lzWindow ∧ m.length ≤ lzMaxMatch

section Matches
variable {input : Bytes} {t : Tables} {position source left length : Nat}

theorem Below.mono {position' : Nat} (h : Below t position) (hle : position ≤ position') : Below t position' :=
  ⟨fun hash source hs => Nat.lt_of_lt_of_le (h.head hash source hs) hle,
    fun source before hs => Nat.lt_of_lt_of_le (h.previous source before hs) hle⟩

theorem below_insertPosition (input : Bytes) (h : Below t position) : Below (insertPosition input t position) (position + 1) := by
  unfold insertPosition
  split
  · exact h.mono (Nat.le_succ _)
  · refine ⟨fun hash source hs => ?_, fun source before hs => ?_⟩
    · dsimp only at hs
      by_cases hh : hash = lzHash input position
      · rw [hh, Function.update_self] at hs
        rw [← Option.some.inj hs]
        exact Nat.lt_succ_self _
      · rw [Function.update_of_ne hh] at hs
        exact Nat.lt_succ_of_lt (h.head hash source hs)
    · dsimp only at hs
      by_cases hp : source = position
      · rw [hp, Function.update_self] at hs
        exact Nat.lt_succ_of_lt (h.head _ before hs)
      · rw [Function.update_of_ne hp] at hs
        exact Nat.lt_succ_of_lt (h.previous source before hs)

theorem below_insertPositions (h : Below t position) (count : Nat) :
    Below ((List.range count).foldl (fun t consumed => insertPosition input t (position + consumed)) t) (position + count) := by
  induction count with
  | zero => exact h
  | succ count ih =>
    rw [List.range_succ, List.foldl_append]
    exact below_insertPosition input ih

theorem matchLength_spec (input : Bytes) (source position left length : Nat) :
    let n := matchLength input source position left length
    length ≤ n ∧ n ≤ length + left ∧ ∀ k, length ≤ k → k < n → input.getD (source + k) 0 = input.getD (position + k) 0 := by
  induction left generalizing length with
  | zero => exact ⟨Nat.le_refl _, Nat.le_refl _, fun k hk hlt => absurd hk (Nat.not_le.mpr hlt)⟩
  | succ left ih =>
    rw [matchLength]
    split
    · rename_i hsame
      obtain ⟨hle, hn, hmatch⟩ := ih (length + 1)
      refine ⟨by omega, by omega, fun k hk hlt => ?_⟩
      rcases Nat.lt_or_ge length k with hk' | hk'
      · exact hmatch k hk' hlt
      · obtain rfl : k = length := Nat.le_antisymm hk' hk
        exact hsame
    · exact ⟨Nat.le_refl _, by omega, fun k hk hlt => absurd hk (Nat.not_le.mpr hlt)⟩

theorem match_right (hposition : position ≤ input.length) (hsource : source < position) (hwindow : ¬lzWindow < position - source) :
    Match.Right ⟨matchLength input source position
      (if input.length - position < lzMaxMatch then input.length - position else lzMaxMatch) 0, position - source⟩ input position := by
  intro _
  obtain ⟨limit, hlimit⟩ : ∃ limit, limit = if input.length - position < lzMaxMatch then input.length - position else lzMaxMatch := ⟨_, rfl⟩
  rw [← hlimit]
  obtain ⟨-, hle, hmatch⟩ := matchLength_spec input source position limit 0
  have hlimit' : limit ≤ input.length - position ∧ limit ≤ lzMaxMatch := by
    rw [hlimit]
    split <;> omega
  dsimp only at hle hmatch ⊢
  refine ⟨⟨by omega, by omega, by omega, fun k hk => ?_⟩, by omega, by omega⟩
  have hsame := hmatch k (Nat.zero_le _) hk
  have hfar : position + k < input.length := by omega
  have hnear : source + k < input.length := by omega
  rw [← List.getElem_eq_getD (h := hnear), ← List.getElem_eq_getD (h := hfar)] at hsame
  rw [show position - (position - source) + k = source + k by omega, List.getElem?_eq_getElem hfar, List.getElem?_eq_getElem hnear, hsame]

theorem bestMatch_right (hposition : position ≤ input.length) (ht : Below t position) {candidate : Option Nat}
    (hcandidate : ∀ source, candidate = some source → source < position) {best : Match} (hbest : best.Right input position) :
    (bestMatch input t position left candidate best).Right input position := by
  induction left generalizing candidate best with
  | zero => exact hbest
  | succ left ih =>
    cases candidate with
    | none => exact hbest
    | some source =>
      rw [bestMatch]
      dsimp only
      split
      · exact hbest
      · rename_i hwindow
        have hmatch := match_right hposition (hcandidate source rfl) hwindow
        generalize matchLength input source position _ 0 = length at hmatch ⊢
        split
        · split
          · exact hmatch
          · exact ih (fun before hb => ht.previous source before hb) hmatch
        · exact ih (fun before hb => ht.previous source before hb) hbest

theorem findMatch_right (hposition : position ≤ input.length) (ht : Below t position) : (findMatch input t position).Right input position := by
  have hnone : Match.Right ⟨0, 0⟩ input position := fun h => absurd h (by decide)
  unfold findMatch
  split
  · exact bestMatch_right hposition ht (fun source hs => ht.head _ source hs) hnone
  · exact hnone

end Matches

/-! ### Tokens -/

/-- A token that fits its encoding. -/
def Small : Token UInt8 → Prop
  | .literal _ => True
  | .copy distance length => 0 < distance ∧ distance ≤ lzWindow ∧ lzMinMatch ≤ length ∧ length ≤ lzMaxMatch

def isLiteral : Token UInt8 → Bool
  | .literal _ => true
  | .copy _ _ => false

def encodeToken : Token UInt8 → Bytes
  | .literal b => [b]
  | .copy distance length => le 2 ((distance - 1) <<< 4 ||| (length - lzMinMatch))

/-- The flags of a group of tokens, the first one's from a bit on. -/
def groupFlags : Nat → List (Token UInt8) → Nat
  | _, [] => 0
  | bit, token :: tokens => (if isLiteral token then 2 ^ bit else 0) ||| groupFlags (bit + 1) tokens

section Tokens
variable {input : Bytes} {t : Tables} {position left bit flags : Nat} {tokens : List (Token UInt8)} {output : Bytes}

theorem groupFlags_literal {b : UInt8} : groupFlags bit (.literal b :: tokens) = 2 ^ bit ||| groupFlags (bit + 1) tokens := rfl

theorem groupFlags_copy {distance length : Nat} : groupFlags bit (.copy distance length :: tokens) = groupFlags (bit + 1) tokens :=
  Nat.zero_or _

theorem testBit_groupFlags {k : Nat} : (groupFlags bit tokens).testBit k = (decide (bit ≤ k) && (tokens[k - bit]?.any isLiteral)) := by
  induction tokens generalizing bit with
  | nil => simp [groupFlags]
  | cons token tokens ih =>
    rw [groupFlags, Nat.testBit_or, ih]
    rcases Nat.lt_trichotomy k bit with hk | rfl | hk
    · have hfirst : (if isLiteral token then 2 ^ bit else 0 : Nat).testBit k = false := by
        split
        · rw [Nat.testBit_two_pow_of_ne (by omega)]
        · exact Nat.zero_testBit k
      rw [hfirst, decide_eq_false (by omega), decide_eq_false (by omega)]
      rfl
    · have hfirst : (if isLiteral token then 2 ^ k else 0 : Nat).testBit k = isLiteral token := by
        cases isLiteral token with
        | true => exact Nat.testBit_two_pow_self
        | false => exact Nat.zero_testBit k
      rw [hfirst, decide_eq_false (by omega), decide_eq_true (Nat.le_refl k), Nat.sub_self]
      simp
    · have hfirst : (if isLiteral token then 2 ^ bit else 0 : Nat).testBit k = false := by
        split
        · rw [Nat.testBit_two_pow_of_ne (by omega)]
        · exact Nat.zero_testBit k
      rw [hfirst, decide_eq_true (by omega : bit + 1 ≤ k), decide_eq_true (by omega : bit ≤ k),
        show k - bit = k - (bit + 1) + 1 by omega]
      simp

/-- What a round of the packer writes: the flags and the encoding of tokens that describe the input up to where it goes
    on; either the round is full or the input is at its end. -/
theorem compressBits_spec (left bit flags : Nat) (output : Bytes) (hposition : position ≤ input.length) (ht : Below t position) :
    ∃ tokens position' t', compressBits input left bit position t flags output =
        (flags ||| groupFlags bit tokens, output ++ tokens.flatMap encodeToken, position', t') ∧
      Parses input position tokens position' ∧ (∀ token ∈ tokens, Small token) ∧ tokens.length ≤ left ∧
      (tokens.length = left ∨ input.length ≤ position') ∧ position' ≤ input.length ∧ Below t' position' ∧
      (0 < left → position < input.length → position < position') := by
  induction left generalizing bit position t flags output with
  | zero =>
    refine ⟨[], position, t, ?_, .nil _, (fun _ hx => nomatch hx), Nat.le_refl _, .inl rfl, hposition, ht, fun h => absurd h (by omega)⟩
    rw [compressBits, groupFlags, Nat.or_zero]
    simp
  | succ left ih =>
    rw [compressBits]
    by_cases hend : input.length ≤ position
    · rw [if_pos hend]
      refine ⟨[], position, t, ?_, .nil _, (fun _ hx => nomatch hx), Nat.zero_le _, .inr hend, hposition, ht, fun _ h => by omega⟩
      rw [groupFlags, Nat.or_zero]
      simp
    · rw [if_neg hend]
      have hinside := Nat.not_le.mp hend
      dsimp only
      by_cases hmatch : lzMinMatch ≤ (findMatch input t position).length
      · obtain ⟨hdescribes, hwindow, hmax⟩ := findMatch_right hposition ht hmatch
        generalize findMatch input t position = best at hmatch hdescribes hwindow hmax ⊢
        rw [if_pos hmatch]
        have hnext : position + best.length ≤ input.length := hdescribes.stop_le
        obtain ⟨tokens, position', t', hrun, hparses, hsmall, hlen, hfull, hle, hbelow, hmore⟩ :=
          ih (bit + 1) flags (output ++ le 2 ((best.distance - 1) <<< 4 ||| (best.length - lzMinMatch))) hnext
            (below_insertPositions ht best.length)
        have hstop : position + best.length ≤ position' := hparses.le
        have hsome : 3 ≤ best.length := hmatch
        refine ⟨.copy best.distance best.length :: tokens, position', t', ?_, .cons hdescribes hparses, ?_, Nat.succ_le_succ hlen,
          hfull.imp_left (congrArg (· + 1)), hle, hbelow, fun _ _ => by omega⟩
        · rw [hrun, groupFlags_copy, List.flatMap_cons, List.append_assoc]
          rfl
        · intro token hmem
          rcases List.mem_cons.mp hmem with rfl | hmem
          · exact ⟨hdescribes.1, hwindow, hmatch, hmax⟩
          · exact hsmall token hmem
      · rw [if_neg hmatch]
        have hdescribes : (Token.literal (input.getD position 0) : Token UInt8).Describes input position := by
          rw [← List.getElem_eq_getD (h := hinside)]
          exact List.getElem?_eq_getElem hinside
        obtain ⟨tokens, position', t', hrun, hparses, hsmall, hlen, hfull, hle, hbelow, hmore⟩ :=
          ih (bit + 1) (flags ||| 2 ^ bit) (output ++ [input.getD position 0]) hinside
            (below_insertPosition input ht)
        have hstop : position + 1 ≤ position' := hparses.le
        refine ⟨.literal (input.getD position 0) :: tokens, position', t', ?_, .cons hdescribes hparses, ?_, Nat.succ_le_succ hlen,
          hfull.imp_left (congrArg (· + 1)), hle, hbelow, fun _ _ => by omega⟩
        · rw [hrun, groupFlags_literal, Nat.or_assoc, List.flatMap_cons, List.append_assoc]
          rfl
        · intro token hmem
          rcases List.mem_cons.mp hmem with rfl | hmem
          · trivial
          · exact hsmall token hmem

end Tokens

end ZenovOS.LiveImagePack
