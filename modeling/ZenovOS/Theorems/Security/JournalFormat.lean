import ZenovOS.Theorems.Security.PolicyTransaction

/-! # The format of the policy journal

`validate_journal` accepts exactly the images that `persist_journal` builds, and reads back what they were
built of. An image changed in its digest only, or outside its digest only, is refused unless SHA-256
collides; one that is cut off or continued is refused in any case. -/

namespace ZenovOS.Security
open Bytes Storage

/-! ### Decimal numbers -/

theorem parseDigits_snoc (digits : Bytes) (b : UInt8) (value : Nat) :
    parseDigits (digits ++ [b]) value = (parseDigits digits value).bind fun m => parseDigits [b] m := by
  induction digits generalizing value with
  | nil => rfl
  | cons d digits ih =>
    rw [List.cons_append, parseDigits, parseDigits]
    split
    · rfl
    · dsimp only
      split
      · rfl
      · exact ih _

theorem parseDigits_singleton {b : UInt8} {m n : Nat} (h : parseDigits [b] m = some n) :
    ∃ d < 10, b = UInt8.ofNat (48 + d) ∧ n = m * 10 + d := by
  rw [parseDigits] at h
  split at h
  · cases h
  · rename_i hdigit
    rw [not_or] at hdigit
    have hlow := UInt8.le_iff_toNat_le.mp (UInt8.not_lt.mp hdigit.1)
    have hhigh := UInt8.le_iff_toNat_le.mp (UInt8.not_lt.mp hdigit.2)
    have h48 : (48 : UInt8).toNat = 48 := rfl
    have h57 : (57 : UInt8).toNat = 57 := rfl
    have hsub : (b - 48).toNat = b.toNat - 48 := UInt8.toNat_sub_of_le _ _ (UInt8.not_lt.mp hdigit.1)
    dsimp only at h
    split at h
    · cases h
    · rw [parseDigits] at h
      refine ⟨b.toNat - 48, by omega, ?_, ?_⟩
      · rw [Nat.add_sub_cancel' (by omega), UInt8.ofNat_toNat]
      · rw [← hsub]
        exact (Option.some.inj h).symm

theorem formatDigits_of_parse {digits : Bytes} {n : Nat} (room : Nat) (h : parseDigits digits 0 = some n) (hroom : digits.length ≤ room)
    (hhead : digits.head? ≠ some 48) : formatDigits room n = some digits ∧ (digits ≠ [] → n ≠ 0) := by
  induction digits using List.reverseRecOn generalizing n room with
  | nil =>
    cases h
    exact ⟨by unfold formatDigits; rfl, fun hne => absurd rfl hne⟩
  | append_singleton digits b ih =>
    rw [parseDigits_snoc, Option.bind_eq_some_iff] at h
    obtain ⟨m, hm, h⟩ := h
    obtain ⟨d, hd, rfl, rfl⟩ := parseDigits_singleton h
    rw [List.length_append, List.length_singleton] at hroom
    obtain ⟨left, rfl⟩ : ∃ left, room = left + 1 := ⟨room - 1, by omega⟩
    have hn : m * 10 + d ≠ 0 := by
      intro hz
      have hd0 : d = 0 := by omega
      by_cases hdigits : digits = []
      · subst hdigits hd0
        exact hhead rfl
      · rw [List.head?_append_of_ne_nil _ hdigits] at hhead
        exact (ih _ hm (Nat.le_refl _) hhead).2 hdigits (by omega)
    have hhead' : digits.head? ≠ some 48 := by
      by_cases hdigits : digits = []
      · subst hdigits
        simp
      · rwa [List.head?_append_of_ne_nil _ hdigits] at hhead
    refine ⟨?_, fun _ => hn⟩
    rw [formatDigits, if_neg hn]
    have hdiv : (m * 10 + d) / 10 = m := by omega
    have hmod : (m * 10 + d) % 10 = d := by omega
    rw [hdiv, hmod, (ih _ hm (by omega) hhead').1]
    rfl

theorem parse_of_formatDigits {digits : Bytes} {n room : Nat} (h : formatDigits room n = some digits) (hn : n ≤ u32Max) :
    parseDigits digits 0 = some n ∧ digits.length ≤ room ∧ digits.head? ≠ some 48 ∧ (n ≠ 0 → digits ≠ []) := by
  induction room generalizing n digits with
  | zero =>
    unfold formatDigits at h
    split at h
    · rename_i hz
      cases h
      exact ⟨by rw [hz]; rfl, Nat.le_refl _, by simp, fun hne => absurd hz hne⟩
    · cases h
  | succ room ih =>
    unfold formatDigits at h
    split at h
    · rename_i hz
      cases h
      exact ⟨by rw [hz]; rfl, by simp, by simp, fun hne => absurd hz hne⟩
    · rename_i hne
      obtain ⟨high, hhigh, rfl⟩ := Option.map_eq_some_iff.mp h
      obtain ⟨hparse, hlen, hhead, hnil⟩ := ih hhigh (Nat.le_trans (Nat.div_le_self _ _) hn)
      have hmod := Nat.mod_lt n (by decide : 0 < 10)
      have hbyte : (UInt8.ofNat (48 + n % 10)).toNat = 48 + n % 10 := by
        rw [UInt8.toNat_ofNat']
        omega
      refine ⟨?_, by simpa using hlen, ?_, by simp⟩
      · rw [parseDigits_snoc, hparse, Option.bind_some, parseDigits]
        have hlow : ¬(UInt8.ofNat (48 + n % 10) < 48 ∨ 57 < UInt8.ofNat (48 + n % 10)) := by
          have h48 : (48 : UInt8).toNat = 48 := rfl
          have h57 : (57 : UInt8).toNat = 57 := rfl
          rw [not_or, UInt8.lt_iff_toNat_lt, UInt8.lt_iff_toNat_lt]
          omega
        have hsub : (UInt8.ofNat (48 + n % 10) - 48).toNat = n % 10 := by
          rw [UInt8.toNat_sub_of_le _ _ (UInt8.not_lt.mp (not_or.mp hlow).1), hbyte]
          have h48 : (48 : UInt8).toNat = 48 := rfl
          omega
        rw [if_neg hlow]
        dsimp only
        rw [hsub, if_neg (by omega), parseDigits]
        congr 1
        omega
      · by_cases hz : high = []
        · subst hz
          have hsmall : n / 10 = 0 := by
            by_contra hpos
            exact hnil hpos rfl
          intro heq
          have := congrArg UInt8.toNat (Option.some.inj heq)
          rw [hbyte] at this
          have h48 : (48 : UInt8).toNat = 48 := rfl
          omega
        · rwa [List.head?_append_of_ne_nil _ hz]

theorem parseNonzeroDecimal_iff {text : Bytes} {n : Nat} :
    parseNonzeroDecimal text = some n ↔ n ≤ u32Max ∧ formatNonzeroDecimal n 12 = some text := by
  constructor
  · intro h
    obtain ⟨hlow, hhigh, hn, hmax⟩ := parseNonzeroDecimal_some h
    unfold parseNonzeroDecimal at h
    split at h
    · cases h
    rename_i hshape
    simp only [not_or, not_not] at hshape
    dsimp only at h
    split at h
    · cases h
    rename_i hzero
    split at h
    · cases h
    rename_i value hvalue
    split at h
    · cases h
    obtain rfl := Option.some.inj h
    have htext : text = text.dropLast ++ [10] := (List.dropLast_append_getLast? 10 hshape.2.2).symm
    have hhead : text.dropLast.head? ≠ some 48 := by
      intro hhead
      by_cases hone : 1 < text.dropLast.length
      · exact hzero ⟨hone, hhead⟩
      · obtain ⟨d, hd⟩ : ∃ d, text.dropLast = [d] := by
          rw [← List.length_eq_one_iff, List.length_dropLast]
          rw [List.length_dropLast] at hone
          omega
        rw [hd] at hhead hvalue
        obtain rfl := Option.some.inj hhead
        exact hn (by
          have := hvalue.symm
          simpa [parseDigits] using this)
    have hformat := (formatDigits_of_parse 10 hvalue (by rw [List.length_dropLast]; omega) hhead).1
    refine ⟨hmax, ?_⟩
    unfold formatNonzeroDecimal
    rw [if_neg (by simp [hn]), hformat, Option.bind_eq_bind, Option.bind_some, if_neg (by rw [List.length_dropLast]; omega),
      ← htext]
  · rintro ⟨hmax, h⟩
    unfold formatNonzeroDecimal at h
    split at h
    · cases h
    rename_i hn
    rw [not_or] at hn
    rw [Option.bind_eq_bind, Option.bind_eq_some_iff] at h
    obtain ⟨digits, hdigits, h⟩ := h
    split at h
    · cases h
    cases h
    obtain ⟨hparse, hlen, hhead, hnil⟩ := parse_of_formatDigits hdigits hmax
    unfold parseNonzeroDecimal
    rw [if_neg (not_malformed_lined (hnil hn.1) hlen)]
    simp only [List.dropLast_concat, hparse]
    rw [if_neg fun hzero => hhead hzero.2, if_neg hn.1]

theorem formatDigits_total {n room : Nat} (h : n < 10 ^ room) : ∃ digits, formatDigits room n = some digits := by
  induction room generalizing n with
  | zero =>
    obtain rfl := Nat.lt_one_iff.mp h
    exact ⟨[], by unfold formatDigits; rfl⟩
  | succ room ih =>
    rw [formatDigits]
    by_cases hz : n = 0
    · exact ⟨[], if_pos hz⟩
    · rw [Nat.pow_succ] at h
      obtain ⟨high, hhigh⟩ := ih (show n / 10 < 10 ^ room by omega)
      exact ⟨high ++ [UInt8.ofNat (48 + n % 10)], by rw [if_neg hz, hhigh, Option.map_some]⟩

theorem formatNonzeroDecimal_capacity {n capacity : Nat} (hpos : 0 < n) (hn : n < 2 ^ 32) (hcapacity : 11 ≤ capacity) :
    ∃ text, formatNonzeroDecimal n capacity = some text ∧ formatNonzeroDecimal n 12 = some text := by
  obtain ⟨digits, hdigits⟩ := formatDigits_total (show n < 10 ^ 10 by omega)
  have hlen := (parse_of_formatDigits hdigits (show n ≤ u32Max by unfold u32Max; omega)).2.1
  have hformat : ∀ room, 11 ≤ room → formatNonzeroDecimal n room = some (digits ++ [10]) := by
    intro room hroom
    unfold formatNonzeroDecimal
    rw [if_neg (by omega), hdigits, Option.bind_eq_bind, Option.bind_some, if_neg (by omega)]
  exact ⟨digits ++ [10], hformat capacity hcapacity, hformat 12 (by decide)⟩

/-- The text of a version is read as that version, and the texts that are read are those of the formatter. -/
theorem version_text_exact :
    (∀ v capacity, 0 < v → v < 2 ^ 32 → 11 ≤ capacity →
      ∃ text, formatNonzeroDecimal v capacity = some text ∧ parseNonzeroDecimal text = some v) ∧
    ∀ text v, parseNonzeroDecimal text = some v →
      0 < v ∧ v < 2 ^ 32 ∧ ∀ capacity, 11 ≤ capacity → formatNonzeroDecimal v capacity = some text := by
  refine ⟨fun v capacity hpos hv hcapacity => ?_, fun text v h => ?_⟩
  · obtain ⟨text, hcap, hformat⟩ := formatNonzeroDecimal_capacity hpos hv hcapacity
    exact ⟨text, hcap, parseNonzeroDecimal_iff.mpr ⟨by unfold u32Max; omega, hformat⟩⟩
  · obtain ⟨hmax, hformat⟩ := parseNonzeroDecimal_iff.mp h
    obtain ⟨-, -, hne, -⟩ := parseNonzeroDecimal_some h
    have hpos := Nat.pos_of_ne_zero hne
    have hlt : v < 2 ^ 32 := by
      unfold u32Max at hmax
      omega
    refine ⟨hpos, hlt, fun capacity hcapacity => ?_⟩
    obtain ⟨text', hcap, hformat'⟩ := formatNonzeroDecimal_capacity hpos hlt hcapacity
    rw [hcap, ← hformat', hformat]

/-! ### The header -/

theorem le_slice {b : Bytes} {off n : Nat} (h : off + n ≤ b.length) : le n (toNat (slice b off n)) = slice b off n :=
  le_toNat (length_slice h)

theorem toNat_slice_lt {b : Bytes} {off n : Nat} (h : off + n ≤ b.length) : toNat (slice b off n) < 256 ^ n := by
  have := toNat_lt (slice b off n)
  rwa [length_slice h] at this

theorem slice_one {b : Bytes} {off : Nat} (h : off + 1 ≤ b.length) :
    [UInt8.ofNat (toNat (slice b off 1))] = slice b off 1 := by
  have hle := le_slice h
  have hlt := toNat_slice_lt h
  rwa [le, le, Nat.mod_eq_of_lt (by omega)] at hle

theorem bytes_of_slice {b : Bytes} {off n : Nat} (h : off + n ≤ b.length) : (Block.of (slice b off n) : Block n).bytes = slice b off n := by
  have hlen := length_slice h
  rw [Block.bytes_of (by omega), hlen]
  simp

namespace JournalHeader

theorem encode_decode {journal : Bytes} (h : journalHeaderBytes ≤ journal.length) :
    (decode journal).encode ++ journal.drop journalHeaderBytes = journal := by
  have hlen : 224 ≤ journal.length := h
  have h16 : ∀ off, off + 2 ≤ journal.length → (UInt16.ofNat (toNat (slice journal off 2))).toNat = toNat (slice journal off 2) :=
    fun off hoff => by
      rw [UInt16.toNat_ofNat']
      exact Nat.mod_eq_of_lt (toNat_slice_lt hoff)
  have h32 : ∀ off, off + 4 ≤ journal.length → (UInt32.ofNat (toNat (slice journal off 4))).toNat = toNat (slice journal off 4) :=
    fun off hoff => by
      rw [UInt32.toNat_ofNat']
      exact Nat.mod_eq_of_lt (toNat_slice_lt hoff)
  have hencode : (decode journal).encode = slice journal 0 224 := by
    unfold encode decode
    dsimp only
    rw [h16 4 (by omega), h16 6 (by omega), h16 10 (by omega), h32 12 (by omega), h32 16 (by omega), h32 20 (by omega),
      h32 24 (by omega), h32 28 (by omega), le_slice (by omega), le_slice (by omega), le_slice (by omega), le_slice (by omega),
      le_slice (by omega), le_slice (by omega), le_slice (by omega), le_slice (by omega), slice_one (by omega),
      slice_one (by omega), bytes_of_slice (by omega), bytes_of_slice (by omega), bytes_of_slice (by omega),
      bytes_of_slice (by omega), bytes_of_slice (by omega), bytes_of_slice (by omega)]
    rw [slice_append_slice journal 160 48 16, slice_append_slice journal 112 48 64, slice_append_slice journal 64 48 112,
      slice_append_slice journal 32 32 160, slice_append_slice journal 28 4 192, slice_append_slice journal 24 4 196,
      slice_append_slice journal 20 4 200, slice_append_slice journal 16 4 204, slice_append_slice journal 12 4 208,
      slice_append_slice journal 10 2 212, slice_append_slice journal 9 1 214, slice_append_slice journal 8 1 215,
      slice_append_slice journal 6 2 216, slice_append_slice journal 4 2 218, slice_append_slice journal 0 4 220]
  rw [hencode]
  exact List.take_append_drop 224 journal

theorem decode_append {journal : Bytes} (h : journalHeaderBytes ≤ journal.length) (more : Bytes) :
    decode (journal ++ more) = decode journal := by
  have hsplit := encode_decode h
  calc decode (journal ++ more)
      = decode ((decode journal).encode ++ (journal.drop journalHeaderBytes ++ more)) := by rw [← List.append_assoc, hsplit]
    _ = decode journal := decode_encode _ _

end JournalHeader

/-! ### Accepted journals -/

theorem fixedTextEqual_copyText {n : Nat} {text : Option Bytes} {block : Block n} (h : fixedTextEqual block text = true) :
    copyText text = some block := by
  cases text with
  | none => simpa [fixedTextEqual, copyText, eq_comm] using h
  | some text =>
    simp only [fixedTextEqual, Bool.and_eq_true, decide_eq_true_eq] at h
    rw [copyText, if_pos h.1, h.2]

/-- What `validate_journal` has checked of a journal it accepts. -/
structure Accepted (journal : Bytes) (p : Prepared) : Prop where
  domain : p.descriptor ∈ descriptors ∧ (JournalHeader.decode journal).domain = p.descriptor.domain.code
  fixed : (JournalHeader.decode journal).magic = Block.of (ascii "ZPTJ") ∧ (JournalHeader.decode journal).schema = 1 ∧
    (JournalHeader.decode journal).headerSize = 224 ∧ (JournalHeader.decode journal).state = 1 ∧
    (JournalHeader.decode journal).flags = 0 ∧ (JournalHeader.decode journal).reserved = Block.of []
  paths : copyText (some p.descriptor.livePath) = some (JournalHeader.decode journal).livePath ∧
    copyText (some p.descriptor.versionPath) = some (JournalHeader.decode journal).versionPath ∧
    copyText p.descriptor.auxiliaryPath = some (JournalHeader.decode journal).auxiliaryPath
  policy : p.policy ≠ [] ∧ p.policy.length ≤ p.descriptor.policyCapacity ∧
    (JournalHeader.decode journal).policySize = UInt32.ofNat p.policy.length
  version : parseNonzeroDecimal p.version = some p.previousVersion ∧
    (JournalHeader.decode journal).versionSize = UInt32.ofNat p.version.length ∧
    (JournalHeader.decode journal).previousVersion = UInt32.ofNat p.previousVersion
  auxiliary : auxiliarySizeValid p.descriptor p.auxiliary.length = true ∧
    (JournalHeader.decode journal).auxiliarySize = UInt32.ofNat p.auxiliary.length
  payload : (JournalHeader.decode journal).payloadSize = UInt32.ofNat (p.policy ++ p.version ++ p.auxiliary).length ∧
    journal.drop journalHeaderBytes = p.policy ++ p.version ++ p.auxiliary
  length : journal.length = journalHeaderBytes + (JournalHeader.decode journal).payloadSize.toNat ∧
    journal.length ≤ applicationBufferBytes
  digest : digestValid journal = true

theorem policyCapacity_le {d : Descriptor} (h : d ∈ descriptors) : d.policyCapacity ≤ 16384 ∧ d.auxiliaryCapacity ≤ 16384 := by
  simp only [descriptors, List.mem_cons, List.not_mem_nil, or_false] at h
  obtain rfl | rfl | rfl := h <;> decide

theorem auxiliarySize_le {d : Descriptor} {size : Nat} (h : auxiliarySizeValid d size = true) : size ≤ d.auxiliaryCapacity := by
  unfold auxiliarySizeValid at h
  split at h
  · simp only [Bool.and_eq_true, decide_eq_true_eq] at h
    exact h.2
  · rw [decide_eq_true_eq] at h
    omega

theorem Accepted.of_validate {journal : Bytes} {p : Prepared} (h : validateJournal journal = some p) : Accepted journal p := by
  unfold validateJournal at h
  split at h
  · cases h
  rename_i hshort
  have hheader : journalHeaderBytes ≤ journal.length := Nat.not_lt.mp hshort
  dsimp only at h
  split at h
  · cases h
  rename_i hfixed
  simp only [not_or, not_not] at hfixed
  rw [Option.bind_eq_bind, Option.bind_eq_some_iff] at h
  obtain ⟨d, hd, h⟩ := h
  split at h
  · cases h
  rename_i hpaths
  simp only [Bool.or_eq_true, Bool.not_eq_true', not_or, Bool.not_eq_false] at hpaths
  split at h
  · cases h
  rename_i hsizes
  simp only [not_or, Nat.not_lt] at hsizes
  split at h
  · cases h
  rename_i haux
  simp only [Bool.not_eq_true', Bool.not_eq_false] at haux
  split at h
  · cases h
  rename_i hpayload
  simp only [not_or, not_not, Bool.not_eq_true', Bool.not_eq_false, Nat.not_lt] at hpayload
  rw [Option.bind_eq_bind, Option.bind_eq_some_iff] at h
  obtain ⟨parsed, hparsed, h⟩ := h
  split at h
  · cases h
  rename_i hversion
  rw [not_not] at hversion
  cases h
  obtain ⟨hpolicy, hcapacity, hlow, hhigh, -⟩ := hsizes
  obtain ⟨hsum, hroom, hlength, hdigest⟩ := hpayload
  have hd' : d ∈ descriptors := List.mem_of_find?_eq_some hd
  have hcode : (JournalHeader.decode journal).domain = d.domain.code := by
    simpa [eq_comm] using List.find?_some hd
  obtain ⟨hpcap, hacap⟩ := policyCapacity_le hd'
  have hauxle := auxiliarySize_le haux
  have hmod : ((JournalHeader.decode journal).policySize.toNat + (JournalHeader.decode journal).versionSize.toNat +
      (JournalHeader.decode journal).auxiliarySize.toNat) % 2 ^ 32 = (JournalHeader.decode journal).policySize.toNat +
      (JournalHeader.decode journal).versionSize.toNat + (JournalHeader.decode journal).auxiliarySize.toNat :=
    Nat.mod_eq_of_lt (by omega)
  rw [hmod] at hsum hroom hlength
  have h224 : journalHeaderBytes = 224 := rfl
  have hbuffer : applicationBufferBytes = 65536 := rfl
  have hp : (slice journal journalHeaderBytes (JournalHeader.decode journal).policySize.toNat).length =
      (JournalHeader.decode journal).policySize.toNat := length_slice (by omega)
  have hv : (slice journal (journalHeaderBytes + (JournalHeader.decode journal).policySize.toNat)
      (JournalHeader.decode journal).versionSize.toNat).length = (JournalHeader.decode journal).versionSize.toNat :=
    length_slice (by omega)
  have ha : (slice journal (journalHeaderBytes + (JournalHeader.decode journal).policySize.toNat +
      (JournalHeader.decode journal).versionSize.toNat) (JournalHeader.decode journal).auxiliarySize.toNat).length =
      (JournalHeader.decode journal).auxiliarySize.toNat := length_slice (by omega)
  constructor
  case domain => exact ⟨hd', hcode⟩
  case fixed => exact hfixed
  case paths =>
    exact ⟨fixedTextEqual_copyText hpaths.1.1, fixedTextEqual_copyText hpaths.1.2, fixedTextEqual_copyText hpaths.2⟩
  case policy =>
    refine ⟨fun hnil => ?_, by rw [hp]; exact hcapacity, by rw [hp, UInt32.ofNat_toNat]⟩
    dsimp only at hnil
    rw [hnil] at hp
    exact hpolicy hp.symm
  case version => exact ⟨hparsed, by rw [hv, UInt32.ofNat_toNat], by rw [hversion, UInt32.ofNat_toNat]⟩
  case auxiliary => exact ⟨by rw [ha]; exact haux, by rw [ha, UInt32.ofNat_toNat]⟩
  case payload =>
    constructor
    · rw [List.length_append, List.length_append, hp, hv, ha, ← hsum, UInt32.ofNat_toNat]
    · rw [slice_append_slice, Nat.add_assoc, slice_append_slice]
      unfold slice
      rw [List.take_of_length_le]
      rw [List.length_drop]
      omega
  case length =>
    rw [hsum]
    exact ⟨hlength, by omega⟩
  case digest => exact hdigest

theorem Accepted.buildJournal {journal : Bytes} {p : Prepared} (h : Accepted journal p) :
    buildJournal p.descriptor p.policy p.version p.auxiliary p.previousVersion = some journal := by
  have hheader : journalHeaderBytes ≤ journal.length := by rw [h.length.1]; exact Nat.le_add_right _ _
  have hsplit := JournalHeader.encode_decode hheader
  rw [h.payload.2] at hsplit
  obtain ⟨hmagic, hschema, hsize, hstate, hflags, hreserved⟩ := h.fixed
  have hlength : journalHeaderBytes + (p.policy ++ p.version ++ p.auxiliary).length = journal.length := by
    have hlen := congrArg List.length hsplit
    rwa [List.length_append, JournalHeader.length_encode] at hlen
  unfold Security.buildJournal
  dsimp only
  rw [if_neg (by rw [hlength]; exact Nat.not_lt.mpr h.length.2), h.paths.1, h.paths.2.1, h.paths.2.2]
  simp only [Option.bind_eq_bind, Option.bind_some, Option.some.injEq]
  rw [← hmagic, ← hschema, ← hsize, ← hstate, ← hflags, ← hreserved, ← h.domain.2, ← h.policy.2.2, ← h.version.2.1,
    ← h.version.2.2, ← h.auxiliary.2, ← h.payload.1]
  have hdigest := h.digest
  unfold digestValid at hdigest
  rw [decide_eq_true_eq] at hdigest
  rw [← hsplit, JournalHeader.overwrite_digest, JournalHeader.slice_digest] at hdigest
  unfold journalRecord
  dsimp only
  generalize JournalHeader.decode journal = header at hsplit hdigest
  rw [hdigest, Block.of_bytes]
  exact hsplit

/-! ### Changed journals -/

/-- The image as its digest covers it, with zeros in the digest field. -/
def blankDigest (journal : Bytes) : Bytes := overwrite journal 32 (List.replicate 32 0)

/-- Two byte strings show a collision of SHA-256. -/
def Collides (a b : Bytes) : Prop := a ≠ b ∧ sha256 a = sha256 b

theorem Accepted.digest_eq {journal : Bytes} {p : Prepared} (h : Accepted journal p) :
    sha256 (blankDigest journal) = slice journal 32 32 := by
  have := h.digest
  unfold digestValid at this
  rwa [decide_eq_true_eq] at this

theorem Accepted.length_le {journal : Bytes} {p : Prepared} (h : Accepted journal p) : journalHeaderBytes ≤ journal.length := by
  rw [h.length.1]
  exact Nat.le_add_right _ _

theorem overwrite_blankDigest {journal : Bytes} (h : journalHeaderBytes ≤ journal.length) :
    overwrite (blankDigest journal) 32 (slice journal 32 32) = journal := by
  have h224 : 224 ≤ journal.length := h
  have hsplit : journal = journal.take 32 ++ slice journal 32 32 ++ journal.drop 64 := by
    unfold slice
    have hdrop : journal.drop 64 = (journal.drop 32).drop 32 := by rw [List.drop_drop]
    rw [List.append_assoc, hdrop, List.take_append_drop, List.take_append_drop]
  have htake : (journal.take 32).length = 32 := List.length_take_of_le (by omega)
  have hslice : (slice journal 32 32).length = 32 := length_slice (by omega)
  unfold blankDigest
  generalize slice journal 32 32 = digest at hsplit hslice ⊢
  generalize journal.take 32 = pre at hsplit htake
  generalize journal.drop 64 = post at hsplit
  subst hsplit
  rw [overwrite_field htake (by rw [hslice, List.length_replicate]), overwrite_field htake (by rw [hslice, List.length_replicate])]

theorem Accepted.eq_of_blank {journal journal' : Bytes} {p p' : Prepared} (h : Accepted journal p) (h' : Accepted journal' p')
    (hblank : blankDigest journal = blankDigest journal') : journal = journal' := by
  rw [← overwrite_blankDigest h.length_le, ← overwrite_blankDigest h'.length_le, ← h.digest_eq, ← h'.digest_eq, hblank]

theorem Accepted.eq_or_collides {journal journal' : Bytes} {p p' : Prepared} (h : Accepted journal p) (h' : Accepted journal' p')
    (hdigest : slice journal 32 32 = slice journal' 32 32) :
    journal = journal' ∨ Collides (blankDigest journal) (blankDigest journal') := by
  by_cases hblank : blankDigest journal = blankDigest journal'
  · exact Or.inl (h.eq_of_blank h' hblank)
  · exact Or.inr ⟨hblank, by rw [h.digest_eq, h'.digest_eq, hdigest]⟩

theorem Accepted.not_append {journal more : Bytes} {p p' : Prepared} (h : Accepted journal p) (h' : Accepted (journal ++ more) p') :
    more = [] := by
  have hlength := h'.length.1
  rw [JournalHeader.decode_append h.length_le, List.length_append, h.length.1] at hlength
  exact List.length_eq_zero_iff.mp (by omega)

theorem buildJournal_some {d : Descriptor} {policy version auxiliary : Bytes} {n : Nat} (hd : d ∈ descriptors)
    (hcap : policy.length ≤ d.policyCapacity) (hv : version.length ≤ 11) (ha : auxiliary.length ≤ d.auxiliaryCapacity) :
    ∃ journal, buildJournal d policy version auxiliary n = some journal := by
  obtain ⟨hpcap, hacap⟩ := policyCapacity_le hd
  have hcopy : (∃ b, copyText (n := 48) (some d.livePath) = some b) ∧ (∃ b, copyText (n := 48) (some d.versionPath) = some b) ∧
      ∃ b, copyText (n := 48) d.auxiliaryPath = some b := by
    simp only [descriptors, List.mem_cons, List.not_mem_nil, or_false] at hd
    obtain rfl | rfl | rfl := hd <;> exact ⟨⟨_, rfl⟩, ⟨_, rfl⟩, ⟨_, rfl⟩⟩
  obtain ⟨⟨live, hlive⟩, ⟨versions, hversions⟩, aux, haux⟩ := hcopy
  have h224 : journalHeaderBytes = 224 := rfl
  have hbuffer : applicationBufferBytes = 65536 := rfl
  unfold buildJournal
  dsimp only
  rw [if_neg (by rw [List.length_append, List.length_append]; omega), hlive, hversions, haux]
  exact ⟨_, rfl⟩

/-- What `persist_journal` makes an image of. -/
structure Recordable (p : Prepared) : Prop where
  domain : p.descriptor ∈ descriptors
  policy : p.policy ≠ [] ∧ p.policy.length ≤ p.descriptor.policyCapacity
  auxiliary : auxiliarySizeValid p.descriptor p.auxiliary.length = true
  version : p.previousVersion ≤ u32Max ∧ formatNonzeroDecimal p.previousVersion 12 = some p.version

/-- `validate_journal` reads back what an image was built of, accepts images only, and refuses every image that
    was cut off, continued, or changed in its digest only; one changed elsewhere it accepts only on a collision. -/
theorem validateJournal_format :
    (∀ p : Prepared, Recordable p → ∃ journal, buildJournal p.descriptor p.policy p.version p.auxiliary p.previousVersion = some journal ∧
      validateJournal journal = some p) ∧
    (∀ journal p, validateJournal journal = some p → Recordable p ∧
      buildJournal p.descriptor p.policy p.version p.auxiliary p.previousVersion = some journal) ∧
    (∀ journal p more, validateJournal journal = some p → more ≠ [] → validateJournal (journal ++ more) = none) ∧
    (∀ journal p n, validateJournal journal = some p → n < journal.length → validateJournal (journal.take n) = none) ∧
    ∀ journal p journal' p', validateJournal journal = some p → validateJournal journal' = some p' →
      (blankDigest journal = blankDigest journal' → journal = journal') ∧
      (slice journal 32 32 = slice journal' 32 32 → journal = journal' ∨ Collides (blankDigest journal) (blankDigest journal')) := by
  refine ⟨fun p hp => ?_, fun journal p h => ?_, fun journal p more h hmore => ?_, fun journal p n h hn => ?_,
    fun journal p journal' p' h h' => ?_⟩
  · have hparse := parseNonzeroDecimal_iff.mpr hp.version
    obtain ⟨journal, hjournal⟩ := buildJournal_some (n := p.previousVersion) hp.domain hp.policy.2
      (parseNonzeroDecimal_some hparse).2.1 (auxiliarySize_le hp.auxiliary)
    exact ⟨journal, hjournal, validateJournal_buildJournal hp.domain hp.policy.1 hp.policy.2 hparse hp.auxiliary hjournal⟩
  · have ha := Accepted.of_validate h
    exact ⟨⟨ha.domain.1, ⟨ha.policy.1, ha.policy.2.1⟩, ha.auxiliary.1, parseNonzeroDecimal_iff.mp ha.version.1⟩, ha.buildJournal⟩
  · cases hv : validateJournal (journal ++ more) with
    | none => rfl
    | some p' => exact absurd ((Accepted.of_validate h).not_append (Accepted.of_validate hv)) hmore
  · cases hv : validateJournal (journal.take n) with
    | none => rfl
    | some p' =>
      rw [← List.take_append_drop n journal] at h
      have hrest := (Accepted.of_validate hv).not_append (Accepted.of_validate h)
      exact absurd (List.drop_eq_nil_iff.mp hrest) (Nat.not_le.mpr hn)
  · have ha := Accepted.of_validate h
    have ha' := Accepted.of_validate h'
    exact ⟨ha.eq_of_blank ha', ha.eq_or_collides ha'⟩

end ZenovOS.Security
