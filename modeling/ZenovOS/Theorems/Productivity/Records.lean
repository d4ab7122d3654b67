import Mathlib.Data.List.Basic
import ZenovOS.Productivity.Records
import ZenovOS.Theorems.Productivity.Text

/-! The lines of a file that has room for them are written one behind the other, and reading the file gives the records back. -/

namespace ZenovOS.Productivity
open Bytes Decimal

/-! ### Fields -/

theorem parseDigitsAt_of {text tail digits : Bytes} {offset : Nat} (h : text.drop offset = digits ++ tail) (hdigits : ∀ c ∈ digits, IsDigit c) :
    parseDigitsAt text offset digits.length = some (number 0 digits) := by
  induction digits using List.reverseRecOn generalizing tail with
  | nil => rfl
  | append_singleton digits c ih =>
    rw [List.append_assoc] at h
    have hfirst := ih h fun d hd => hdigits d (List.mem_append_left _ hd)
    have hlast : text[offset + digits.length]? = some c := by
      rw [← List.getElem?_drop, h, List.getElem?_append_right (Nat.le_refl _), Nat.sub_self]
      rfl
    obtain ⟨hlow, hhigh⟩ := hdigits c (List.mem_append_right _ (List.mem_singleton_self c))
    have hdigit : ¬(c < 48 ∨ c > 57) := not_or.mpr ⟨UInt8.not_lt.mpr hlow, UInt8.not_lt.mpr hhigh⟩
    rw [parseDigitsAt] at hfirst ⊢
    rw [List.length_append, List.length_singleton, List.range_succ, List.foldlM_append, hfirst]
    simp only [Option.bind_eq_bind, Option.bind_some, List.foldlM_cons, List.foldlM_nil, hlast, if_neg hdigit, number_append]
    rfl

theorem parseDigitsAt_padded {text : Bytes} {offset width value : Nat} (h : slice text offset width = padded width value)
    (hvalue : value < 10 ^ width) (hwidth : width ≠ 0) : parseDigitsAt text offset width = some value := by
  have hdrop : text.drop offset = padded width value ++ (text.drop offset).drop width := by rw [← h, slice, List.take_append_drop]
  have hread := parseDigitsAt_of hdrop (isDigit_padded width value)
  rwa [length_padded hvalue hwidth, number_padded] at hread

theorem repeatFromCode_repeatCode (repeats : Repeat) : repeatFromCode (repeatCode repeats) = some repeats := by
  cases repeats <;> rfl

theorem titleCharacter_bounds {c : UInt8} (h : titleCharacter c = true) : 32 ≤ c ∧ c ≤ 126 ∧ c ≠ 124 := by
  simpa [titleCharacter, not_or, and_assoc] using h

/-- What the check of a title says. -/
structure TitleValid (title : Bytes) (capacity : Nat) : Prop where
  nonempty : title ≠ []
  short : title.length < capacity
  printable : ∀ c ∈ title, titleCharacter c = true

theorem titleValid_iff {title : Bytes} {capacity : Nat} : titleValid title capacity = true ↔ TitleValid title capacity := by
  rw [titleValid, Bool.and_eq_true, Bool.and_eq_true, decide_eq_true_iff, decide_eq_true_iff, List.all_eq_true]
  constructor
  · rintro ⟨⟨hne, hshort⟩, hprintable⟩
    exact ⟨fun hnil => hne (by rw [hnil]; rfl), hshort, hprintable⟩
  · rintro ⟨hne, hshort, hprintable⟩
    exact ⟨⟨mt List.length_eq_zero_iff.mp hne, hshort⟩, hprintable⟩

theorem TitleValid.notMem {title : Bytes} {capacity : Nat} (h : TitleValid title capacity) {c : UInt8} (hc : titleCharacter c = false) : c ∉ title := by
  intro hmem
  rw [h.printable c hmem] at hc
  cases hc

theorem newline_notMem_padded (width value : Nat) : 10 ∉ padded width value :=
  fun hmem => absurd (isDigit_padded width value 10 hmem).1 (by decide)

/-! ### Writing -/

/-- A step that puts a text behind the data where some bytes are left behind it. -/
def Puts (capacity : Nat) (step : Bytes → Option Bytes) (text : Bytes) : Prop :=
  ∀ data : Bytes, data.length + text.length + 3 < capacity → step data = some (data ++ text)

section
variable {capacity : Nat} {step next : Bytes → Option Bytes} {text more : Bytes}

theorem Puts.congr (h : Puts capacity step text) (heq : text = more) : Puts capacity step more := heq ▸ h

theorem puts_text : Puts capacity (fun data => putText capacity data text) text := by
  intro data h
  show putText capacity data text = some (data ++ text)
  rw [putText, appendText_fits (by omega)]

theorem puts_bytes {room : Nat} (hroom : room ≤ text.length + 3) : Puts capacity (fun data => putBytes capacity room data text) text := by
  intro data h
  show putBytes capacity room data text = some (data ++ text)
  rw [putBytes, if_neg (by omega)]

theorem Puts.bind (h : Puts capacity step text) (hnext : Puts capacity next more) : Puts capacity (fun data => step data >>= next) (text ++ more) := by
  intro data hdata
  rw [List.length_append] at hdata
  show (step data).bind next = some (data ++ (text ++ more))
  rw [h data (by omega), Option.bind_some, hnext _ (by rw [List.length_append]; omega), List.append_assoc]

theorem Puts.uint (h : Puts capacity step text) {value digits : Nat} (hvalue : value < 10 ^ 11) (hdigits : digits ≤ 11) :
    Puts capacity (fun data => step (appendUint capacity data value digits)) (padded digits value ++ text) := by
  intro data hdata
  rw [List.length_append] at hdata
  dsimp only
  rw [appendUint_fits hvalue hdigits (by omega), h _ (by rw [List.length_append]; omega), List.append_assoc]

theorem puts_all {ρ : Type} {put : Bytes → ρ → Option Bytes} {line : ρ → Bytes} {records : List ρ}
    (h : ∀ record ∈ records, Puts capacity (fun data => put data record) (line record)) :
    Puts capacity (fun data => records.foldlM put data) (records.flatMap line) := by
  induction records with
  | nil =>
    intro data _
    rw [List.flatMap_nil, List.append_nil]
    rfl
  | cons record records ih =>
    rw [List.flatMap_cons]
    exact (h record (List.mem_cons_self ..)).bind (ih fun r hr => h r (List.mem_cons_of_mem _ hr))

theorem length_flatMap_le {ρ : Type} {line : ρ → Bytes} {n : Nat} {records : List ρ} (h : ∀ record ∈ records, (line record).length ≤ n) :
    (records.flatMap line).length ≤ records.length * n := by
  induction records with
  | nil => exact Nat.zero_le _
  | cons record records ih =>
    have hfirst := h record (List.mem_cons_self ..)
    have hrest := ih fun r hr => h r (List.mem_cons_of_mem _ hr)
    rw [List.flatMap_cons, List.length_append, List.length_cons, Nat.succ_mul]
    omega

end

/-! ### Reading -/

section
variable {ρ : Type} {capacity : Nat} {parse : Bytes → Option ρ} {line : ρ → Bytes} {reset : ρ → ρ}

theorem readRecords_map {records before : List ρ} (hparse : ∀ record ∈ records, parse (line record) = some (reset record))
    (hline : ∀ record ∈ records, line record ≠ []) (hcount : before.length + records.length ≤ capacity) :
    readRecords capacity parse (records.map line) before = before ++ records.map reset := by
  induction records generalizing before with
  | nil => rw [List.map_nil, List.map_nil, List.append_nil, readRecords]
  | cons record records ih =>
    rw [List.length_cons] at hcount
    rw [List.map_cons, readRecords, if_neg (by omega), if_neg (hline record (List.mem_cons_self ..)), hparse record (List.mem_cons_self ..)]
    dsimp only
    rw [ih (fun r hr => hparse r (List.mem_cons_of_mem _ hr)) (fun r hr => hline r (List.mem_cons_of_mem _ hr))
      (by rw [List.length_append, List.length_singleton]; omega), List.map_cons, List.append_assoc]
    rfl

theorem readRecords_lines {records : List ρ} (hparse : ∀ record ∈ records, parse (line record) = some (reset record))
    (hline : ∀ record ∈ records, line record ≠ [] ∧ 10 ∉ line record) (hcount : records.length ≤ capacity) :
    readRecords capacity parse (Text.lines 10 (records.flatMap fun record => line record ++ [10])) [] = records.map reset := by
  rw [Text.lines_flatMap fun record hrecord => (hline record hrecord).2,
    readRecords_map hparse (fun record hrecord => (hline record hrecord).1) (by rwa [List.length_nil, Nat.zero_add])]
  rfl

end

/-- The lines of a kind of records: how they are written into a buffer, and what is read from them. -/
structure LineFormat (ρ : Type) where
  put : Bytes → ρ → Option Bytes
  parse : Bytes → Option ρ
  Valid : ρ → Prop
  line : ρ → Bytes
  reset : ρ → ρ
  buffer : Nat
  count : Nat
  size : Nat
  puts : ∀ record, Valid record → Puts buffer (fun data => put data record) (line record ++ [10])
  parses : ∀ record, Valid record → parse (line record) = some (reset record)
  line_ne_nil : ∀ record, Valid record → line record ≠ []
  newline_notMem : ∀ record, Valid record → 10 ∉ line record
  length_line : ∀ record, Valid record → (line record ++ [10]).length ≤ size
  fits : count * size + 3 < buffer

section
variable {ρ : Type} (F : LineFormat ρ) {records : List ρ}

/-- The whole file. -/
def LineFormat.text (records : List ρ) : Bytes := records.flatMap fun record => F.line record ++ [10]

theorem LineFormat.length_text (hcount : records.length ≤ F.count) (hvalid : ∀ record ∈ records, F.Valid record) :
    (F.text records).length + 3 < F.buffer := by
  have hlength := length_flatMap_le fun record hrecord => F.length_line record (hvalid record hrecord)
  have hlimit := Nat.mul_le_mul_right F.size hcount
  have hfits := F.fits
  show (records.flatMap _).length + 3 < _
  omega

theorem LineFormat.foldlM_put (hcount : records.length ≤ F.count) (hvalid : ∀ record ∈ records, F.Valid record) :
    records.foldlM F.put [] = some (F.text records) := by
  have hputs := puts_all (fun record hrecord => F.puts record (hvalid record hrecord)) []
  rw [List.length_nil, Nat.zero_add] at hputs
  exact hputs (F.length_text hcount hvalid)

theorem LineFormat.readRecords_text (hcount : records.length ≤ F.count) (hvalid : ∀ record ∈ records, F.Valid record) :
    readRecords F.count F.parse (Text.lines 10 (F.text records)) [] = records.map F.reset :=
  readRecords_lines (fun record hrecord => F.parses record (hvalid record hrecord))
    (fun record hrecord => ⟨F.line_ne_nil record (hvalid record hrecord), F.newline_notMem record (hvalid record hrecord)⟩) hcount

end

/-! ### The storage -/

/-- A file that was written is read back, and the other files are as before. -/
structure Storage.Faithful {σ : Type} (S : Storage σ) : Prop where
  read_written : ∀ disk path data capacity, (S.write disk path data).1 = true → data.length ≤ capacity →
    S.read (S.write disk path data).2 path capacity = some data
  read_other : ∀ disk path path' data capacity, path' ≠ path → S.read (S.write disk path data).2 path' capacity = S.read disk path' capacity

section
variable {σ : Type} {S : Storage σ} {desk desk' : Desk σ}

theorem utilitiesEnsureStorage_ready (h : utilitiesEnsureStorage S desk = (true, desk')) : desk'.utilitiesReady = true := by
  rw [utilitiesEnsureStorage] at h
  split at h
  · next hready =>
    obtain ⟨-, rfl⟩ := Prod.mk.inj h
    exact hready
  · obtain ⟨hready, rfl⟩ := Prod.mk.inj h
    exact hready

theorem utilitiesEnsureStorage_of_ready (h : desk.utilitiesReady = true) : utilitiesEnsureStorage S desk = (true, desk) := by
  rw [utilitiesEnsureStorage, if_pos h]

theorem read_writeFile (hS : S.Faithful) {path : String} {data : Bytes} {capacity : Nat} (h : writeFile S path data desk = (true, desk'))
    (hcapacity : data.length ≤ capacity) : S.read desk'.disk path capacity = some data := by
  obtain ⟨hwritten, rfl⟩ := Prod.mk.inj h
  exact hS.read_written desk.disk path data capacity hwritten hcapacity

theorem read_writeFile_other (hS : S.Faithful) {path path' : String} (hne : path' ≠ path) (data : Bytes) (capacity : Nat) :
    S.read (writeFile S path data desk).2.disk path' capacity = S.read desk.disk path' capacity :=
  hS.read_other desk.disk path path' data capacity hne

end

end ZenovOS.Productivity
