import ZenovOS.Security.Tpm2

/-! The parsers of responses read no byte that is not available. They accept what is written in the format of a response and nothing else,
and the edit by which the attributes of a written index are compared leaves no trace in the buffer. -/

namespace ZenovOS.Security.Tpm2
open Bytes

/-! ### Readers -/

/-- A run that reads nothing outside ends, with a result of this kind. -/
def Ends {β : Type} (P : β → Prop) (m : Option β) : Prop := ∃ b, m = some b ∧ P b

theorem ends_some {β : Type} {P : β → Prop} {b : β} (h : P b) : Ends P (some b) := ⟨b, rfl, h⟩

theorem ends_ite {β : Type} {P : β → Prop} {c : Prop} [Decidable c] {m n : Option β} (hm : c → Ends P m) (hn : ¬c → Ends P n) :
    Ends P (if c then m else n) := by
  by_cases hc : c
  · rw [if_pos hc]
    exact hm hc
  · rw [if_neg hc]
    exact hn hc

namespace Reader
variable {β : Type} {P : β → Prop} {reader : Reader} {failed : Option β} {tail : Bytes}

/-- What is still to be read. -/
def rest (reader : Reader) : Bytes := (reader.data.take reader.size).drop reader.offset

def advance (reader : Reader) (count : Nat) : Reader := { reader with offset := reader.offset + count }

/-- The bytes of the reader may be read. -/
structure Within (reader : Reader) : Prop where
  size : reader.size ≤ reader.data.length
  offset : reader.offset ≤ reader.size

theorem advance_advance (reader : Reader) (n m : Nat) : (reader.advance n).advance m = reader.advance (n + m) := by
  rw [advance, advance, advance, Nat.add_assoc]

theorem Within.length_rest (h : reader.Within) : reader.rest.length = reader.size - reader.offset := by
  rw [rest, List.length_drop, List.length_take, Nat.min_eq_left h.size]

theorem Within.advance (h : reader.Within) {bytes : Bytes} (hrest : reader.rest = bytes ++ tail) :
    (reader.advance bytes.length).Within ∧ (reader.advance bytes.length).rest = tail := by
  have hlength := h.length_rest
  rw [hrest, List.length_append] at hlength
  have hoffset := h.offset
  refine ⟨⟨h.size, ?_⟩, ?_⟩
  · show reader.offset + bytes.length ≤ reader.size
    omega
  · show (reader.data.take reader.size).drop (reader.offset + bytes.length) = tail
    rw [← List.drop_drop]
    show reader.rest.drop bytes.length = tail
    rw [hrest, List.drop_left]

theorem Within.getU8_cons (h : reader.Within) {value : UInt8} (hrest : reader.rest = value :: tail)
    (next : UInt8 → Reader → Option β) : reader.getU8 failed next = next value (reader.advance 1) := by
  have hlength := h.length_rest
  rw [hrest, List.length_cons] at hlength
  have hat : reader.data[reader.offset]? = some value := by
    have hfirst : reader.rest[0]? = some value := by rw [hrest, List.getElem?_cons_zero]
    rwa [rest, List.getElem?_drop, Nat.add_zero, List.getElem?_take_of_lt (by omega)] at hfirst
  rw [getU8, if_neg (by omega), hat]
  rfl

theorem Within.getU8_nil (h : reader.Within) (hrest : reader.rest = []) (next : UInt8 → Reader → Option β) :
    reader.getU8 failed next = failed := by
  have hlength := h.length_rest
  rw [hrest, List.length_nil] at hlength
  rw [getU8, if_pos (by omega)]

theorem Within.byte (h : reader.Within) {value : UInt8} (hrest : reader.rest = value :: tail) :
    (reader.advance 1).Within ∧ (reader.advance 1).rest = tail := h.advance (show reader.rest = [value] ++ tail from hrest)

/-! ### Numbers

A number is read where its bytes stand, and a read fails where there are too few of them. -/

theorem number16 (a b : UInt8) : a.toNat <<< 8 ||| b.toNat = beToNat [a, b] := by
  rw [shiftLeft_or b.toNat_lt]
  simp [beToNat, Bytes.toNat]
  omega

theorem number32 (a b c d : UInt8) : a.toNat <<< 24 ||| b.toNat <<< 16 ||| c.toNat <<< 8 ||| d.toNat = beToNat [a, b, c, d] := by
  have hshift : a.toNat <<< 24 ||| b.toNat <<< 16 ||| c.toNat <<< 8 ||| d.toNat =
      ((a.toNat <<< 8 ||| b.toNat) <<< 8 ||| c.toNat) <<< 8 ||| d.toNat := by
    simp only [Nat.shiftLeft_or_distrib, ← Nat.shiftLeft_add]
  rw [hshift, shiftLeft_or d.toNat_lt, shiftLeft_or c.toNat_lt, shiftLeft_or b.toNat_lt]
  simp [beToNat, Bytes.toNat]
  omega

theorem Within.getU16_be (h : reader.Within) {n : Nat} (hn : n < 256 ^ 2) (hrest : reader.rest = be 2 n ++ tail)
    (next : Nat → Reader → Option β) : reader.getU16 failed next = next n (reader.advance 2) := by
  match be 2 n, length_be 2 n, beToNat_be hn, hrest with
  | [a, b], _, hnumber, hrest =>
    obtain ⟨h1, hrest1⟩ := h.byte hrest
    rw [getU16, h.getU8_cons hrest, h1.getU8_cons hrest1, number16, hnumber, advance_advance]

theorem Within.getU32_be (h : reader.Within) {n : Nat} (hn : n < 256 ^ 4) (hrest : reader.rest = be 4 n ++ tail)
    (next : Nat → Reader → Option β) : reader.getU32 failed next = next n (reader.advance 4) := by
  match be 4 n, length_be 4 n, beToNat_be hn, hrest with
  | [a, b, c, d], _, hnumber, hrest =>
    obtain ⟨h1, hrest1⟩ := h.byte hrest
    obtain ⟨h2, hrest2⟩ := h1.byte hrest1
    obtain ⟨h3, hrest3⟩ := h2.byte hrest2
    rw [getU32, h.getU8_cons hrest, h1.getU8_cons hrest1, h2.getU8_cons hrest2, h3.getU8_cons hrest3, number32, hnumber]
    rfl

theorem Within.getU64_be (h : reader.Within) {n : Nat} (hn : n < 256 ^ 8) (hrest : reader.rest = be 8 n ++ tail)
    (next : Nat → Reader → Option β) : reader.getU64 failed next = next n (reader.advance 8) := by
  have hhigh : n / 2 ^ 32 < 256 ^ 4 := by omega
  have hlow : n % 2 ^ 32 < 256 ^ 4 := by omega
  have hjoin : n / 2 ^ 32 * 256 ^ 4 + n % 2 ^ 32 = n := by omega
  have hparts : be 8 n = be 4 (n / 2 ^ 32) ++ be 4 (n % 2 ^ 32) := by
    rw [← be_beToNat (k := 8) (b := be 4 (n / 2 ^ 32) ++ be 4 (n % 2 ^ 32)) (by simp), beToNat_append, beToNat_be hhigh,
      beToNat_be hlow, length_be, hjoin]
  rw [hparts, List.append_assoc] at hrest
  obtain ⟨h1, hrest1⟩ := h.advance hrest
  rw [length_be] at h1 hrest1
  rw [getU64, h.getU32_be hhigh hrest, h1.getU32_be hlow hrest1, shiftLeft_or (by omega), advance_advance]
  exact congrArg (next · _) hjoin

theorem Within.getU16_short (h : reader.Within) (hshort : reader.rest.length < 2) (next : Nat → Reader → Option β) :
    reader.getU16 failed next = failed := by
  rw [getU16]
  match hrest : reader.rest, hshort with
  | [], _ => rw [h.getU8_nil hrest]
  | [a], _ => rw [h.getU8_cons hrest, (h.byte hrest).1.getU8_nil (h.byte hrest).2]

theorem Within.getU32_short (h : reader.Within) (hshort : reader.rest.length < 4) (next : Nat → Reader → Option β) :
    reader.getU32 failed next = failed := by
  rw [getU32]
  match hrest : reader.rest, hshort with
  | [], _ => rw [h.getU8_nil hrest]
  | [a], _ => rw [h.getU8_cons hrest, (h.byte hrest).1.getU8_nil (h.byte hrest).2]
  | [a, b], _ =>
    obtain ⟨h1, hrest1⟩ := h.byte hrest
    rw [h.getU8_cons hrest, h1.getU8_cons hrest1, (h1.byte hrest1).1.getU8_nil (h1.byte hrest1).2]
  | [a, b, c], _ =>
    obtain ⟨h1, hrest1⟩ := h.byte hrest
    obtain ⟨h2, hrest2⟩ := h1.byte hrest1
    rw [h.getU8_cons hrest, h1.getU8_cons hrest1, h2.getU8_cons hrest2, (h2.byte hrest2).1.getU8_nil (h2.byte hrest2).2]

theorem be_of_length_le {bytes : Bytes} {k : Nat} (h : k ≤ bytes.length) : ∃ n tail, n < 256 ^ k ∧ bytes = be k n ++ tail := by
  have hlength : (bytes.take k).length = k := by rw [List.length_take, Nat.min_eq_left h]
  refine ⟨beToNat (bytes.take k), bytes.drop k, ?_, ?_⟩
  · have hlt := beToNat_lt (bytes.take k)
    rwa [hlength] at hlt
  · rw [be_beToNat hlength, List.take_append_drop]

theorem Within.number (h : reader.Within) {k n : Nat} (hrest : reader.rest = be k n ++ tail) :
    (reader.advance k).Within ∧ (reader.advance k).rest = tail := by
  have hnext := h.advance hrest
  rwa [length_be] at hnext

/-! ### Rules -/

theorem Within.getU16 (h : reader.Within) {next : Nat → Reader → Option β} (hfailed : Ends P failed)
    (hnext : ∀ n tail, n < 256 ^ 2 → reader.rest = be 2 n ++ tail → Ends P (next n (reader.advance 2))) :
    Ends P (reader.getU16 failed next) := by
  by_cases hlong : 2 ≤ reader.rest.length
  · obtain ⟨n, tail, hn, hrest⟩ := be_of_length_le hlong
    rw [h.getU16_be hn hrest]
    exact hnext n tail hn hrest
  · rwa [h.getU16_short (by omega)]

theorem Within.getU32 (h : reader.Within) {next : Nat → Reader → Option β} (hfailed : Ends P failed)
    (hnext : ∀ n tail, n < 256 ^ 4 → reader.rest = be 4 n ++ tail → Ends P (next n (reader.advance 4))) :
    Ends P (reader.getU32 failed next) := by
  by_cases hlong : 4 ≤ reader.rest.length
  · obtain ⟨n, tail, hn, hrest⟩ := be_of_length_le hlong
    rw [h.getU32_be hn hrest]
    exact hnext n tail hn hrest
  · rwa [h.getU32_short (by omega)]

theorem Within.getU64 (h : reader.Within) {next : Nat → Reader → Option β} (hfailed : Ends P failed)
    (hnext : ∀ n tail, n < 256 ^ 8 → reader.rest = be 8 n ++ tail → Ends P (next n (reader.advance 8))) :
    Ends P (reader.getU64 failed next) := by
  by_cases hlong : 8 ≤ reader.rest.length
  · obtain ⟨n, tail, hn, hrest⟩ := be_of_length_le hlong
    rw [h.getU64_be hn hrest]
    exact hnext n tail hn hrest
  · refine h.getU32 hfailed fun n tail _ hrest => ?_
    obtain ⟨h1, hrest1⟩ := h.number hrest
    rw [hrest, List.length_append, length_be] at hlong
    rwa [h1.getU32_short (by rw [hrest1]; omega)]

theorem Within.skip (h : reader.Within) {count : Nat} {next : Reader → Option β} (hfailed : Ends P failed)
    (hnext : ∀ bytes tail, bytes.length = count → reader.rest = bytes ++ tail → Ends P (next (reader.advance count))) :
    Ends P (reader.skip count failed next) := by
  rw [Reader.skip, ← h.length_rest]
  refine ends_ite (fun _ => hfailed) fun hlong => ?_
  refine hnext (reader.rest.take count) (reader.rest.drop count) ?_ (List.take_append_drop ..).symm
  rw [List.length_take, Nat.min_eq_left (by omega)]

theorem Within.skip_bytes (h : reader.Within) {bytes : Bytes} {count : Nat} (hcount : bytes.length = count)
    (hrest : reader.rest = bytes ++ tail) (next : Reader → Option β) :
    reader.skip count failed next = next (reader.advance count) := by
  rw [Reader.skip, ← h.length_rest, hrest, List.length_append, if_neg (by omega)]
  rfl

theorem within_mk {data : Bytes} {size : Nat} (h : size ≤ data.length) : (Reader.mk data size 0).Within := ⟨h, Nat.zero_le _⟩

end Reader

/-! ### Formats -/

def headerBytes (header : ResponseHeader) : Bytes := be 2 header.tag ++ be 4 header.size ++ be 4 header.code

/-- The response to a request for the public area of an index. -/
def publicResponse (declared : Nat) (area : CounterPublic) (policy name : Bytes) : Bytes :=
  headerBytes ⟨stNoSessions, declared, rcSuccess⟩ ++ be 2 (14 + policy.length) ++ be 4 area.index ++ be 2 area.nameAlgorithm ++
    be 4 area.attributes ++ be 2 policy.length ++ policy ++ be 2 area.dataSize ++ be 2 name.length ++ name

/-- The response to a request for the value of a counter; the areas of the sessions stand behind the parameters. -/
def valueResponse (declared value : Nat) (sessions : Bytes) : Bytes :=
  headerBytes ⟨stSessions, declared, rcSuccess⟩ ++ be 4 10 ++ be 2 8 ++ be 8 value ++ sessions

theorem length_headerBytes (header : ResponseHeader) : (headerBytes header).length = commandHeaderBytes := by
  simp [headerBytes, commandHeaderBytes]

/-! ### The header -/

/-- What an accepted header says of a response. -/
structure Headed (response : Bytes) (header : ResponseHeader) : Prop where
  starts : ∃ tail, response.take header.size = headerBytes header ++ tail
  size : header.size ≤ response.length
  limit : header.size ≤ maxResponseBytes

theorem parseResponseHeader_ends (response : Bytes) :
    Ends (fun found => ∀ header, found = some header → Headed response header) (parseResponseHeader response response.length) := by
  have hnone : Ends (fun found => ∀ header, found = some header → Headed response header) (some none) := ends_some nofun
  rw [parseResponseHeader]
  refine ends_ite (fun _ => hnone) fun _ => ?_
  have h0 := Reader.within_mk (Nat.le_refl response.length)
  refine h0.getU16 hnone fun tag rest1 htag hrest1 => ?_
  obtain ⟨h1, hnext1⟩ := h0.number hrest1
  refine h1.getU32 hnone fun size rest2 hsize hrest2 => ?_
  obtain ⟨h2, hnext2⟩ := h1.number hrest2
  refine h2.getU32 hnone fun code rest3 hcode hrest3 => ?_
  refine ends_ite (fun _ => hnone) fun haccepted => ends_some fun header hheader => ?_
  obtain rfl := Option.some.inj hheader
  obtain rfl : rest1 = be 4 size ++ rest2 := hnext1.symm.trans hrest2
  obtain rfl : rest2 = be 4 code ++ rest3 := hnext2.symm.trans hrest3
  have hresponse : response = headerBytes ⟨tag, size, code⟩ ++ rest3 := by simpa [Reader.rest, headerBytes] using hrest1
  simp only [not_or, not_lt] at haccepted
  refine ⟨⟨rest3.take (size - commandHeaderBytes), ?_⟩, haccepted.2.2.1, haccepted.2.2.2⟩
  conv_lhs => rw [hresponse]
  rw [List.take_append, length_headerBytes, List.take_of_length_le]
  rw [length_headerBytes]
  exact haccepted.2.1

theorem Headed.start {response tail : Bytes} {header : ResponseHeader} (h : Headed response header)
    (htail : response.take header.size = headerBytes header ++ tail) :
    ((Reader.mk response header.size 0).advance commandHeaderBytes).Within ∧
      ((Reader.mk response header.size 0).advance commandHeaderBytes).rest = tail := by
  have hnext := (Reader.within_mk h.size).advance htail
  rwa [length_headerBytes] at hnext

theorem parseResponseHeader_of {response : Bytes} {header : ResponseHeader} (h : Headed response header)
    (hlimit : response.length ≤ maxResponseBytes) (htag : header.tag = stNoSessions ∨ header.tag = stSessions)
    (hcode : header.code = rcSuccess) : parseResponseHeader response response.length = some (some header) := by
  obtain ⟨tail, htail⟩ := h.starts
  have hbound : header.size ≤ 4096 := h.limit
  have hsize : commandHeaderBytes ≤ header.size := by
    have hlength := congrArg List.length htail
    rw [List.length_take, List.length_append, length_headerBytes, Nat.min_eq_left h.size] at hlength
    omega
  have hrest0 : (Reader.mk response response.length 0).rest =
      be 2 header.tag ++ (be 4 header.size ++ (be 4 header.code ++ (tail ++ response.drop header.size))) := by
    rw [Reader.rest, List.drop_zero, List.take_length]
    refine (List.take_append_drop header.size response).symm.trans ?_
    rw [htail]
    simp [headerBytes]
  have htag' : header.tag < 256 ^ 2 := by
    rcases htag with htag | htag <;> rw [htag] <;> decide
  have h0 := Reader.within_mk (Nat.le_refl response.length)
  obtain ⟨h1, hrest1⟩ := h0.number hrest0
  obtain ⟨h2, hrest2⟩ := h1.number hrest1
  rw [parseResponseHeader, if_neg, h0.getU16_be htag' hrest0, h1.getU32_be (by omega) hrest1,
    h2.getU32_be (by rw [hcode]; decide) hrest2, if_neg]
  · have hfits := h.size
    have hlimit' := h.limit
    omega
  · have hfits := h.size
    omega

/-! ### The public area -/

/-- The fields are read from as many bytes as their types have. -/
structure CounterPublic.InRange (area : CounterPublic) : Prop where
  index : area.index < 256 ^ 4
  nameAlgorithm : area.nameAlgorithm < 256 ^ 2
  attributes : area.attributes < 256 ^ 4
  dataSize : area.dataSize < 256 ^ 2

/-- A response that a public area is read from. -/
structure Shows (response : Bytes) (declared : Nat) (area : CounterPublic) (policy name : Bytes) : Prop where
  bytes : response.take declared = publicResponse declared area policy name
  fits : declared ≤ response.length
  limit : declared ≤ maxResponseBytes
  range : area.InRange

theorem Shows.headed {response policy name : Bytes} {declared : Nat} {area : CounterPublic}
    (h : Shows response declared area policy name) : Headed response ⟨stNoSessions, declared, rcSuccess⟩ :=
  ⟨⟨_, by rw [h.bytes, publicResponse]; simp only [List.append_assoc]; rfl⟩, h.fits, h.limit⟩

theorem Shows.length {response policy name : Bytes} {declared : Nat} {area : CounterPublic}
    (h : Shows response declared area policy name) : declared = 28 + policy.length + name.length := by
  have hlength := congrArg List.length h.bytes
  rw [List.length_take, Nat.min_eq_left h.fits] at hlength
  rw [hlength]
  simp [publicResponse, headerBytes]
  omega

theorem parseCounterPublic_of {response policy name : Bytes} {declared : Nat} {area : CounterPublic}
    (h : Shows response declared area policy name) (hlimit : response.length ≤ maxResponseBytes) :
    parseCounterPublic response response.length = some (judgePublic area policy.length, area, rcSuccess) := by
  have hlength := h.length
  have hbound : declared ≤ 4096 := h.limit
  have hbytes : response.take declared = headerBytes ⟨stNoSessions, declared, rcSuccess⟩ ++ (be 2 (14 + policy.length) ++
      (be 4 area.index ++ (be 2 area.nameAlgorithm ++ (be 4 area.attributes ++ (be 2 policy.length ++ (policy ++
      (be 2 area.dataSize ++ (be 2 name.length ++ (name ++ []))))))))) := by
    rw [h.bytes, publicResponse]
    simp only [List.append_assoc, List.append_nil]
  have h0 := Reader.within_mk h.fits
  obtain ⟨h1, hrest1⟩ := h.headed.start hbytes
  obtain ⟨h2, hrest2⟩ := h1.number hrest1
  obtain ⟨h3, hrest3⟩ := h2.number hrest2
  obtain ⟨h4, hrest4⟩ := h3.number hrest3
  obtain ⟨h5, hrest5⟩ := h4.number hrest4
  obtain ⟨h6, hrest6⟩ := h5.number hrest5
  obtain ⟨h7, hrest7⟩ := h6.advance hrest6
  obtain ⟨h8, hrest8⟩ := h7.number hrest7
  obtain ⟨h9, hrest9⟩ := h8.number hrest8
  rw [parseCounterPublic, parseResponseHeader_of h.headed hlimit (Or.inl rfl) rfl]
  simp only [Option.bind_eq_bind, Option.bind_some]
  rw [if_neg (by simp), if_neg (by simp), h0.skip_bytes (length_headerBytes _) hbytes, h1.getU16_be (by omega) hrest1,
    ← h2.length_rest, hrest2, if_neg (by simp; omega), h2.getU32_be h.range.index hrest2, h3.getU16_be h.range.nameAlgorithm hrest3,
    h4.getU32_be h.range.attributes hrest4, h5.getU16_be (by omega) hrest5, if_neg, h6.skip_bytes rfl hrest6,
    h7.getU16_be h.range.dataSize hrest7, if_neg, h8.getU16_be (by omega) hrest8, ← h9.length_rest, hrest9, if_neg (by simp),
    h9.skip_bytes rfl hrest9, if_neg]
  · simp [Reader.advance, commandHeaderBytes]
    omega
  · simp [Reader.advance]
    omega
  · simp [Reader.advance]
    omega

/-- A response is turned down, or it shows a public area, which is judged. -/
def PublicRead (response : Bytes) : PublicValidation × CounterPublic × Nat → Prop := fun (validation, area, _) =>
  validation = .malformed ∨ validation = .responseError ∨
    ∃ declared policy name, Shows response declared area policy name ∧ validation = judgePublic area policy.length

theorem parseCounterPublic_ends (response : Bytes) :
    Ends (PublicRead response) (parseCounterPublic response response.length) := by
  have hmalformed (area : CounterPublic) (code : Nat) : Ends (PublicRead response) (some (.malformed, area, code)) :=
    ends_some (Or.inl rfl)
  obtain ⟨found, hfound, hheaded⟩ := parseResponseHeader_ends response
  rw [parseCounterPublic, hfound]
  cases found with
  | none => exact hmalformed _ _
  | some header =>
    have hhead := hheaded header rfl
    simp only [Option.bind_eq_bind, Option.bind_some]
    refine ends_ite (fun _ => ends_some (Or.inr (Or.inl rfl))) fun hcode => ends_ite (fun _ => hmalformed _ _) fun htag => ?_
    obtain ⟨rest1, hbytes⟩ := hhead.starts
    have h0 := Reader.within_mk hhead.size
    obtain ⟨h1, hnext1⟩ := hhead.start hbytes
    rw [h0.skip_bytes (length_headerBytes _) hbytes]
    refine h1.getU16 (hmalformed _ _) fun publicSize rest2 hpublic hrest2 => ?_
    obtain ⟨h2, hnext2⟩ := h1.number hrest2
    refine ends_ite (fun _ => hmalformed _ _) fun hsizes => ?_
    refine h2.getU32 (hmalformed _ _) fun index rest3 hindex hrest3 => ?_
    obtain ⟨h3, hnext3⟩ := h2.number hrest3
    refine h3.getU16 (hmalformed _ _) fun nameAlgorithm rest4 halgorithm hrest4 => ?_
    obtain ⟨h4, hnext4⟩ := h3.number hrest4
    refine h4.getU32 (hmalformed _ _) fun attributes rest5 hattributes hrest5 => ?_
    obtain ⟨h5, hnext5⟩ := h4.number hrest5
    refine h5.getU16 (hmalformed _ _) fun policySize rest6 hpolicySize hrest6 => ?_
    obtain ⟨h6, hnext6⟩ := h5.number hrest6
    refine ends_ite (fun _ => hmalformed _ _) fun _ => ?_
    refine h6.skip (hmalformed _ _) fun policy rest7 hpolicy hrest7 => ?_
    obtain ⟨h7, hnext7⟩ := h6.advance hrest7
    rw [hpolicy] at h7 hnext7
    refine h7.getU16 (hmalformed _ _) fun dataSize rest8 hdata hrest8 => ?_
    obtain ⟨h8, hnext8⟩ := h7.number hrest8
    refine ends_ite (fun _ => hmalformed _ _) fun hend => ?_
    refine h8.getU16 (hmalformed _ _) fun nameSize rest9 hnameSize hrest9 => ?_
    obtain ⟨h9, hnext9⟩ := h8.number hrest9
    refine ends_ite (fun _ => hmalformed _ _) fun _ => ?_
    refine h9.skip (hmalformed _ _) fun name rest10 hname hrest10 => ?_
    obtain ⟨h10, hnext10⟩ := h9.advance hrest10
    rw [hname] at h10 hnext10
    refine ends_ite (fun _ => hmalformed _ _) fun hdeclared => ends_some (Or.inr (Or.inr ?_))
    refine ⟨header.size, policy, name, ⟨?_, hhead.size, hhead.limit, ⟨hindex, halgorithm, hattributes, hdata⟩⟩, by rw [hpolicy]⟩
    have hpublicSize : publicSize = 14 + policySize := by
      simp [Reader.advance, commandHeaderBytes] at hend
      omega
    have hrest : rest10 = [] := by
      rw [← hnext10, ← List.length_eq_zero_iff, h10.length_rest]
      have hoffset := not_not.mp hdeclared
      rw [hoffset]
      exact Nat.sub_self _
    have hheader : header = ⟨stNoSessions, header.size, rcSuccess⟩ := by
      obtain ⟨tag, size, code⟩ := header
      simp only [ne_eq, Decidable.not_not] at hcode htag
      rw [hcode, htag]
    rw [hbytes, ← hnext1, hrest2, ← hnext2, hrest3, ← hnext3, hrest4, ← hnext4, hrest5, ← hnext5, hrest6, ← hnext6, hrest7, ← hnext7,
      hrest8, ← hnext8, hrest9, ← hnext9, hrest10, hrest, publicResponse, ← hheader, hpublicSize, hpolicy, hname]
    simp only [List.append_assoc, List.append_nil]

theorem judgePublic_okay {area : CounterPublic} {policySize : Nat} :
    judgePublic area policySize = .okay ↔ area = ⟨nvIndex, algSha256, nvAttributes, nvDataBytes⟩ ∧ policySize = 0 := by
  obtain ⟨index, nameAlgorithm, attributes, dataSize⟩ := area
  unfold judgePublic
  split_ifs <;> simp_all

/-! ### The edit of the attributes -/

theorem store_four {β : Type} {pre post : Bytes} {n : Nat} (hpre : pre.length = n) (w x y z a b c d : UInt8) (next : Bytes → Option β) :
    ((store (pre ++ w :: x :: y :: z :: post) n a).bind fun first => (store first (n + 1) b).bind fun second =>
      (store second (n + 2) c).bind fun third => (store third (n + 3) d).bind next) = next (pre ++ a :: b :: c :: d :: post) := by
  subst hpre
  simp [store]

theorem be_nvAttributes : be 4 nvAttributes = [UInt8.ofNat (nvAttributes >>> 24), UInt8.ofNat (nvAttributes >>> 16),
    UInt8.ofNat (nvAttributes >>> 8), UInt8.ofNat nvAttributes] := by decide

theorem Shows.edit (pre word post : Bytes) {word' policy name : Bytes} {responseSize declared : Nat} {area : CounterPublic}
    (h : Shows ((pre ++ (word ++ post)).take responseSize) declared area policy name) (hpre : pre.length = 18) (hword : word.length = 4)
    {attributes : Nat} (hattributes : attributes < 256 ^ 4) (hword' : word' = be 4 attributes) :
    Shows ((pre ++ (word' ++ post)).take responseSize) declared { area with attributes } policy name := by
  have hlength := h.length
  have hsize : (pre ++ (word' ++ post)).length = (pre ++ (word ++ post)).length := by
    simp [hword', hword]
  have hfits := h.fits
  rw [List.length_take] at hfits
  have hbytes := h.bytes
  rw [List.take_take, Nat.min_eq_left (by omega)] at hbytes
  have hcut (w : Bytes) (hw : w.length = 4) : (pre ++ (w ++ post)).take declared = pre ++ (w ++ post.take (declared - 22)) := by
    rw [List.take_append, List.take_of_length_le (by omega), List.take_append, List.take_of_length_le (by omega), hpre, hw]
    congr 3
  rw [hcut word hword] at hbytes
  let front : Bytes := headerBytes ⟨stNoSessions, declared, rcSuccess⟩ ++ be 2 (14 + policy.length) ++ be 4 area.index ++
    be 2 area.nameAlgorithm
  let back : Bytes := be 2 policy.length ++ (policy ++ (be 2 area.dataSize ++ (be 2 name.length ++ name)))
  have hsplit (attributes : Nat) :
      publicResponse declared { area with attributes } policy name = front ++ (be 4 attributes ++ back) := by
    simp only [publicResponse, front, back, List.append_assoc]
  have hfront : front.length = 18 := by simp [front, headerBytes]
  rw [show area = { area with attributes := area.attributes } from rfl, hsplit] at hbytes
  obtain ⟨hpre', htail⟩ := List.append_inj hbytes (hpre.trans hfront.symm)
  obtain ⟨-, hpost⟩ := List.append_inj htail (hword.trans (length_be 4 _).symm)
  refine ⟨?_, ?_, h.limit, ⟨h.range.index, h.range.nameAlgorithm, hattributes, h.range.dataSize⟩⟩
  · rw [List.take_take, Nat.min_eq_left (by omega), hcut word' (by rw [hword', length_be]), hsplit, hpre', hword', hpost]
  · rw [List.length_take, hsize]
    exact hfits

/-- The template, with attributes that may differ from it. -/
def template (attributes : Nat) : CounterPublic := ⟨nvIndex, algSha256, attributes, nvDataBytes⟩

theorem parseCounterPublicRuntime_ends {responseBuffer : Bytes} {responseSize : Nat} (hfits : responseSize ≤ responseBuffer.length)
    (hlimit : responseSize ≤ maxResponseBytes) :
    Ends (fun (validation, _, _, buffer) => buffer = responseBuffer ∧ (validation = .okay ↔ ∃ declared attributes name,
        (attributes = nvAttributes ∨ attributes = nvAttributes ||| nvWrittenAttribute) ∧
        Shows (responseBuffer.take responseSize) declared (template attributes) [] name))
      (parseCounterPublicRuntime responseBuffer responseSize) := by
  have hlength : (responseBuffer.take responseSize).length = responseSize := by rw [List.length_take, Nat.min_eq_left hfits]
  have hof {declared : Nat} {area : CounterPublic} {policy name : Bytes}
      (h : Shows (responseBuffer.take responseSize) declared area policy name) :=
    parseCounterPublic_of h (hlength.trans_le hlimit)
  obtain ⟨⟨validation, area, code⟩, hparse, hread⟩ := parseCounterPublic_ends (responseBuffer.take responseSize)
  rw [hlength] at hparse hof
  rw [parseCounterPublicRuntime, hparse]
  simp only [Option.bind_eq_bind, Option.bind_some]
  by_cases hedit : validation = .wrongAttributes ∧ area.attributes = nvAttributes ||| nvWrittenAttribute
  · obtain ⟨rfl, hwritten⟩ := hedit
    obtain hread | hread | ⟨declared, policy, name, hshows, hjudge⟩ := hread
    · cases hread
    · cases hread
    · have hdeclared := hshows.length
      have hsize := hlength ▸ hshows.fits
      rw [if_neg (by simp [hwritten]; omega)]
      -- the four bytes of the attributes
      obtain ⟨pre, w, x, y, z, post, hpre, rfl⟩ : ∃ pre w x y z post, pre.length = 18 ∧ responseBuffer = pre ++ w :: x :: y :: z :: post := by
        refine ⟨responseBuffer.take 18, responseBuffer[18], responseBuffer[19], responseBuffer[20], responseBuffer[21],
          responseBuffer.drop 22, by rw [List.length_take]; omega, ?_⟩
        rw [← List.drop_eq_getElem_cons, ← List.drop_eq_getElem_cons, ← List.drop_eq_getElem_cons, ← List.drop_eq_getElem_cons,
          List.take_append_drop]
      have hat {i : Nat} (hi : i < 4) :
          ((pre ++ w :: x :: y :: z :: post).take responseSize)[18 + i]? = (w :: x :: y :: z :: post)[i]? := by
        rw [List.getElem?_take_of_lt (by omega), List.getElem?_append_right (by omega), hpre, Nat.add_sub_cancel_left]
      have hw : ((pre ++ w :: x :: y :: z :: post).take responseSize)[18]? = some w := hat (i := 0) (by decide)
      have hx : ((pre ++ w :: x :: y :: z :: post).take responseSize)[19]? = some x := hat (i := 1) (by decide)
      have hy : ((pre ++ w :: x :: y :: z :: post).take responseSize)[20]? = some y := hat (i := 2) (by decide)
      have hz : ((pre ++ w :: x :: y :: z :: post).take responseSize)[21]? = some z := hat (i := 3) (by decide)
      simp only [hw, hx, hy, hz, Option.bind_some]
      -- the second run reads the response with the attributes of the template
      have hedited := Shows.edit pre [w, x, y, z] post hshows hpre rfl (by decide) be_nvAttributes.symm
      have hlength' : ((pre ++ ([UInt8.ofNat (nvAttributes >>> 24), UInt8.ofNat (nvAttributes >>> 16), UInt8.ofNat (nvAttributes >>> 8),
          UInt8.ofNat nvAttributes] ++ post)).take responseSize).length = responseSize := by
        rw [List.length_take]
        simp at hfits ⊢
        omega
      have hparse' := parseCounterPublic_of hedited (hlength'.trans_le hlimit)
      rw [hlength'] at hparse'
      simp only [List.cons_append, List.nil_append] at hparse'
      rw [store_four hpre, hparse', Option.bind_some, store_four hpre]
      refine ends_some ⟨rfl, ?_, ?_⟩
      · intro hokay
        obtain ⟨harea, hpolicy⟩ := judgePublic_okay.mp hokay
        obtain rfl := List.length_eq_zero_iff.mp hpolicy
        obtain ⟨index, nameAlgorithm, attributes, dataSize⟩ := area
        simp only [CounterPublic.mk.injEq, true_and] at harea hwritten
        obtain ⟨rfl, rfl, rfl⟩ := harea
        subst hwritten
        exact ⟨declared, _, name, Or.inr rfl, hshows⟩
      · rintro ⟨declared', attributes, name', -, hshows'⟩
        have heq := Option.some.inj (hparse.symm.trans (hof hshows'))
        simp only [Prod.mk.injEq] at heq
        obtain ⟨-, rfl, -⟩ := heq
        have hagain := parseCounterPublic_of (Shows.edit pre [w, x, y, z] post hshows' hpre rfl (by decide)
          be_nvAttributes.symm) (hlength'.trans_le hlimit)
        rw [hlength'] at hagain
        have heq := Option.some.inj (hparse'.symm.trans hagain)
        simp only [Prod.mk.injEq] at heq
        exact heq.1.trans (judgePublic_okay.mpr ⟨rfl, rfl⟩)
  · have hkept : validation ≠ .wrongAttributes ∨ responseSize < 22 ∨ area.attributes ≠ nvAttributes ||| nvWrittenAttribute := by
      by_contra hno
      simp only [not_or, not_not] at hno
      exact hedit ⟨hno.1, hno.2.2⟩
    rw [if_pos hkept]
    refine ends_some ⟨rfl, ?_, ?_⟩
    · rintro rfl
      obtain hread | hread | ⟨declared, policy, name, hshows, hjudge⟩ := hread
      · cases hread
      · cases hread
      · obtain ⟨rfl, hpolicy⟩ := judgePublic_okay.mp hjudge.symm
        obtain rfl := List.length_eq_zero_iff.mp hpolicy
        exact ⟨declared, nvAttributes, name, Or.inl rfl, hshows⟩
    · rintro ⟨declared, attributes, name, hattributes, hshows⟩
      obtain ⟨rfl, rfl⟩ : validation = judgePublic (template attributes) 0 ∧ area = template attributes := by
        have heq := Option.some.inj (hparse.symm.trans (hof hshows))
        simp only [Prod.mk.injEq] at heq
        exact ⟨heq.1, heq.2.1⟩
      rcases hattributes with rfl | rfl
      · exact judgePublic_okay.mpr ⟨rfl, rfl⟩
      · exact absurd ⟨by decide, rfl⟩ hedit

/-! ### The value of the counter -/

/-- A response that a value is read from. -/
structure Carries (response : Bytes) (declared value : Nat) (sessions : Bytes) : Prop where
  bytes : response.take declared = valueResponse declared value sessions
  fits : declared ≤ response.length
  range : value < 256 ^ 8

theorem parseCounterValue_of {response sessions : Bytes} {declared value : Nat} (h : Carries response declared value sessions)
    (hlimit : response.length ≤ maxResponseBytes) : parseCounterValue response response.length = some (true, value, rcSuccess) := by
  have hbytes : response.take declared = headerBytes ⟨stSessions, declared, rcSuccess⟩ ++ (be 4 10 ++ (be 2 8 ++ (be 8 value ++
      sessions))) := by
    rw [h.bytes, valueResponse]
    simp only [List.append_assoc]
  have hhead : Headed response ⟨stSessions, declared, rcSuccess⟩ := ⟨⟨_, hbytes⟩, h.fits, h.fits.trans hlimit⟩
  have hlength := congrArg List.length h.bytes
  rw [List.length_take, Nat.min_eq_left h.fits] at hlength
  simp [valueResponse, headerBytes] at hlength
  have h0 := Reader.within_mk h.fits
  obtain ⟨h1, hrest1⟩ := hhead.start hbytes
  obtain ⟨h2, hrest2⟩ := h1.number hrest1
  obtain ⟨h3, hrest3⟩ := h2.number hrest2
  rw [parseCounterValue, parseResponseHeader_of hhead hlimit (Or.inr rfl) rfl]
  simp only [Option.bind_eq_bind, Option.bind_some]
  rw [if_neg (by simp), h0.skip_bytes (length_headerBytes _) hbytes, h1.getU32_be (by decide) hrest1, ← h2.length_rest, hrest2,
    if_neg (by simp [nvDataBytes]; omega), h2.getU16_be (by decide) hrest2, if_neg (by simp [nvDataBytes]), h3.getU64_be h.range hrest3,
    if_neg]
  simp [Reader.advance, commandHeaderBytes]
  omega

theorem parseCounterValue_ends (response : Bytes) :
    Ends (fun (okay, value, _) => okay = true → ∃ declared sessions, Carries response declared value sessions)
      (parseCounterValue response response.length) := by
  have hrefused (value code : Nat) : Ends (fun (okay, value, _) => okay = true → ∃ declared sessions, Carries response declared value sessions)
      (some (false, value, code)) := ends_some nofun
  obtain ⟨found, hfound, hheaded⟩ := parseResponseHeader_ends response
  rw [parseCounterValue, hfound]
  cases found with
  | none => exact hrefused _ _
  | some header =>
    have hhead := hheaded header rfl
    simp only [Option.bind_eq_bind, Option.bind_some]
    refine ends_ite (fun _ => hrefused _ _) fun haccepted => ?_
    simp only [not_or, not_not] at haccepted
    obtain ⟨rest1, hbytes⟩ := hhead.starts
    have h0 := Reader.within_mk hhead.size
    obtain ⟨h1, hnext1⟩ := hhead.start hbytes
    rw [h0.skip_bytes (length_headerBytes _) hbytes]
    refine h1.getU32 (hrefused _ _) fun parameterSize rest2 _ hrest2 => ?_
    obtain ⟨h2, hnext2⟩ := h1.number hrest2
    refine ends_ite (fun _ => hrefused _ _) fun hparameter => ?_
    refine h2.getU16 (hrefused _ _) fun dataSize rest3 _ hrest3 => ?_
    obtain ⟨h3, hnext3⟩ := h2.number hrest3
    refine ends_ite (fun _ => hrefused _ _) fun hdata => ?_
    refine h3.getU64 (hrefused _ _) fun counter rest4 hcounter hrest4 => ?_
    refine ends_ite (fun _ => hrefused _ _) fun _ => ends_some fun _ => ?_
    have hheader : header = ⟨stSessions, header.size, rcSuccess⟩ := by
      obtain ⟨tag, size, code⟩ := header
      obtain ⟨rfl, rfl⟩ := haccepted
      rfl
    simp only [not_or, not_not] at hparameter hdata
    refine ⟨header.size, rest4, ⟨?_, hhead.size, hcounter⟩⟩
    rw [hbytes, ← hnext1, hrest2, ← hnext2, hrest3, ← hnext3, hrest4, valueResponse, ← hheader, hparameter.1, hdata]
    simp only [List.append_assoc]
    rfl

/-! ### Exact parsers -/

/-- The buffer of a response is parsed without a fault and stays as it is. The public area is accepted if the response has it as the
template says, written or not, and the value if the response carries one. -/
theorem responses_exact {responseBuffer : Bytes} {responseSize : Nat} (hfits : responseSize ≤ responseBuffer.length)
    (hlimit : responseSize ≤ maxResponseBytes) :
    (∃ validation publicArea responseCode,
      parseCounterPublicRuntime responseBuffer responseSize = some (validation, publicArea, responseCode, responseBuffer) ∧
      (validation = .okay ↔ ∃ declared attributes name, declared ≤ responseSize ∧
        (attributes = nvAttributes ∨ attributes = nvAttributes ||| nvWrittenAttribute) ∧
        responseBuffer.take declared = publicResponse declared ⟨nvIndex, algSha256, attributes, nvDataBytes⟩ [] name)) ∧
    ∃ okay counter responseCode,
      parseCounterValue (responseBuffer.take responseSize) responseSize = some (okay, counter, responseCode) ∧
      (okay = true ↔ ∃ declared value sessions, declared ≤ responseSize ∧ value < 2 ^ 64 ∧
        responseBuffer.take declared = valueResponse declared value sessions) ∧
      ∀ declared value sessions, declared ≤ responseSize → value < 2 ^ 64 →
        responseBuffer.take declared = valueResponse declared value sessions → counter = value := by
  have hlength : (responseBuffer.take responseSize).length = responseSize := by rw [List.length_take, Nat.min_eq_left hfits]
  have htake {declared : Nat} (h : declared ≤ responseSize) :
      (responseBuffer.take responseSize).take declared = responseBuffer.take declared := by
    rw [List.take_take, Nat.min_eq_left h]
  have hbound {declared : Nat} (h : declared ≤ responseSize) : declared ≤ (responseBuffer.take responseSize).length := h.trans_eq hlength.symm
  constructor
  · obtain ⟨⟨validation, publicArea, responseCode, buffer⟩, hrun, rfl, hokay⟩ := parseCounterPublicRuntime_ends hfits hlimit
    refine ⟨validation, publicArea, responseCode, hrun, hokay.trans ⟨?_, ?_⟩⟩
    · rintro ⟨declared, attributes, name, hattributes, hshows⟩
      have hin := hshows.fits.trans_eq hlength
      exact ⟨declared, attributes, name, hin, hattributes, (htake hin).symm.trans hshows.bytes⟩
    · rintro ⟨declared, attributes, name, hin, hattributes, hbytes⟩
      have hrange : attributes < 256 ^ 4 := by
        rcases hattributes with rfl | rfl <;> decide
      exact ⟨declared, attributes, name, hattributes, (htake hin).trans hbytes, hbound hin, hin.trans hlimit,
        (by decide : nvIndex < 256 ^ 4), (by decide : algSha256 < 256 ^ 2), hrange, (by decide : nvDataBytes < 256 ^ 2)⟩
  · have hof {declared value : Nat} {sessions : Bytes} (hin : declared ≤ responseSize) (hvalue : value < 2 ^ 64)
        (hbytes : responseBuffer.take declared = valueResponse declared value sessions) :=
      parseCounterValue_of ⟨(htake hin).trans hbytes, hbound hin, by omega⟩ (hlength.trans_le hlimit)
    obtain ⟨⟨okay, counter, responseCode⟩, hrun, hokay⟩ := parseCounterValue_ends (responseBuffer.take responseSize)
    rw [hlength] at hrun hof
    refine ⟨okay, counter, responseCode, hrun, ⟨fun h => ?_, ?_⟩, ?_⟩
    · obtain ⟨declared, sessions, hcarries⟩ := hokay h
      have hin := hcarries.fits.trans_eq hlength
      exact ⟨declared, counter, sessions, hin, by simpa using hcarries.range, (htake hin).symm.trans hcarries.bytes⟩
    · rintro ⟨declared, value, sessions, hin, hvalue, hbytes⟩
      exact congrArg Prod.fst (Option.some.inj (hrun.symm.trans (hof hin hvalue hbytes)))
    · intro declared value sessions hin hvalue hbytes
      exact congrArg (·.2.1) (Option.some.inj (hrun.symm.trans (hof hin hvalue hbytes)))

/-- The response for a counter that was written, with a name of three bytes, and what an earlier response has left behind it. -/
def sampleBuffer : Bytes :=
  publicResponse 31 (template (nvAttributes ||| nvWrittenAttribute)) [] [7, 8, 9] ++ List.replicate 9 0

theorem responses_exact_sample : 31 ≤ sampleBuffer.length ∧ (∃ validation publicArea responseCode,
    parseCounterPublicRuntime sampleBuffer 31 = some (validation, publicArea, responseCode, sampleBuffer) ∧ validation = .okay) := by
  obtain ⟨⟨validation, publicArea, responseCode, hrun, hokay⟩, -⟩ :=
    responses_exact (show 31 ≤ sampleBuffer.length by decide) (by decide)
  exact ⟨by decide, validation, publicArea, responseCode, hrun,
    hokay.mpr ⟨31, _, [7, 8, 9], by decide, Or.inr rfl, by decide⟩⟩

end ZenovOS.Security.Tpm2
