import Mathlib.Algebra.Order.BigOperators.Group.List
import ZenovOS.Productivity.Tasks
import ZenovOS.Theorems.Productivity.Notes
import ZenovOS.Theorems.Productivity.Records

/-! # The index of the tasks

The scan finds the checkbox lines with a payload. It does not count a checkbox without one, so that the lines behind it have numbers that
are too small. A change of a line that is where the index says keeps the rest of its note. -/

namespace ZenovOS.Productivity.Tasks
open Bytes Notes

/-! ### Checkboxes -/

/-- A line with a checkbox: blanks, the box with its state, and a payload behind a gap. -/
structure Checkbox where
  indent : Bytes
  state : UInt8
  gap : Bytes
  payload : Bytes
  indent_blank : ∀ c ∈ indent, tagBoundary c = true
  state_mark : state = 32 ∨ state = 120 ∨ state = 88
  gap_ne : gap ≠ []
  gap_blank : ∀ c ∈ gap, tagBoundary c = true
  payload_first : ∀ c, payload.head? = some c → tagBoundary c = false
deriving DecidableEq

namespace Checkbox

/-- What stands before the payload. -/
def front (b : Checkbox) : Bytes := b.indent ++ 45 :: 32 :: 91 :: b.state :: 93 :: b.gap

def line (b : Checkbox) : Bytes := b.front ++ b.payload

/-- The checkbox of a line, if it has one. -/
def parse (line : Bytes) : Option Checkbox :=
  match line.dropWhile tagBoundary with
  | 45 :: 32 :: 91 :: state :: 93 :: c :: rest =>
    if h : (state = 32 ∨ state = 120 ∨ state = 88) ∧ tagBoundary c = true then
      some
        { indent := line.takeWhile tagBoundary
          state
          gap := (c :: rest).takeWhile tagBoundary
          payload := (c :: rest).dropWhile tagBoundary
          indent_blank := fun _ hc => List.mem_takeWhile_imp hc
          state_mark := h.1
          gap_ne := by rw [List.takeWhile_cons_of_pos h.2]; exact List.cons_ne_nil _ _
          gap_blank := fun _ hc => List.mem_takeWhile_imp hc
          payload_first := fun first hfirst => by
            have hnot := List.head?_dropWhile_not tagBoundary (c :: rest)
            rw [hfirst] at hnot
            exact hnot }
    else none
  | _ => none

theorem parse_eq_some_iff {line : Bytes} {b : Checkbox} : parse line = some b ↔ b.line = line := by
  constructor
  · intro h
    unfold parse at h
    split at h
    · next state c rest hdrop =>
      split at h
      · cases h
        unfold Checkbox.line front
        simp only [List.append_assoc, List.cons_append, List.takeWhile_append_dropWhile]
        rw [← hdrop, List.takeWhile_append_dropWhile]
      · cases h
    · cases h
  · rintro rfl
    obtain ⟨indent, state, gap, payload, hindent, hstate, hgap, hblank, hfirst⟩ := b
    obtain ⟨g, gs, rfl⟩ := List.exists_cons_of_ne_nil hgap
    have hline : (Checkbox.mk indent state (g :: gs) payload hindent hstate hgap hblank hfirst).line =
        indent ++ 45 :: 32 :: 91 :: state :: 93 :: g :: (gs ++ payload) := by
      unfold Checkbox.line front
      simp only [List.append_assoc, List.cons_append]
    obtain ⟨htake, hdrop⟩ := @Text.takeWhile_of_head _ tagBoundary indent (45 :: 32 :: 91 :: state :: 93 :: g :: (gs ++ payload)) hindent
      (by rintro c ⟨⟩; rfl)
    obtain ⟨hgapTake, hgapDrop⟩ := @Text.takeWhile_of_head _ tagBoundary (g :: gs) payload hblank hfirst
    rw [hline]
    unfold parse
    split
    · next state' c rest hmatch =>
      rw [hdrop] at hmatch
      cases hmatch
      rw [dif_pos ⟨hstate, hblank g List.mem_cons_self⟩, Option.some.injEq, Checkbox.mk.injEq]
      exact ⟨htake, rfl, hgapTake, hgapDrop⟩
    · next hother => exact absurd hdrop (hother _ _ _)

theorem length_front (b : Checkbox) : b.front.length = b.indent.length + 5 + b.gap.length := by
  unfold front
  simp only [List.length_append, List.length_cons]
  omega

theorem line_eq (b : Checkbox) : b.line = b.indent ++ 45 :: 32 :: 91 :: b.state :: 93 :: (b.gap ++ b.payload) := by
  unfold line front
  simp only [List.append_assoc, List.cons_append]

theorem takeWhile_line (b : Checkbox) : b.line.takeWhile tagBoundary = b.indent ∧
    b.line.dropWhile tagBoundary = 45 :: 32 :: 91 :: b.state :: 93 :: (b.gap ++ b.payload) := by
  rw [line_eq]
  exact Text.takeWhile_of_head b.indent_blank (by rintro c ⟨⟩; rfl)

theorem drop_indent (b : Checkbox) : b.line.drop b.indent.length = 45 :: 32 :: 91 :: b.state :: 93 :: (b.gap ++ b.payload) := by
  rw [line_eq]
  exact List.drop_left

end Checkbox

/-! ### The line that the loop looks at -/

variable {data line : Bytes} {start : Nat}

/-- The line stands in the note at this offset. -/
structure LineAt (data : Bytes) (start : Nat) (line : Bytes) : Prop where
  slice_eq : slice data start line.length = line
  fits : start + line.length ≤ data.length

theorem LineAt.getD (h : LineAt data start line) {i : Nat} (hi : i < line.length) : data.getD (start + i) 0 = line.getD i 0 := by
  conv_rhs => rw [← h.slice_eq]
  exact (getD_slice hi).symm

theorem LineAt.slice_from (h : LineAt data start line) (i : Nat) : slice data (start + i) (start + line.length - (start + i)) = line.drop i := by
  conv_rhs => rw [← h.slice_eq]
  unfold slice
  rw [List.drop_take, List.drop_drop, Nat.add_sub_add_left]

theorem LineAt.skipWhile (h : LineAt data start line) (p : UInt8 → Bool) (i : Nat) :
    skipWhile p data (start + i) (start + line.length) = start + i + ((line.drop i).takeWhile p).length := by
  unfold Tasks.skipWhile
  rw [h.slice_from]

theorem LineAt.box {b : Checkbox} (h : LineAt data start b.line) {k : Nat} (hk : k < 6) :
    data.getD (start + b.indent.length + k) 0 = (45 :: 32 :: 91 :: b.state :: 93 :: (b.gap ++ b.payload)).getD k 0 := by
  have hlength : b.line.length = b.front.length + b.payload.length := List.length_append
  have hfront := b.length_front
  have hgap := List.length_pos_of_ne_nil b.gap_ne
  rw [Nat.add_assoc, h.getD (by omega), ← b.drop_indent, List.getD_eq_getElem?_getD, List.getD_eq_getElem?_getD, List.getElem?_drop]

theorem LineAt.box_boundary {b : Checkbox} (h : LineAt data start b.line) : tagBoundary (data.getD (start + b.indent.length + 5) 0) = true := by
  obtain ⟨g, gs, hgap⟩ := List.exists_cons_of_ne_nil b.gap_ne
  rw [h.box (by decide), hgap]
  exact b.gap_blank g (hgap ▸ List.mem_cons_self)

theorem findBox_of_box {b : Checkbox} (h : LineAt data start b.line) : findBox data start (start + b.line.length) =
    if b.payload = [] then .empty else .task (start + b.indent.length + 3) (start + b.front.length) := by
  have hfront := b.length_front
  have hlength : b.line.length = b.front.length + b.payload.length := List.length_append
  have hlt : 0 < b.gap.length := List.length_pos_of_ne_nil b.gap_ne
  have hmarker : Tasks.skipWhile tagBoundary data start (start + b.line.length) = start + b.indent.length := by
    rw [← b.takeWhile_line.1]
    exact h.skipWhile tagBoundary 0
  have hrest : b.line.drop (b.indent.length + 5) = b.gap ++ b.payload := by
    rw [← List.drop_drop, b.drop_indent]
    rfl
  have hpayload : Tasks.skipWhile tagBoundary data (start + b.indent.length + 5) (start + b.line.length) = start + b.front.length := by
    rw [Nat.add_assoc, h.skipWhile, hrest, (Text.takeWhile_of_head b.gap_blank b.payload_first).1, hfront]
    omega
  unfold findBox
  dsimp only
  rw [hmarker, hpayload, if_pos]
  · by_cases hempty : b.payload = []
    · rw [if_pos hempty, if_pos]
      rw [hlength, hempty]
      exact Nat.le_refl _
    · rw [if_neg hempty, if_neg]
      have hpos := List.length_pos_of_ne_nil hempty
      omega
  · refine ⟨by omega, h.box (k := 0) (by decide), h.box (k := 1) (by decide), h.box (k := 2) (by decide), h.box (k := 4) (by decide), ?_, h.box_boundary⟩
    rw [h.box (by decide)]
    exact b.state_mark

theorem parse_of_findBox (h : LineAt data start line) (hfound : findBox data start (start + line.length) ≠ .nothing) :
    Checkbox.parse line ≠ none := by
  have hmarker : Tasks.skipWhile tagBoundary data start (start + line.length) = start + (line.takeWhile tagBoundary).length := h.skipWhile tagBoundary 0
  unfold findBox at hfound
  dsimp only at hfound
  rw [hmarker] at hfound
  split at hfound
  · next hbox =>
    obtain ⟨hroom, h0, h1, h2, h4, h3, h5⟩ := hbox
    have hrest := Text.drop_takeWhile tagBoundary line
    have hlength : line.length = (line.takeWhile tagBoundary).length + (line.dropWhile tagBoundary).length := by
      rw [← List.length_append, List.takeWhile_append_dropWhile]
    have hchar : ∀ k, k < 6 → data.getD (start + (line.takeWhile tagBoundary).length + k) 0 = (line.dropWhile tagBoundary).getD k 0 := by
      intro k hk
      rw [Nat.add_assoc, h.getD (by omega), ← hrest, List.getD_eq_getElem?_getD, List.getD_eq_getElem?_getD, List.getElem?_drop]
    match hdrop : line.dropWhile tagBoundary with
    | [] | [_] | [_, _] | [_, _, _] | [_, _, _, _] | [_, _, _, _, _] =>
      rw [hdrop] at hlength
      simp only [List.length_cons, List.length_nil] at hlength
      omega
    | c0 :: c1 :: c2 :: state :: c4 :: c5 :: rest =>
      rw [hdrop] at hchar
      obtain rfl : c0 = 45 := (hchar 0 (by decide)).symm.trans h0
      obtain rfl : c1 = 32 := (hchar 1 (by decide)).symm.trans h1
      obtain rfl : c2 = 91 := (hchar 2 (by decide)).symm.trans h2
      obtain rfl : c4 = 93 := (hchar 4 (by decide)).symm.trans h4
      have hstate : data.getD (start + (line.takeWhile tagBoundary).length + 3) 0 = state := hchar 3 (by decide)
      have hgap : data.getD (start + (line.takeWhile tagBoundary).length + 5) 0 = c5 := hchar 5 (by decide)
      rw [hstate] at h3
      rw [hgap] at h5
      unfold Checkbox.parse
      split
      · next hmatch =>
        rw [hdrop] at hmatch
        cases hmatch
        rw [dif_pos ⟨h3, h5⟩]
        exact Option.some_ne_none _
      · next hother => exact absurd hdrop (hother _ _ _)
  · exact absurd rfl hfound

theorem findBox_eq (h : LineAt data start line) : findBox data start (start + line.length) =
    match Checkbox.parse line with
    | none => .nothing
    | some b => if b.payload = [] then .empty else .task (start + b.indent.length + 3) (start + b.front.length) := by
  cases hparse : Checkbox.parse line with
  | none =>
    by_contra hne
    exact parse_of_findBox h hne hparse
  | some b =>
    obtain rfl := Checkbox.parse_eq_some_iff.mp hparse
    exact findBox_of_box h

/-! ### The lines of a note -/

/-- The lines stand in the note one behind the other, with a byte between them. -/
def Laid (data : Bytes) : Nat → List Bytes → Prop
  | _, [] => True
  | start, line :: rest => LineAt data start line ∧ Laid data (start + line.length + 1) rest

theorem lineAt_takeWhile (data : Bytes) {start : Nat} (hstart : start < data.length) (p : UInt8 → Bool) :
    LineAt data start ((data.drop start).takeWhile p) := by
  have hlength := (List.takeWhile_prefix p (l := data.drop start)).length_le
  rw [List.length_drop] at hlength
  exact ⟨(List.prefix_iff_eq_take.mp (List.takeWhile_prefix p)).symm, by omega⟩

theorem laid_lines (data : Bytes) (start : Nat) : Laid data start (Text.lines 10 (data.drop start)) := by
  induction hleft : data.length - start using Nat.strongRecOn generalizing start with
  | ind left ih =>
    by_cases hstart : start < data.length
    · have hne : data.drop start ≠ [] := fun h => by
        have := congrArg List.length h
        rw [List.length_drop, List.length_nil] at this
        omega
      rw [Text.lines_cons hne, List.drop_drop]
      exact ⟨lineAt_takeWhile data hstart _, ih _ (by omega) _ rfl⟩
    · rw [List.drop_eq_nil_of_le (Nat.not_lt.mp hstart)]
      exact trivial

/-- The tasks that the loop finds in lines, with the numbers that it counts. -/
def foundTasks (path : String) (data : Bytes) : Nat → Nat → List Bytes → List Task
  | _, _, [] => []
  | number, start, line :: rest =>
    match findBox data start (start + line.length) with
    | .empty => foundTasks path data number (start + line.length + 1) rest
    | .nothing => foundTasks path data (if number ≠ 0xFFFF then number + 1 else number) (start + line.length + 1) rest
    | .task state payload =>
      taskOf path data number start (start + line.length) state payload ::
        foundTasks path data (if number ≠ 0xFFFF then number + 1 else number) (start + line.length + 1) rest

theorem scanLines_eq (path : String) (data : Bytes) {left position number : Nat} {tasks : List Task} (hleft : data.length - position ≤ left)
    (hroom : tasks.length ≤ taskCapacity) : scanLines path data left position number tasks =
      (tasks ++ foundTasks path data number position (Text.lines 10 (data.drop position))).take taskCapacity := by
  have hstop : ∀ {position number : Nat} {tasks : List Task}, tasks.length ≤ taskCapacity → data.length ≤ position →
      tasks = (tasks ++ foundTasks path data number position (Text.lines 10 (data.drop position))).take taskCapacity := by
    intro position number tasks hroom hend
    rw [List.drop_eq_nil_of_le hend, Text.lines, foundTasks, List.append_nil, List.take_of_length_le hroom]
  induction left generalizing position number tasks with
  | zero => exact hstop hroom (by omega)
  | succ left ih =>
    unfold scanLines
    dsimp only
    split
    · next hmore =>
      obtain ⟨hposition, hcount⟩ := hmore
      have hne : data.drop position ≠ [] := fun h => by
        have := congrArg List.length h
        rw [List.length_drop, List.length_nil] at this
        omega
      have hend : skipWhile (· ≠ lineFeed) data position data.length = position + ((data.drop position).takeWhile (· ≠ 10)).length := by
        unfold skipWhile slice
        rw [← List.length_drop, List.take_length]
        rfl
      have hfirst := lineAt_takeWhile data hposition (· ≠ 10)
      rw [hend, Text.lines_cons hne, foundTasks, List.drop_drop, ← Nat.add_assoc]
      generalize (data.drop position).takeWhile (· ≠ 10) = first at hfirst ⊢
      have hfits := hfirst.fits
      -- without a line feed the line is the last one
      have hnext : ∀ number, foundTasks path data number (if position + first.length < data.length then position + first.length + 1 else position + first.length)
          (Text.lines 10 (data.drop (if position + first.length < data.length then position + first.length + 1 else position + first.length))) =
            foundTasks path data number (position + first.length + 1) (Text.lines 10 (data.drop (position + first.length + 1))) := by
        intro number
        split
        · rfl
        · rw [List.drop_eq_nil_of_le (by omega), List.drop_eq_nil_of_le (by omega)]
          rfl
      have hless : data.length - (if position + first.length < data.length then position + first.length + 1 else position + first.length) ≤ left := by
        split <;> omega
      cases findBox data position (position + first.length) with
      | nothing =>
        dsimp only
        rw [ih hless hroom, hnext]
      | empty =>
        dsimp only
        rw [ih hless hroom, hnext]
      | task state payload =>
        dsimp only
        rw [ih hless (by rw [List.length_append]; exact hcount), hnext, List.append_assoc, List.singleton_append]
    · next hmore =>
      by_cases hposition : position < data.length
      · have hfull : tasks.length = taskCapacity := by omega
        rw [List.take_left' hfull]
      · exact hstop hroom (Nat.not_lt.mp hposition)

/-! ### Places -/

/-- What the index says of a task: its note, the number of its line, and the offsets. -/
structure Place where
  path : String
  number : Nat
  lineStart : Nat
  lineEnd : Nat
  state : Nat
  payload : Nat
deriving DecidableEq

def Task.place (task : Task) : Place :=
  ⟨task.sourcePath, task.lineNumber, task.lineStart, task.lineEnd, task.stateOffset, task.payloadOffset⟩

/-- The place of the task of a line, if the line has a checkbox with a payload. -/
def placeOf (path : String) (number start : Nat) (line : Bytes) : Option Place :=
  match Checkbox.parse line with
  | none => none
  | some b =>
    if b.payload = [] then none
    else some ⟨path, number, start, start + line.length, start + b.indent.length + 3, start + b.front.length⟩

def hasTask (line : Bytes) : Bool := (Checkbox.parse line).any fun b => b.payload ≠ []

/-- A checkbox without a payload. -/
def blankBox (line : Bytes) : Bool := (Checkbox.parse line).any fun b => b.payload = []

/-- The places of the tasks of lines, where a line adds `count` to the number of the next one. -/
def places (count : Bytes → Nat) (path : String) : Nat → Nat → List Bytes → List Place
  | _, _, [] => []
  | number, start, line :: rest => (placeOf path number start line).toList ++ places count path (number + count line) (start + line.length + 1) rest

/-- Every line is counted. -/
def everyLine (_ : Bytes) : Nat := 1

/-- A checkbox without a payload is not counted. -/
def scannedLine (line : Bytes) : Nat := if blankBox line then 0 else 1

theorem scannedLine_le (line : Bytes) : scannedLine line ≤ 1 := by
  unfold scannedLine
  split <;> omega

theorem placeOf_of_no_task {path : String} {number start : Nat} {line : Bytes} (h : hasTask line = false) : placeOf path number start line = none := by
  unfold hasTask at h
  unfold placeOf
  cases hparse : Checkbox.parse line with
  | none => rfl
  | some b =>
    rw [hparse] at h
    exact if_pos (by simpa using h)

theorem placeOf_of_task {line : Bytes} (h : hasTask line = true) : ∃ b : Checkbox, b.line = line ∧ b.payload ≠ [] ∧ ∀ path number start,
    placeOf path number start line = some ⟨path, number, start, start + line.length, start + b.indent.length + 3, start + b.front.length⟩ := by
  unfold hasTask at h
  cases hparse : Checkbox.parse line with
  | none =>
    rw [hparse] at h
    cases h
  | some b =>
    rw [hparse] at h
    have hpayload : b.payload ≠ [] := by simpa using h
    refine ⟨b, Checkbox.parse_eq_some_iff.mp hparse, hpayload, fun path number start => ?_⟩
    unfold placeOf
    rw [hparse]
    exact if_neg hpayload

theorem hasTask_of_blankBox {line : Bytes} (h : blankBox line = true) : hasTask line = false := by
  unfold blankBox at h
  unfold hasTask
  cases hparse : Checkbox.parse line with
  | none => rfl
  | some b =>
    rw [hparse] at h
    simpa using h

theorem toNat_u16 {n : Nat} (h : n ≤ 65535) : u16 n = n := Nat.mod_eq_of_lt (Nat.lt_succ_of_le h)

theorem map_place_foundTasks (path : String) {data : Bytes} (hdata : data.length ≤ 65535) {number start : Nat} {lines : List Bytes}
    (hlaid : Laid data start lines) (hnumber : number + lines.length ≤ 65535) :
    (foundTasks path data number start lines).map Task.place = places scannedLine path number start lines := by
  induction lines generalizing number start with
  | nil => rfl
  | cons line rest ih =>
    obtain ⟨hline, hrest⟩ := hlaid
    have hfits := hline.fits
    rw [List.length_cons] at hnumber
    have hnext : (if number ≠ 0xFFFF then number + 1 else number) = number + 1 := if_pos (by omega)
    rw [foundTasks, findBox_eq hline, places, hnext]
    unfold placeOf scannedLine blankBox
    cases hparse : Checkbox.parse line with
    | none => exact ih hrest (by omega)
    | some b =>
      obtain rfl := Checkbox.parse_eq_some_iff.mp hparse
      dsimp only
      by_cases hpayload : b.payload = []
      · rw [if_pos hpayload, if_pos hpayload]
        dsimp only
        rw [Option.any_some, decide_eq_true hpayload]
        exact ih hrest (by omega)
      · rw [if_neg hpayload, if_neg hpayload]
        dsimp only
        have hlength : b.line.length = b.front.length + b.payload.length := List.length_append
        have hfront := b.length_front
        have hplace : ∀ state payload, (taskOf path data number start (start + b.line.length) state payload).place =
            ⟨path, number, u16 start, u16 (start + b.line.length), u16 state, u16 payload⟩ := fun _ _ => rfl
        rw [Option.any_some, decide_eq_false hpayload, List.map_cons, ih hrest (by omega), hplace, toNat_u16 (by omega), toNat_u16 (by omega),
          toNat_u16 (by omega), toNat_u16 (by omega)]
        rfl

/-! ### Counting -/

/-- The same place with a number that is not larger. -/
def Below (p q : Place) : Prop := p.number ≤ q.number ∧ { p with number := q.number } = q

theorem placeOf_below (path : String) {m n : Nat} (h : m ≤ n) (start : Nat) (line : Bytes) :
    List.Forall₂ Below (placeOf path m start line).toList (placeOf path n start line).toList := by
  cases htask : hasTask line with
  | false =>
    rw [placeOf_of_no_task htask, placeOf_of_no_task htask]
    exact .nil
  | true =>
    obtain ⟨b, -, -, hplace⟩ := placeOf_of_task htask
    rw [hplace, hplace]
    exact .cons ⟨h, rfl⟩ .nil

theorem places_below (path : String) {m n : Nat} (h : m ≤ n) (start : Nat) (lines : List Bytes) :
    List.Forall₂ Below (places scannedLine path m start lines) (places everyLine path n start lines) := by
  induction lines generalizing m n start with
  | nil => exact .nil
  | cons line rest ih =>
    exact List.rel_append (placeOf_below path h start line) (ih (Nat.add_le_add h (scannedLine_le line)) _)

theorem eq_of_below {ps qs : List Place} (h : List.Forall₂ Below ps qs) (hperm : ps.Perm qs) : ps = qs := by
  have hsum : ∀ {ps qs : List Place}, List.Forall₂ Below ps qs → (ps.map Place.number).sum ≤ (qs.map Place.number).sum ∧
      ((ps.map Place.number).sum = (qs.map Place.number).sum → ps = qs) := by
    intro ps qs h
    induction h with
    | nil => exact ⟨Nat.le_refl _, fun _ => rfl⟩
    | cons hpq _ ih =>
      obtain ⟨hle, hsame⟩ := hpq
      rw [List.map_cons, List.map_cons, List.sum_cons, List.sum_cons]
      refine ⟨Nat.add_le_add hle ih.1, fun heq => ?_⟩
      have hnumber := Nat.le_antisymm hle (by have := ih.1; omega)
      rw [← hsame, ← hnumber, ih.2 (by omega)]
  exact (hsum h).2 (hperm.map Place.number).sum_eq

theorem places_eq_iff_of_lt (path : String) {m n : Nat} (h : m < n) (start : Nat) (lines : List Bytes) :
    places scannedLine path m start lines = places everyLine path n start lines ↔ ∀ line ∈ lines, hasTask line = false := by
  induction lines generalizing m n start with
  | nil => exact ⟨fun _ => nofun, fun _ => rfl⟩
  | cons line rest ih =>
    have hcount := scannedLine_le line
    rw [places, places, List.forall_mem_cons]
    cases htask : hasTask line with
    | false =>
      rw [placeOf_of_no_task htask, placeOf_of_no_task htask]
      exact (ih (show m + scannedLine line < n + everyLine line from by unfold everyLine; omega) _).trans ⟨fun hrest => ⟨rfl, hrest⟩, fun hall => hall.2⟩
    | true =>
      obtain ⟨b, -, -, hplace⟩ := placeOf_of_task htask
      rw [hplace, hplace]
      refine ⟨fun heq => ?_, fun hall => absurd hall.1 (by decide)⟩
      exact absurd (congrArg Place.number (List.cons.inj heq).1) (Nat.ne_of_lt h)

/-- No checkbox without a payload stands above a task. -/
def Counted (lines : List Bytes) : Prop :=
  ∀ above line below, lines = above ++ line :: below → hasTask line = true → ∀ other ∈ above, blankBox other = false

theorem counted_cons_blank {line : Bytes} (hblank : blankBox line = true) (rest : List Bytes) :
    Counted (line :: rest) ↔ ∀ other ∈ rest, hasTask other = false := by
  constructor
  · intro h other hother
    obtain ⟨above, below, hrest⟩ := List.append_of_mem hother
    by_contra htask
    have hnot := h (line :: above) other below (by rw [hrest]; rfl) (by simpa using htask) line List.mem_cons_self
    rw [hblank] at hnot
    cases hnot
  · intro h above other below hlines htask
    cases above with
    | nil => exact nofun
    | cons first above =>
      have hmem : other ∈ rest := by
        rw [(List.cons.inj hlines).2]
        exact List.mem_append_right above List.mem_cons_self
      rw [h other hmem] at htask
      cases htask

theorem counted_cons {line : Bytes} (hblank : blankBox line = false) (rest : List Bytes) : Counted (line :: rest) ↔ Counted rest := by
  constructor
  · intro h above other below hrest htask first hfirst
    exact h (line :: above) other below (by rw [hrest]; rfl) htask first (List.mem_cons_of_mem line hfirst)
  · intro h above other below hlines htask
    cases above with
    | nil => exact nofun
    | cons first above =>
      obtain ⟨rfl, hrest⟩ := List.cons.inj hlines
      exact List.forall_mem_cons.mpr ⟨hblank, h above other below hrest htask⟩

theorem places_eq_iff (path : String) (number start : Nat) (lines : List Bytes) :
    places scannedLine path number start lines = places everyLine path number start lines ↔ Counted lines := by
  induction lines generalizing number start with
  | nil => exact ⟨fun _ above line below h => absurd h (by simp), fun _ => rfl⟩
  | cons line rest ih =>
    rw [places, places]
    cases hblank : blankBox line with
    | true =>
      rw [counted_cons_blank hblank, placeOf_of_no_task (hasTask_of_blankBox hblank)]
      have hcount : scannedLine line = 0 := if_pos hblank
      rw [hcount]
      exact places_eq_iff_of_lt path (Nat.lt_succ_self number) _ rest
    | false =>
      have hcount : scannedLine line = everyLine line := if_neg (by rw [hblank]; exact Bool.false_ne_true)
      rw [counted_cons hblank, hcount, ← ih (number + everyLine line) (start + line.length + 1)]
      exact List.append_right_inj _

/-! ### The sort -/

theorem insertTask_perm (value : Task) (sorted : List Task) : (insertTask value sorted).Perm (value :: sorted) := by
  induction sorted with
  | nil => exact .refl _
  | cons last rest ih =>
    unfold insertTask
    split
    · exact (ih.cons last).trans (.swap value last rest)
    · exact .refl _

theorem sortTasks_perm (tasks : List Task) : (sortTasks tasks).Perm tasks := by
  have hfold : ∀ sorted, (tasks.foldl (fun sorted value => insertTask value sorted) sorted).Perm (sorted ++ tasks) := by
    induction tasks with
    | nil => exact fun sorted => by rw [List.append_nil]; exact .refl _
    | cons task rest ih =>
      intro sorted
      exact (ih _).trans (((insertTask_perm task sorted).append_right rest).trans List.perm_middle.symm)
  exact (List.reverse_perm _).trans (hfold [])

/-! ### The notes -/

/-- What the tasks rely on: the files as of the other applications, directories that are made beside them, and reads that fit their buffer. -/
structure NoteStorage.Faithful {σ : Type} (S : NoteStorage σ) : Prop where
  files : S.toStorage.Faithful
  read_made : ∀ disk directory path capacity, S.read (S.makeDirectory disk directory) path capacity = S.read disk path capacity
  length_read : ∀ disk path capacity data, S.read disk path capacity = some data → data.length ≤ capacity

section Notes
variable {σ : Type} (S : NoteStorage σ) (today : Option Date)

/-- The text of an entry, if it is a note that can be read. -/
def noteText (disk : σ) (note : BrowserEntry) : Option Bytes :=
  if note.isFile && (ascii ".md").isSuffixOf note.name then S.read disk note.path (noteBufferCapacity - 1) else none

def noteTasks (disk : σ) (note : BrowserEntry) : List Task :=
  match noteText S disk note with
  | none => []
  | some data => foundTasks note.path data 1 0 (Text.lines 10 data)

def notePlaces (count : Bytes → Nat) (disk : σ) (note : BrowserEntry) : List Place :=
  match noteText S disk note with
  | none => []
  | some data => places count note.path 1 0 (Text.lines 10 data)

theorem take_append_of_take {α : Type} (n : Nat) (a b : List α) : (a.take n ++ b).take n = (a ++ b).take n := by
  rw [List.take_append, List.take_append, List.take_take, Nat.min_self, List.length_take]
  congr 2
  omega

theorem scanNotes_eq (disk : σ) (notes : List BrowserEntry) {tasks : List Task} (hroom : tasks.length ≤ taskCapacity) :
    scanNotes S disk notes tasks = (tasks ++ notes.flatMap (noteTasks S disk)).take taskCapacity := by
  induction notes generalizing tasks with
  | nil =>
    rw [List.flatMap_nil, List.append_nil, List.take_of_length_le hroom]
    rfl
  | cons note rest ih =>
    rw [List.flatMap_cons]
    unfold scanNotes
    split
    · have hskip : noteText S disk note = none → scanNotes S disk rest tasks =
          (tasks ++ (noteTasks S disk note ++ rest.flatMap (noteTasks S disk))).take taskCapacity := by
        intro hnone
        have htasks : noteTasks S disk note = [] := by
          unfold noteTasks
          rw [hnone]
        rw [htasks, List.nil_append, ih hroom]
      split
      · next hother =>
        have hnot : (note.isFile && (ascii ".md").isSuffixOf note.name) = false := by
          rw [← Bool.not_and, Bool.not_eq_true'] at hother
          exact hother
        exact hskip (if_neg (by rw [hnot]; exact Bool.false_ne_true))
      · next hnote =>
        have hnote : (note.isFile && (ascii ".md").isSuffixOf note.name) = true := by
          rw [← Bool.not_and, Bool.not_eq_true', Bool.not_eq_false] at hnote
          exact hnote
        split
        · next hread => exact hskip ((if_pos hnote).trans hread)
        · next data hread =>
          have htasks : noteTasks S disk note = foundTasks note.path data 1 0 (Text.lines 10 data) := by
            unfold noteTasks noteText
            rw [if_pos hnote, hread]
          rw [scanLines_eq note.path data (Nat.sub_le _ 0) hroom, ih (List.length_take_le _ _), take_append_of_take, htasks, List.append_assoc]
          rfl
    · next hfull =>
      have hfull : tasks.length = taskCapacity := by omega
      rw [List.take_left' hfull]

variable {S} in
theorem noteText_length (hS : S.Faithful) {disk : σ} {note : BrowserEntry} {data : Bytes} (h : noteText S disk note = some data) :
    data.length ≤ 2047 := by
  unfold noteText at h
  split at h
  · exact hS.length_read _ _ _ _ h
  · cases h

variable {S} in
theorem map_place_noteTasks (hS : S.Faithful) (disk : σ) (note : BrowserEntry) :
    (noteTasks S disk note).map Task.place = notePlaces S scannedLine disk note := by
  unfold noteTasks notePlaces
  cases htext : noteText S disk note with
  | none => rfl
  | some data =>
    have hdata := noteText_length hS htext
    have hlines := @Text.length_lines_le _ _ 10 data
    exact map_place_foundTasks note.path (by omega) (laid_lines data 0) (by omega)

/-- The places of all tasks of the listed notes, with their true line numbers. -/
def truePlaces (b : Board σ) : List Place :=
  (notesReload S b).notes.flatMap (notePlaces S everyLine (notesReload S b).desk.disk)

def AllCounted (b : Board σ) : Prop :=
  ∀ note ∈ (notesReload S b).notes, ∀ data, noteText S (notesReload S b).desk.disk note = some data → Counted (Text.lines 10 data)

theorem rebuildVisible_tasks (b : Board σ) : (rebuildVisible today b).tasks = b.tasks ∧ (rebuildVisible today b).desk = b.desk := by
  unfold rebuildVisible
  dsimp only
  split <;> exact ⟨rfl, rfl⟩

theorem scan_tasks (b : Board σ) : (scan S today b).tasks = sortTasks (scanNotes S (notesReload S b).desk.disk (notesReload S b).notes []) :=
  (rebuildVisible_tasks today _).1

theorem scan_desk (b : Board σ) : (scan S today b).desk = (notesReload S b).desk := (rebuildVisible_tasks today _).2

theorem notePlaces_below (disk : σ) (note : BrowserEntry) :
    List.Forall₂ Below (notePlaces S scannedLine disk note) (notePlaces S everyLine disk note) := by
  unfold notePlaces
  cases noteText S disk note with
  | none => exact .nil
  | some data => exact places_below note.path (Nat.le_refl 1) 0 _

theorem notePlaces_eq_iff (disk : σ) (note : BrowserEntry) : notePlaces S scannedLine disk note = notePlaces S everyLine disk note ↔
    ∀ data, noteText S disk note = some data → Counted (Text.lines 10 data) := by
  unfold notePlaces
  cases noteText S disk note with
  | none => exact ⟨fun _ _ h => (nomatch h), fun _ => rfl⟩
  | some data =>
    refine (places_eq_iff note.path 1 0 _).trans ⟨fun h other hother => ?_, fun h => h data rfl⟩
    cases hother
    exact h

theorem flatMap_below (disk : σ) (notes : List BrowserEntry) :
    List.Forall₂ Below (notes.flatMap (notePlaces S scannedLine disk)) (notes.flatMap (notePlaces S everyLine disk)) := by
  induction notes with
  | nil => exact .nil
  | cons note rest ih =>
    rw [List.flatMap_cons, List.flatMap_cons]
    exact List.rel_append (notePlaces_below S disk note) ih

theorem flatMap_eq_iff (disk : σ) (notes : List BrowserEntry) :
    notes.flatMap (notePlaces S scannedLine disk) = notes.flatMap (notePlaces S everyLine disk) ↔
      ∀ note ∈ notes, ∀ data, noteText S disk note = some data → Counted (Text.lines 10 data) := by
  induction notes with
  | nil => exact ⟨fun _ => nofun, fun _ => rfl⟩
  | cons note rest ih =>
    rw [List.flatMap_cons, List.flatMap_cons, List.forall_mem_cons, ← ih, ← notePlaces_eq_iff]
    exact ⟨fun h => List.append_inj h (notePlaces_below S disk note).length_eq, fun ⟨hnote, hrest⟩ => by rw [hnote, hrest]⟩

variable {S} in
theorem scan_places_iff (hS : S.Faithful) (b : Board σ) (hcount : (truePlaces S b).length ≤ taskCapacity) :
    ((scan S today b).tasks.map Task.place).Perm (truePlaces S b) ↔ AllCounted S b := by
  have hbelow := flatMap_below S (notesReload S b).desk.disk (notesReload S b).notes
  have hplaces : ((notesReload S b).notes.flatMap (noteTasks S (notesReload S b).desk.disk)).map Task.place =
      (notesReload S b).notes.flatMap (notePlaces S scannedLine (notesReload S b).desk.disk) := by
    rw [List.map_flatMap]
    exact congrArg (fun f => List.flatMap f _) (funext fun note => map_place_noteTasks hS _ note)
  have hroom : ((notesReload S b).notes.flatMap (noteTasks S (notesReload S b).desk.disk)).length ≤ taskCapacity := by
    rw [← List.length_map (f := Task.place), hplaces, hbelow.length_eq]
    exact hcount
  have htasks : (scan S today b).tasks = sortTasks ((notesReload S b).notes.flatMap (noteTasks S (notesReload S b).desk.disk)) := by
    rw [scan_tasks, scanNotes_eq S _ _ (Nat.zero_le _), List.nil_append, List.take_of_length_le hroom]
  have hperm : ((scan S today b).tasks.map Task.place).Perm
      ((notesReload S b).notes.flatMap (notePlaces S scannedLine (notesReload S b).desk.disk)) := by
    rw [htasks, ← hplaces]
    exact (sortTasks_perm _).map Task.place
  refine Iff.trans ⟨fun h => eq_of_below hbelow (hperm.symm.trans h), fun h => ?_⟩ (flatMap_eq_iff S _ _)
  rw [h] at hperm
  exact hperm

/-! ### What a task records -/

theorem lineHash_eq (h : LineAt data start line) : lineHash data start (start + line.length) = lineHash line 0 line.length := by
  have hwhole : slice line 0 line.length = line := slice_of_length rfl
  unfold lineHash
  rw [if_neg (by omega), if_neg (by omega), Nat.add_sub_cancel_left, Nat.sub_zero, h.slice_eq, hwhole]

/-- The offsets, the state and the hash of a task are those of a line with a checkbox. -/
structure Recorded (task : Task) (box : Checkbox) : Prop where
  done : task.done = decide (box.state ≠ 32)
  lineEnd : task.lineEnd = task.lineStart + box.line.length
  state : task.stateOffset = task.lineStart + box.indent.length + 3
  payload : task.payloadOffset = task.lineStart + box.front.length
  hash : task.lineHash = lineHash box.line 0 box.line.length
  filled : box.payload ≠ []

theorem recorded_of_found {path : String} {data : Bytes} (hdata : data.length ≤ 65535) {number start : Nat} {lines : List Bytes}
    (hlaid : Laid data start lines) {task : Task} (h : task ∈ foundTasks path data number start lines) :
    ∃ box, Recorded task box ∧ task.sourcePath = path ∧ LineAt data task.lineStart box.line := by
  induction lines generalizing number start with
  | nil => cases h
  | cons line rest ih =>
    obtain ⟨hline, hrest⟩ := hlaid
    have hfits := hline.fits
    rw [foundTasks, findBox_eq hline] at h
    cases hparse : Checkbox.parse line with
    | none =>
      rw [hparse] at h
      exact ih hrest h
    | some box =>
      obtain rfl := Checkbox.parse_eq_some_iff.mp hparse
      rw [hparse] at h
      dsimp only at h
      by_cases hpayload : box.payload = []
      · rw [if_pos hpayload] at h
        exact ih hrest h
      · rw [if_neg hpayload] at h
        rcases List.mem_cons.mp h with rfl | h
        · have hlength : box.line.length = box.front.length + box.payload.length := List.length_append
          have hfront := box.length_front
          have hstart : u16 start = start := toNat_u16 (by omega)
          have hmark : data.getD (start + box.indent.length + 3) 0 = box.state := hline.box (k := 3) (by decide)
          refine ⟨box, ⟨?_, ?_, ?_, ?_, lineHash_eq hline, hpayload⟩, rfl, ?_⟩
          · show decide (data.getD (start + box.indent.length + 3) 0 ≠ 32) = decide (box.state ≠ 32)
            rw [hmark]
          · show u16 (start + box.line.length) = u16 start + box.line.length
            rw [hstart, toNat_u16 (by omega)]
          · show u16 (start + box.indent.length + 3) = u16 start + box.indent.length + 3
            rw [hstart, toNat_u16 (by omega)]
          · show u16 (start + box.front.length) = u16 start + box.front.length
            rw [hstart, toNat_u16 (by omega)]
          · show LineAt data (u16 start) box.line
            rw [hstart]
            exact hline
        · exact ih hrest h

variable {S} in
theorem recorded_of_scan (hS : S.Faithful) {b : Board σ} {task : Task} (h : task ∈ (scan S today b).tasks) :
    ∃ box, Recorded task box ∧ ∃ note ∈ (notesReload S b).notes, task.sourcePath = note.path ∧
      ∃ data, noteText S (notesReload S b).desk.disk note = some data ∧ LineAt data task.lineStart box.line := by
  rw [scan_tasks, (sortTasks_perm _).mem_iff, scanNotes_eq S _ _ (Nat.zero_le _), List.nil_append] at h
  obtain ⟨note, hnote, htask⟩ := List.mem_flatMap.mp (List.mem_of_mem_take h)
  unfold noteTasks at htask
  cases htext : noteText S (notesReload S b).desk.disk note with
  | none =>
    rw [htext] at htask
    cases htask
  | some data =>
    rw [htext] at htask
    have hdata := noteText_length hS htext
    obtain ⟨box, hrecorded, hpath, hline⟩ := recorded_of_found (by omega) (laid_lines data 0) htask
    exact ⟨box, hrecorded, note, hnote, hpath, data, htext, hline⟩

theorem Recorded.stillThere {task : Task} {box : Checkbox} (h : Recorded task box) {data : Bytes} (hline : LineAt data task.lineStart box.line) :
    stillThere task data = true := by
  have hlength : box.line.length = box.front.length + box.payload.length := List.length_append
  have hfront := box.length_front
  have hgap := List.length_pos_of_ne_nil box.gap_ne
  have hpayload := List.length_pos_of_ne_nil h.filled
  have hfits := hline.fits
  have hback : ∀ {j} k, k + j = 3 → task.lineStart + box.indent.length + 3 - j = task.lineStart + box.indent.length + k := by omega
  unfold Tasks.stillThere
  rw [Bool.not_eq_true', decide_eq_false_iff_not]
  simp only [not_or]
  rw [h.lineEnd, h.state, h.payload, h.hash, lineHash_eq hline]
  rw [hback 0 rfl, hback 1 rfl, hback 2 rfl]
  have hmark : data.getD (task.lineStart + box.indent.length + 3) 0 = box.state := hline.box (k := 3) (by decide)
  refine ⟨by omega, by omega, by omega, by omega, by omega, not_not_intro (hline.box (k := 0) (by decide)), not_not_intro (hline.box (k := 1) (by decide)),
    not_not_intro (hline.box (k := 2) (by decide)), not_not_intro (hline.box (k := 4) (by decide)), ?_, by omega, ?_, not_not_intro rfl⟩
  · rw [hline.box_boundary]
    exact nofun
  · rw [hmark]
    intro ⟨hspace, hx, hX⟩
    rcases box.state_mark with hstate | hstate | hstate
    · exact hspace hstate
    · exact hx hstate
    · exact hX hstate

/-- A task that passes the check carries its hash. -/
def Carries (disk : σ) (task : Task) : Prop :=
  ∃ data, S.read disk task.sourcePath (noteBufferCapacity - 1) = some data ∧ task.lineEnd ≤ data.length ∧
    lineHash data task.lineStart task.lineEnd = task.lineHash

theorem readValidated_none {disk : σ} {task : Task} (h : ¬Carries S disk task) : readValidated S disk task = none := by
  unfold readValidated
  split
  · rfl
  · next data hread =>
    refine if_neg fun hthere => h ⟨data, hread, ?_⟩
    unfold stillThere at hthere
    rw [Bool.not_eq_true', decide_eq_false_iff_not] at hthere
    simp only [not_or, not_not] at hthere
    obtain ⟨-, hend, -, -, -, -, -, -, -, -, -, -, hhash⟩ := hthere
    exact ⟨Nat.not_lt.mp hend, hhash⟩

/-! ### Changes of the note -/

/-- The write of a new text for a note, as it was reported: what the other files and the note have then. -/
structure Rewrites (disk : σ) (path : String) (text : Bytes) (r : Bool × Board σ) : Prop where
  written : r.1 = (S.write disk path text).1
  failed : r.1 = false → r.2.desk.disk = (S.write disk path text).2
  note : r.1 = true → ∀ capacity, text.length ≤ capacity → S.read r.2.desk.disk path capacity = some text
  others : r.1 = true → ∀ other, other ≠ path → ∀ capacity, S.read r.2.desk.disk other capacity = S.read disk other capacity

variable {S} in
theorem read_makeMissing (hS : S.Faithful) (disk : σ) (directories : List String) (path : String) (capacity : Nat) :
    S.read (makeMissing S.toStorage disk directories) path capacity = S.read disk path capacity := by
  unfold makeMissing
  induction directories generalizing disk with
  | nil => rfl
  | cons directory rest ih =>
    rw [List.foldl_cons, ih]
    split
    · rfl
    · exact hS.read_made _ _ _ _

variable {S} in
theorem read_scan (hS : S.Faithful) (b : Board σ) (path : String) (capacity : Nat) :
    S.read (scan S today b).desk.disk path capacity = S.read b.desk.disk path capacity := by
  have hensure : S.read (ensureStorage S.toStorage b.desk).2.disk path capacity = S.read b.desk.disk path capacity := by
    unfold ensureStorage
    split
    · rfl
    · exact read_makeMissing hS _ _ _ _
  rw [scan_desk]
  unfold notesReload
  split
  · next hresult => rw [hresult] at hensure; exact hensure
  · next hresult => rw [hresult] at hensure; exact hensure

variable {S} in
theorem store_rewrites (hS : S.Faithful) (path : String) (text : Bytes) {finish : Board σ → Board σ} (hfinish : ∀ b, (finish b).desk = b.desk)
    (b : Board σ) : Rewrites S b.desk.disk path text (store S today path text finish b) := by
  have hwritten : (writeFile S.toStorage path text b.desk).1 = (S.write b.desk.disk path text).1 := rfl
  have hdisk : (writeFile S.toStorage path text b.desk).2.disk = (S.write b.desk.disk path text).2 := rfl
  unfold store
  split
  · next desk hwrite =>
    rw [hwrite] at hwritten hdisk
    exact ⟨hwritten, fun _ => hdisk, nofun, nofun⟩
  · next desk hwrite =>
    rw [hwrite] at hwritten hdisk
    refine ⟨hwritten, nofun, fun _ capacity hcapacity => ?_, fun _ other hother capacity => ?_⟩
    · rw [read_scan today hS, hfinish, hdisk]
      exact hS.files.read_written _ _ _ _ hwritten.symm hcapacity
    · rw [read_scan today hS, hfinish, hdisk]
      exact hS.files.read_other _ _ _ _ _ hother

theorem noteBuffer_eq (data : Bytes) :
    noteBuffer data = data ++ List.replicate (noteBufferCapacity - data.length) 0 := by
  unfold noteBuffer overwrite
  rw [List.take_zero, List.nil_append, Nat.zero_add, List.drop_replicate]

theorem length_noteBuffer {data : Bytes} (h : data.length ≤ noteBufferCapacity - 1) : (noteBuffer data).length = noteBufferCapacity := by
  have hlength : data.length ≤ noteBufferCapacity := Nat.le_trans h (Nat.sub_le _ 1)
  rw [noteBuffer_eq, List.length_append, List.length_replicate, Nat.add_sub_cancel' hlength]

theorem memmove_note (above gone below : Bytes) (destination : Nat) :
    memmove (noteBuffer (above ++ gone ++ below)) destination (above ++ gone).length ((above ++ gone ++ below).length - (above ++ gone).length) =
      overwrite (noteBuffer (above ++ gone ++ below)) destination below := by
  have hslice : slice (noteBuffer (above ++ gone ++ below)) (above ++ gone).length ((above ++ gone ++ below).length - (above ++ gone).length) = below := by
    rw [noteBuffer_eq, @List.length_append _ (above ++ gone), Nat.add_sub_cancel_left]
    exact slice_field (above ++ gone) below rfl rfl (List.append_assoc _ _ _)
  unfold memmove
  rw [hslice]

theorem take_noteBuffer (above rest : Bytes) : (noteBuffer (above ++ rest)).take above.length = above := by
  rw [noteBuffer_eq, List.append_assoc, List.take_left]

theorem edited_note {above gone below input : Bytes} (h : (above ++ gone ++ below).length ≤ noteBufferCapacity - 1)
    (hinput : above.length + input.length ≤ noteBufferCapacity) :
    (overwrite (memmove (noteBuffer (above ++ gone ++ below)) (above.length + input.length) (above ++ gone).length
      ((above ++ gone ++ below).length - (above ++ gone).length)) above.length input).take (above ++ input ++ below).length =
        above ++ input ++ below := by
  have hbuffer := length_noteBuffer h
  have habove : above.length ≤ (noteBuffer (above ++ gone ++ below)).length := by omega
  have htake : (noteBuffer (above ++ gone ++ below)).take above.length = above := by
    rw [List.append_assoc]
    exact take_noteBuffer above _
  have hlength : (above ++ input ++ below).length = above.length + (input ++ below).length := by
    rw [List.append_assoc, List.length_append]
  rw [memmove_note, overwrite_overwrite _ _ _ (by rw [hbuffer]; exact hinput), hlength, take_overwrite habove, htake, List.append_assoc]

theorem shortened_note {above gone below : Bytes} (h : (above ++ gone ++ below).length ≤ noteBufferCapacity - 1) :
    (memmove (noteBuffer (above ++ gone ++ below)) above.length (above ++ gone).length
      ((above ++ gone ++ below).length - (above ++ gone).length)).take (above ++ below).length = above ++ below := by
  have hbuffer := length_noteBuffer h
  have habove : above.length ≤ (noteBuffer (above ++ gone ++ below)).length := by
    simp only [List.length_append] at h
    omega
  have htake : (noteBuffer (above ++ gone ++ below)).take above.length = above := by
    rw [List.append_assoc]
    exact take_noteBuffer above _
  rw [memmove_note, List.length_append, take_overwrite habove, htake]

/-- A checkbox with the other state. -/
def Checkbox.toggled (box : Checkbox) : Checkbox :=
  { box with
    state := if box.state = 32 then 120 else 32
    state_mark := by split <;> simp }

/-- What is left of the text behind a line that is taken out with its line feed. -/
def behindLine : Bytes → Bytes
  | 10 :: rest => rest
  | below => below

/-- What the changes make of the note of a task, whatever stands above and below its line, and that they do nothing where the line does not
    have the hash of the task. -/
structure Edits (task : Task) (box : Checkbox) : Prop where
  toggle : ∀ (b : Board σ) (above below : Bytes), selected b = some task →
    S.read b.desk.disk task.sourcePath (noteBufferCapacity - 1) = some (above ++ box.line ++ below) → above.length = task.lineStart →
    Rewrites S b.desk.disk task.sourcePath (above ++ box.toggled.line ++ below) (toggleSelected S today b)
  edit : ∀ (b : Board σ) (above below : Bytes), selected b = some task →
    S.read b.desk.disk task.sourcePath (noteBufferCapacity - 1) = some (above ++ box.line ++ below) → above.length = task.lineStart →
    if b.input ≠ [] ∧ b.input.length < textCapacity ∧ (above ++ box.front ++ b.input ++ below).length < noteBufferCapacity then
      Rewrites S b.desk.disk task.sourcePath (above ++ box.front ++ b.input ++ below) (editSelected S today b)
    else editSelected S today b = (false, b)
  delete : ∀ (b : Board σ) (above below : Bytes), selected b = some task →
    S.read b.desk.disk task.sourcePath (noteBufferCapacity - 1) = some (above ++ box.line ++ below) → above.length = task.lineStart →
    Rewrites S b.desk.disk task.sourcePath (above ++ behindLine below) (deleteSelected S today b)
  stale : ∀ b : Board σ, selected b = some task → ¬Carries S b.desk.disk task →
    toggleSelected S today b = (false, b) ∧ editSelected S today b = (false, b) ∧ deleteSelected S today b = (false, b)

theorem lineAt_append (above line below : Bytes) : LineAt (above ++ line ++ below) above.length line := by
  refine ⟨slice_field above line rfl rfl (List.append_assoc _ _ _), ?_⟩
  rw [List.length_append, List.length_append]
  omega

theorem Recorded.readValidated {task : Task} {box : Checkbox} (h : Recorded task box) {disk : σ} {above below : Bytes}
    (hread : S.read disk task.sourcePath (noteBufferCapacity - 1) = some (above ++ box.line ++ below)) (habove : above.length = task.lineStart) :
    readValidated S disk task = some (above ++ box.line ++ below) := by
  unfold Tasks.readValidated
  rw [hread]
  exact if_pos (h.stillThere (habove ▸ lineAt_append above box.line below))

variable {S} in
theorem toggle_rewrites (hS : S.Faithful) {task : Task} {box : Checkbox} (h : Recorded task box) {b : Board σ} {above below : Bytes}
    (hselected : selected b = some task) (hread : S.read b.desk.disk task.sourcePath (noteBufferCapacity - 1) = some (above ++ box.line ++ below))
    (habove : above.length = task.lineStart) :
    Rewrites S b.desk.disk task.sourcePath (above ++ box.toggled.line ++ below) (toggleSelected S today b) := by
  have hline : LineAt (above ++ box.line ++ below) task.lineStart box.line := habove ▸ lineAt_append above box.line below
  have hstate : (above ++ box.line ++ below).getD task.stateOffset 0 = box.state := by
    rw [h.state]
    exact hline.box (k := 3) (by decide)
  have hset : ∀ value, (above ++ box.line ++ below).set task.stateOffset value =
      above ++ (box.indent ++ 45 :: 32 :: 91 :: value :: 93 :: (box.gap ++ box.payload)) ++ below := by
    intro value
    have hfront : above ++ box.line ++ below = (above ++ box.indent ++ [45, 32, 91]) ++ box.state :: (93 :: (box.gap ++ box.payload) ++ below) := by
      rw [box.line_eq]
      simp only [List.append_assoc, List.cons_append, List.nil_append]
    have hoffset : task.stateOffset = (above ++ box.indent ++ [45, 32, 91]).length := by
      rw [h.state, ← habove, List.length_append, List.length_append]
      rfl
    rw [hfront, hoffset, List.set_append_right _ _ (Nat.le_refl _), Nat.sub_self, List.set_cons_zero]
    simp only [List.append_assoc, List.cons_append, List.nil_append]
  unfold toggleSelected
  rw [hselected]
  dsimp only
  rw [h.readValidated S hread habove]
  dsimp only
  rw [hstate, hset, box.toggled.line_eq]
  exact store_rewrites today hS _ _ (fun _ => rfl) b

variable {S} in
theorem edit_rewrites (hS : S.Faithful) {task : Task} {box : Checkbox} (h : Recorded task box) {b : Board σ} {above below : Bytes}
    (hselected : selected b = some task) (hread : S.read b.desk.disk task.sourcePath (noteBufferCapacity - 1) = some (above ++ box.line ++ below))
    (habove : above.length = task.lineStart) :
    if b.input ≠ [] ∧ b.input.length < textCapacity ∧ (above ++ box.front ++ b.input ++ below).length < noteBufferCapacity then
      Rewrites S b.desk.disk task.sourcePath (above ++ box.front ++ b.input ++ below) (editSelected S today b)
    else editSelected S today b = (false, b) := by
  have hlength : box.line.length = box.front.length + box.payload.length := List.length_append
  have hold : task.lineEnd - task.payloadOffset = box.payload.length := by
    rw [h.lineEnd, h.payload]
    omega
  have hsize : (above ++ box.line ++ below).length - box.payload.length + b.input.length = (above ++ box.front ++ b.input ++ below).length := by
    simp only [List.length_append]
    omega
  unfold editSelected
  rw [hselected]
  dsimp only
  rw [h.readValidated S hread habove]
  dsimp only
  rw [hold, hsize]
  by_cases hinput : b.input = []
  · rw [if_neg fun hall => hall.1 hinput, if_pos (List.length_eq_zero_iff.mpr hinput)]
  · rw [if_neg fun hzero => hinput (List.length_eq_zero_iff.mp hzero)]
    by_cases hroom : b.input.length < textCapacity ∧ (above ++ box.front ++ b.input ++ below).length < noteBufferCapacity
    · rw [if_pos ⟨hinput, hroom⟩, if_neg (by omega)]
      have hnote : above ++ box.line ++ below = above ++ box.front ++ box.payload ++ below := by
        unfold Checkbox.line
        rw [List.append_assoc above box.front]
      have hend : task.lineEnd = (above ++ box.front ++ box.payload).length := by
        rw [h.lineEnd, ← habove, hlength, List.length_append, List.length_append]
        omega
      have hpayload : task.payloadOffset = (above ++ box.front).length := by
        rw [h.payload, ← habove, List.length_append]
      have hfits : (above ++ box.front).length + b.input.length ≤ noteBufferCapacity := by
        have hfits := hroom.2
        simp only [List.length_append] at hfits ⊢
        omega
      have hdata := hS.length_read _ _ _ _ hread
      rw [hnote] at hdata ⊢
      rw [hend, hpayload, edited_note hdata hfits]
      have hfinish : ∀ b : Board σ, { b with input := [], editing := false }.desk = b.desk := fun _ => rfl
      exact store_rewrites today hS _ _ hfinish b
    · rw [if_neg fun hall => hroom hall.2, if_pos (by omega)]

variable {S} in
theorem delete_rewrites (hS : S.Faithful) {task : Task} {box : Checkbox} (h : Recorded task box) {b : Board σ} {above below : Bytes}
    (hselected : selected b = some task) (hread : S.read b.desk.disk task.sourcePath (noteBufferCapacity - 1) = some (above ++ box.line ++ below))
    (habove : above.length = task.lineStart) :
    Rewrites S b.desk.disk task.sourcePath (above ++ behindLine below) (deleteSelected S today b) := by
  have hdata := hS.length_read _ _ _ _ hread
  have hline : task.lineEnd = (above ++ box.line).length := by
    rw [h.lineEnd, ← habove, List.length_append]
  have hnext : (above ++ box.line ++ below).getD task.lineEnd 0 = below.getD 0 0 := by
    rw [hline, List.getD_eq_getElem?_getD, List.getElem?_append_right (Nat.le_refl _), Nat.sub_self, List.getD_eq_getElem?_getD]
  have hmore : task.lineEnd < (above ++ box.line ++ below).length ↔ below ≠ [] := by
    rw [hline, @List.length_append _ _ below, Nat.lt_add_right_iff_pos, List.length_pos_iff]
  unfold deleteSelected
  rw [hselected]
  dsimp only
  rw [h.readValidated S hread habove]
  dsimp only
  rw [hnext, ← habove]
  have hcut : ∀ gone rest : Bytes, above ++ box.line ++ below = above ++ gone ++ rest →
      Rewrites S b.desk.disk task.sourcePath (above ++ rest) (store S today task.sourcePath
        ((memmove (noteBuffer (above ++ box.line ++ below)) above.length (above ++ gone).length
          ((above ++ box.line ++ below).length - (above ++ gone).length)).take
            ((above ++ box.line ++ below).length - ((above ++ gone).length - above.length))) id b) := by
    intro gone rest hnote
    have hleft : (above ++ gone ++ rest).length - ((above ++ gone).length - above.length) = (above ++ rest).length := by
      simp only [List.length_append]
      omega
    rw [hnote] at hdata ⊢
    rw [hleft, shortened_note hdata]
    exact store_rewrites today hS _ _ (fun _ => rfl) b
  by_cases hfeed : below ≠ [] ∧ below.getD 0 0 = lineFeed
  · obtain ⟨hne, hfirst⟩ := hfeed
    obtain ⟨c, rest, rfl⟩ := List.exists_cons_of_ne_nil hne
    obtain rfl : c = 10 := hfirst
    rw [if_pos ⟨hmore.mpr hne, rfl⟩]
    have hremove : task.lineEnd + 1 = (above ++ (box.line ++ [10])).length := by
      rw [hline, ← List.append_assoc, @List.length_append _ _ [10]]
      rfl
    rw [hremove]
    exact hcut _ rest (by simp only [List.append_assoc, List.cons_append, List.nil_append])
  · rw [if_neg fun hall => hfeed ⟨hmore.mp hall.1, hall.2⟩, hline]
    have hbehind : behindLine below = below := by
      unfold behindLine
      split
      · exact absurd ⟨List.cons_ne_nil _ _, rfl⟩ hfeed
      · rfl
    rw [hbehind]
    exact hcut _ below rfl

variable {S} in
theorem edits_of_recorded (hS : S.Faithful) {task : Task} {box : Checkbox} (h : Recorded task box) : Edits S today task box where
  toggle _ _ _ hselected hread habove := toggle_rewrites today hS h hselected hread habove
  edit _ _ _ hselected hread habove := edit_rewrites today hS h hselected hread habove
  delete _ _ _ hselected hread habove := delete_rewrites today hS h hselected hread habove
  stale b hselected hstale := by
    unfold toggleSelected editSelected deleteSelected
    rw [hselected]
    dsimp only
    rw [readValidated_none S hstale]
    exact ⟨rfl, ite_self _, rfl⟩

/-- The index of the tasks is right: it has the true places, and its tasks change what they should. -/
structure Indexes (b : Board σ) : Prop where
  places : ((scan S today b).tasks.map Task.place).Perm (truePlaces S b)
  lines : ∀ task ∈ (scan S today b).tasks, ∃ box, Recorded task box ∧ Edits S today task box ∧
    ∃ note ∈ (notesReload S b).notes, task.sourcePath = note.path ∧
      ∃ data, noteText S (notesReload S b).desk.disk note = some data ∧ LineAt data task.lineStart box.line

variable {S} in
/-- For notes within the capacities, the index is right exactly if no checkbox without a payload stands above a task of its note. -/
theorem tasks_indexed_iff (hS : S.Faithful) (b : Board σ) (hcount : (truePlaces S b).length ≤ taskCapacity) :
    Indexes S today b ↔ AllCounted S b := by
  refine ⟨fun h => (scan_places_iff today hS b hcount).mp h.places, fun h => ⟨(scan_places_iff today hS b hcount).mpr h, fun task htask => ?_⟩⟩
  obtain ⟨box, hrecorded, hnote⟩ := recorded_of_scan today hS htask
  exact ⟨box, hrecorded, edits_of_recorded today hS hrecorded, hnote⟩

end Notes

/-- A storage that keeps each file, and lists one note. -/
def cabinet : NoteStorage (String → Option Bytes) where
  directoryExists _ _ := true
  makeDirectory disk _ := disk
  write disk path data := (true, fun path' => if path' = path then some data else disk path')
  read disk path capacity := (disk path).filter fun data => data.length ≤ capacity
  list _ _ _ := [⟨ascii "a.md", "/notes/a.md", true⟩]

theorem cabinet_faithful : cabinet.Faithful where
  files.read_written disk path data capacity _ hcapacity := by simp [cabinet, hcapacity]
  files.read_other disk path path' data capacity hne := by simp [cabinet, hne]
  read_made _ _ _ _ := rfl
  length_read disk path capacity data h := by simpa using (Option.filter_eq_some_iff.mp h).2

/-- The board before the first scan, over one note. -/
def boardOf (text : Bytes) : Board (String → Option Bytes) where
  desk := ⟨fun path => if path = "/notes/a.md" then some text else none, false, false⟩
  notes := []
  tasks := []
  visible := []
  focus := 0
  scroll := 0
  filter := .pending
  input := []
  adding := false
  editing := false

theorem allCounted_cabinet {text : Bytes} (h : text.length ≤ 2047) : AllCounted cabinet (boardOf text) ↔ Counted (Text.lines 10 text) := by
  have hread : noteText cabinet (notesReload cabinet (boardOf text)).desk.disk ⟨ascii "a.md", "/notes/a.md", true⟩ = some text := by
    unfold noteText
    rw [if_pos (by decide +kernel)]
    show (some text).filter (fun data => data.length ≤ 2047) = some text
    exact Option.filter_some_pos (decide_eq_true h)
  refine List.forall_mem_singleton.trans ⟨fun hall => hall text hread, fun hcounted data hdata => ?_⟩
  rw [hread] at hdata
  cases hdata
  exact hcounted

theorem tasks_indexed_sample : Indexes cabinet none (boardOf (ascii "- [ ] a\n\n  - [x] b\n- [ ] \n")) := by
  refine (tasks_indexed_iff none cabinet_faithful _ (by decide +kernel)).mpr ((allCounted_cabinet (by decide +kernel)).mpr ?_)
  exact (places_eq_iff "" 1 0 _).mp (by decide +kernel)

/-- The task below an empty checkbox has the number of that line. -/
theorem tasks_not_indexed : ¬∀ (S : NoteStorage (String → Option Bytes)) (b : Board (String → Option Bytes)), S.Faithful →
    (truePlaces S b).length ≤ taskCapacity → Indexes S none b := by
  intro h
  have hcount : (truePlaces cabinet (boardOf (ascii "- [ ] \n- [ ] a\n"))).length ≤ taskCapacity := by decide +kernel
  have hcounted := (scan_places_iff none cabinet_faithful _ hcount).mp (h cabinet _ cabinet_faithful hcount).places
  rw [allCounted_cabinet (by decide +kernel), ← places_eq_iff "" 1 0] at hcounted
  exact absurd hcounted (by decide +kernel)

end ZenovOS.Productivity.Tasks
