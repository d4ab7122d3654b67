import ZenovOS.Lib.Timeline
import ZenovOS.Productivity.Notes

/-! # Undo and redo in the notes editor

A history holds edits, not texts. Every record on a stack is tied to the texts before and after its edit, and the stacks are the kept part of
the timeline of all edits: whatever was edited, moved, undone and redone, the record on top applies to the text it meets. -/

namespace ZenovOS.Productivity.Notes

open Bytes

/-! ### The text in its array -/

/-- The array holds a text and a NUL behind it. -/
structure Editor.Holds (s : Editor) (text : Bytes) : Prop where
  array : s.text.length = noteBufferCapacity
  size : s.size = text.length
  terminated : ∃ rest, s.text = text ++ 0 :: rest

/-- The text written so far. -/
def Editor.written (s : Editor) : Bytes := s.text.take s.size

section
variable {s : Editor} {text : Bytes}

theorem Editor.Holds.lt (h : s.Holds text) : text.length < noteBufferCapacity := by
  obtain ⟨rest, hrest⟩ := h.terminated
  rw [← h.array, hrest]
  simp

theorem Editor.Holds.written_eq (h : s.Holds text) : s.written = text := by
  obtain ⟨rest, hrest⟩ := h.terminated
  rw [Editor.written, h.size, hrest, List.take_left]

theorem Editor.Holds.nul (h : s.Holds text) : s.text[s.size]? = some 0 := by
  obtain ⟨rest, hrest⟩ := h.terminated
  rw [h.size, hrest, List.getElem?_append_right (le_refl _), Nat.sub_self]
  rfl

end

/-- `longer` is `shorter` with the bytes put in at a position. -/
def Inserts (position : Nat) (bytes shorter longer : Bytes) : Prop :=
  ∃ left right, left.length = position ∧ shorter = left ++ right ∧ longer = left ++ (bytes ++ right)

theorem terminated_overwrite (left tail array : Bytes) {text : Bytes} {off n : Nat} (hoff : left.length = off) (harray : array.take off = left)
    (htext : text = left ++ tail) (hn : n = text.length) (hfits : text.length < array.length) :
    ((overwrite array off (tail ++ [0])).set n 0).length = array.length ∧
      ∃ rest, (overwrite array off (tail ++ [0])).set n 0 = text ++ 0 :: rest := by
  subst hoff htext hn
  have hover : overwrite array left.length (tail ++ [0]) =
      (left ++ tail) ++ 0 :: array.drop (left.length + (tail ++ [0]).length) := by
    simp [overwrite, harray]
  refine ⟨?_, array.drop (left.length + (tail ++ [0]).length), ?_⟩
  · rw [List.length_set, length_overwrite]
    simp only [List.length_append, List.length_singleton] at hfits ⊢
    omega
  · rw [hover, List.set_append_right _ _ (le_refl _), Nat.sub_self, List.set_cons_zero]

section
variable {s : Editor} {position count : Nat} {bytes shorter longer : Bytes}

theorem applyInsert_eq (h : Inserts position (bytes.take count) shorter longer) (hs : s.Holds shorter) (hpos : 0 < count)
    (hwidth : count ≤ tabWidth) (hbytes : count ≤ bytes.length) (hfits : longer.length < noteBufferCapacity) :
    ∃ text, applyInsert position bytes count s = some { s with text, size := longer.length } ∧
      { s with text, size := longer.length : Editor }.Holds longer := by
  obtain ⟨left, right, rfl, rfl, rfl⟩ := h
  obtain ⟨rest, hrest⟩ := hs.terminated
  have hcount : (bytes.take count).length = count := List.length_take_of_le hbytes
  have harray := hs.array
  have hsize := hs.size
  have hlt := hs.lt
  simp only [List.length_append, hcount] at hsize hfits hlt
  -- The rest of the text with its NUL moves up, and the bytes go where it was.
  have hmoved : slice s.text left.length (s.size - left.length + 1) = right ++ [0] := by
    refine slice_field left (right ++ [0]) rfl ?_ (?_ : _ = left ++ ((right ++ [0]) ++ rest))
    · simp [hsize]
    · simp [hrest]
  have htext : overwrite (memmove s.text (left.length + count) left.length (s.size - left.length + 1)) left.length (bytes.take count) =
      overwrite s.text left.length ((bytes.take count ++ right) ++ [0]) := by
    have hgap := overwrite_overwrite s.text (bytes.take count) (right ++ [0])
      (show left.length + (bytes.take count).length ≤ s.text.length by omega)
    rw [hcount] at hgap
    rw [memmove, hmoved, hgap, List.append_assoc]
  have hlength : (left ++ (bytes.take count ++ right)).length = s.size + count := by
    simp only [List.length_append, hcount]
    omega
  obtain ⟨hkept, hterm⟩ := terminated_overwrite left (bytes.take count ++ right) s.text rfl
    (by rw [hrest, List.append_assoc, List.take_left]) rfl hlength.symm (by rw [hlength]; omega)
  refine ⟨_, ?_, hkept.trans harray, rfl, hterm⟩
  rw [applyInsert, if_neg (by omega)]
  dsimp only
  rw [htext, hlength]

theorem bytesMatch_of_inserts (h : Inserts position (bytes.take count) shorter longer) (hs : s.Holds longer) (hpos : 0 < count)
    (hbytes : count ≤ bytes.length) : bytesMatch position bytes count s = true := by
  obtain ⟨left, right, rfl, rfl, rfl⟩ := h
  obtain ⟨rest, hrest⟩ := hs.terminated
  have hcount : (bytes.take count).length = count := List.length_take_of_le hbytes
  have hsize := hs.size
  simp only [List.length_append, hcount] at hsize
  rw [bytesMatch, if_neg (by omega), List.all_eq_true]
  intro index hindex
  have hlt := List.mem_range.mp hindex
  rw [hrest, List.append_assoc, List.append_assoc]
  simp only [List.getD_eq_getElem?_getD, beq_iff_eq]
  rw [List.getElem?_append_right (by omega), Nat.add_sub_cancel_left, List.getElem?_append_left (by omega), List.getElem?_take_of_lt hlt]

theorem applyErase_eq (h : Inserts position (bytes.take count) shorter longer) (hs : s.Holds longer) (hpos : 0 < count)
    (hwidth : count ≤ tabWidth) (hbytes : count ≤ bytes.length) :
    ∃ text, applyErase position bytes count s = some { s with text, size := shorter.length } ∧
      { s with text, size := shorter.length : Editor }.Holds shorter := by
  have hmatch := bytesMatch_of_inserts h hs hpos hbytes
  obtain ⟨left, right, rfl, rfl, rfl⟩ := h
  obtain ⟨rest, hrest⟩ := hs.terminated
  have hcount : (bytes.take count).length = count := List.length_take_of_le hbytes
  have harray := hs.array
  have hsize := hs.size
  have hlt := hs.lt
  simp only [List.length_append, hcount] at hsize hlt
  have hmoved : slice s.text (left.length + count) (s.size - left.length - count + 1) = right ++ [0] := by
    refine slice_field (left ++ bytes.take count) (right ++ [0]) (by simp [hcount]) ?_
      (?_ : _ = (left ++ bytes.take count) ++ ((right ++ [0]) ++ rest))
    · simp only [List.length_append, List.length_singleton]
      omega
    · simp [hrest]
  obtain ⟨hkept, hterm⟩ := terminated_overwrite left right s.text (n := s.size - count) rfl
    (by rw [hrest, List.append_assoc, List.take_left]) rfl (by simp only [List.length_append]; omega)
    (by simp only [List.length_append]; omega)
  refine ⟨_, ?_, hkept.trans harray, rfl, hterm⟩
  rw [applyErase, if_neg (by omega), hmatch, if_neg (by simp)]
  dsimp only
  rw [memmove, hmoved, show s.size - count = (left ++ right).length by simp only [List.length_append]; omega]

end

/-! ### Edits and their records -/

/-- What an undo restores. -/
structure Snapshot where
  text : Bytes
  cursor : Nat
  dirty : Bool

def Editor.snapshot (s : Editor) : Snapshot := ⟨s.written, s.cursor, s.dirty⟩

/-- What no move of the cursor changes. -/
def Snapshot.document (x : Snapshot) : Bytes × Bool := (x.text, x.dirty)

theorem snapshot_of_document {x y : Snapshot} (h : x.document = y.document) : x = { y with cursor := x.cursor } := by
  obtain ⟨text, cursor, dirty⟩ := x
  obtain ⟨htext, hdirty⟩ := Prod.mk.inj h
  rw [← htext, ← hdirty]

/-- A text that fits, and a cursor in it. -/
structure Snapshot.Fits (x : Snapshot) : Prop where
  text : x.text.length < noteBufferCapacity
  cursor : x.cursor ≤ x.text.length

/-- The record of an edit: its bytes, put in one way and taken out the other way. -/
structure Records (edit : Edit) (e : Edited Snapshot) : Prop where
  count_pos : 0 < edit.count
  count_le : edit.count ≤ tabWidth
  bytes : edit.count ≤ edit.bytes.length
  cursorBefore : edit.cursorBefore = e.before.cursor
  cursorAfter : edit.cursorAfter = e.after.cursor
  dirtyBefore : edit.dirtyBefore = e.before.dirty
  dirtyAfter : edit.dirtyAfter = e.after.dirty
  before : e.before.Fits
  after : e.after.Fits
  text : match edit.kind with
    | .insert => Inserts edit.position (edit.bytes.take edit.count) e.before.text e.after.text
    | .erase => Inserts edit.position (edit.bytes.take edit.count) e.after.text e.before.text

theorem u16_of_lt {n : Nat} (h : n < noteBufferCapacity) : u16 n = n :=
  Nat.mod_eq_of_lt (h.trans (by decide))

theorem Editor.Holds.fits {s : Editor} {text : Bytes} (h : s.Holds text) (hcursor : s.cursor ≤ text.length) : s.snapshot.Fits := by
  rw [← h.written_eq] at hcursor
  exact ⟨(congrArg List.length h.written_eq).trans_lt h.lt, hcursor⟩

/-! ### One step -/

section
variable {s : Editor} {text : Bytes} {undo redo : List Edit} {cursor : Nat} {dirty : Bool}

theorem settle_holds (h : s.Holds text) : (settle undo redo cursor dirty s).Holds text :=
  ⟨h.array, h.size, h.terminated⟩

theorem settle_snapshot (h : s.Holds text) (hcursor : cursor ≤ text.length) :
    (settle undo redo cursor dirty s).snapshot = ⟨text, cursor, dirty⟩ := by
  have hkept : (settle undo redo cursor dirty s).cursor = cursor := if_pos (hcursor.trans_eq h.size.symm)
  rw [Editor.snapshot, (settle_holds h).written_eq, hkept]
  rfl

end

section
variable {s s' : Editor} {edit : Edit} {e : Edited Snapshot}

theorem Records.reapply_eq (h : Records edit e) (hs : s.Holds e.before.text) :
    ∃ text, reapply edit s = some { s with text, size := e.after.text.length } ∧
      { s with text, size := e.after.text.length : Editor }.Holds e.after.text := by
  have htext := h.text
  unfold reapply
  cases hkind : edit.kind with
  | insert =>
    rw [hkind] at htext
    exact applyInsert_eq htext hs h.count_pos h.count_le h.bytes h.after.text
  | erase =>
    rw [hkind] at htext
    exact applyErase_eq htext hs h.count_pos h.count_le h.bytes

theorem Records.revert_eq (h : Records edit e) (hs : s.Holds e.after.text) :
    ∃ text, revert edit s = some { s with text, size := e.before.text.length } ∧
      { s with text, size := e.before.text.length : Editor }.Holds e.before.text := by
  have htext := h.text
  unfold revert
  cases hkind : edit.kind with
  | insert =>
    rw [hkind] at htext
    exact applyErase_eq htext hs h.count_pos h.count_le h.bytes
  | erase =>
    rw [hkind] at htext
    exact applyInsert_eq htext hs h.count_pos h.count_le h.bytes h.before.text

theorem undoOnce_eq (htop : s.undo.getLast? = some edit) (h : Records edit e) (hs : s.Holds e.after.text) :
    ∃ s', undoOnce s = some s' ∧ s'.Holds e.before.text ∧ s'.snapshot = e.before ∧ s'.undo = s.undo.dropLast ∧
      s'.redo = historyPush s.redo edit := by
  obtain ⟨text, heq, hholds⟩ := h.revert_eq hs
  refine ⟨settle s.undo.dropLast (historyPush s.redo edit) edit.cursorBefore edit.dirtyBefore _, ?_, settle_holds hholds, ?_, rfl, rfl⟩
  · simp [undoOnce, htop, heq]
  · rw [settle_snapshot hholds (h.cursorBefore.trans_le h.before.cursor), h.cursorBefore, h.dirtyBefore]

theorem redoOnce_eq (htop : s.redo.getLast? = some edit) (h : Records edit e) (hs : s.Holds e.before.text) :
    ∃ s', redoOnce s = some s' ∧ s'.Holds e.after.text ∧ s'.snapshot = e.after ∧ s'.undo = historyPush s.undo edit ∧
      s'.redo = s.redo.dropLast := by
  obtain ⟨text, heq, hholds⟩ := h.reapply_eq hs
  refine ⟨settle (historyPush s.undo edit) s.redo.dropLast edit.cursorAfter edit.dirtyAfter _, ?_, settle_holds hholds, ?_, rfl, rfl⟩
  · simp [redoOnce, htop, heq]
  · rw [settle_snapshot hholds (h.cursorAfter.trans_le h.after.cursor), h.cursorAfter, h.dirtyAfter]

/-- What an edit does: it is recorded on top of the undo stack, and nothing can be redone. -/
structure Recorded (s s' : Editor) (n : Nat) : Prop where
  holds : ∃ text, s'.Holds text
  pushed : ∃ edit, Records edit ⟨n, s.snapshot, s'.snapshot⟩ ∧ s'.undo = historyPush s.undo edit
  redo : s'.redo = []

theorem recorded_of_apply {applied : Editor} {text : Bytes} {n : Nat} (hs : applied.Holds text) (hcursor : edit.cursorAfter ≤ text.length)
    (hundo : applied.undo = s.undo) (hr : Records edit ⟨n, s.snapshot, ⟨text, edit.cursorAfter, edit.dirtyAfter⟩⟩) :
    Recorded s (finishEdit edit applied) n := by
  refine ⟨⟨text, settle_holds hs⟩, ⟨edit, ?_, ?_⟩, rfl⟩
  · rwa [finishEdit, settle_snapshot hs hcursor]
  · rw [← hundo]
    rfl

theorem insertBytes_spec (bytes : Bytes) {text : Bytes} {n : Nat} (hs : s.Holds text) (hlen : bytes.length ≤ tabWidth)
    (h : insertBytes bytes bytes.length s = some s') : Recorded s s' n := by
  unfold insertBytes at h
  split at h
  · cases h
  rename_i hguard
  have hsize := hs.size
  have hcount : 0 < bytes.length := by omega
  have hcursor : s.cursor ≤ text.length := by omega
  have hfits : text.length + bytes.length < noteBufferCapacity := by omega
  -- The bytes of the record are the first of its array.
  have hkept : (overwrite (List.replicate tabWidth 0) 0 (bytes.take bytes.length)).take bytes.length = bytes := by
    simp [overwrite]
  have hroom : (overwrite (List.replicate tabWidth 0) 0 (bytes.take bytes.length)).length = tabWidth := by
    rw [length_overwrite] <;> simp [hlen]
  obtain ⟨longer, hins, hlonger⟩ : ∃ longer, Inserts s.cursor bytes text longer ∧ longer.length = text.length + bytes.length := by
    refine ⟨_, ⟨text.take s.cursor, text.drop s.cursor, List.length_take_of_le hcursor, (List.take_append_drop ..).symm, rfl⟩, ?_⟩
    simp only [List.length_append, List.length_take_of_le hcursor, List.length_drop]
    omega
  have hput := hins
  rw [← hkept] at hput
  obtain ⟨array, happly, hholds⟩ := applyInsert_eq hput hs hcount hlen (hlen.trans_eq hroom.symm) (hlonger.trans_lt hfits)
  have hafter : u16 (s.cursor + bytes.length) = s.cursor + bytes.length := u16_of_lt (by omega)
  simp only [happly, Option.bind_eq_bind, Option.bind_some, Option.some.injEq] at h
  subst h
  refine recorded_of_apply hholds ?_ rfl ?_
  · simp only [hafter, hlonger]
    omega
  · refine ⟨hcount, hlen, hlen.trans_eq hroom.symm, rfl, rfl, rfl, rfl, ?_, ?_, ?_⟩
    · exact hs.fits hcursor
    · refine ⟨hlonger.trans_lt hfits, ?_⟩
      simp only [hafter, hlonger]
      omega
    · simp only [hkept, Editor.snapshot, hs.written_eq]
      exact hins

theorem eraseByte_spec {text : Bytes} {n position after : Nat} (hs : s.Holds text) (hcursor : s.cursor ≤ text.length)
    (hpos : position < text.length) (hafter : after ≤ position) (h : eraseByte position after s = some s') : Recorded s s' n := by
  have hbyte : s.text.getD position 0 = text[position] := by
    obtain ⟨rest, hrest⟩ := hs.terminated
    rw [hrest, List.getD_eq_getElem?_getD, List.getElem?_append_left hpos, List.getElem?_eq_getElem hpos, Option.getD_some]
  have hins : Inserts position [text[position]] (text.take position ++ text.drop (position + 1)) text := by
    refine ⟨text.take position, text.drop (position + 1), List.length_take_of_le hpos.le, rfl, ?_⟩
    rw [List.singleton_append, List.getElem_cons_drop, List.take_append_drop]
  have hshorter : (text.take position ++ text.drop (position + 1)).length = text.length - 1 := by
    simp only [List.length_append, List.length_take_of_le hpos.le, List.length_drop]
    omega
  have hlt := hs.lt
  have hwidth : 1 ≤ tabWidth := by decide
  have hfirst : [text[position]] = [text[position], 0, 0, 0].take 1 := rfl
  obtain ⟨array, happly, hholds⟩ := applyErase_eq (hfirst ▸ hins) hs Nat.one_pos hwidth (by simp)
  simp only [eraseByte, hbyte, happly, Option.bind_eq_bind, Option.bind_some, Option.some.injEq] at h
  subst h
  refine recorded_of_apply hholds ?_ rfl ?_
  · simp only [hshorter]
    omega
  · refine ⟨Nat.one_pos, hwidth, by simp, rfl, rfl, rfl, rfl, ?_, ?_, ?_⟩
    · exact hs.fits hcursor
    · refine ⟨by rw [hshorter]; omega, ?_⟩
      simp only [hshorter]
      omega
    · simp only [Editor.snapshot, hs.written_eq]
      exact hins

theorem change_spec {text : Bytes} {n : Nat} {c : Change} (hs : s.Holds text) (hcursor : s.cursor ≤ text.length)
    (h : change c s = some s') : Recorded s s' n := by
  have hsize := hs.size
  cases c with
  | character value => exact insertBytes_spec [value] hs (by simp [tabWidth]) h
  | newline => exact insertBytes_spec [lineFeed] hs (by simp [tabWidth]) h
  | tab => exact insertBytes_spec [32, 32, 32, 32] hs (by simp [tabWidth]) h
  | backspace =>
    simp only [change, backspace] at h
    split at h
    · cases h
    · exact eraseByte_spec hs hcursor (by omega) (le_refl _) h
  | delete =>
    simp only [change, deleteForward] at h
    split at h
    · cases h
    · exact eraseByte_spec hs hcursor (by omega) (le_refl _) h

end

/-! ### Moves -/

theorem lineStartFrom_le (text : Bytes) (position : Nat) : lineStartFrom text position ≤ position := by
  induction position with
  | zero => exact le_refl _
  | succ position ih =>
    rw [lineStartFrom]
    split
    · exact ih.trans (Nat.le_succ _)
    · exact le_refl _

theorem lineEndFrom_le (text : Bytes) (left position : Nat) : lineEndFrom text left position ≤ position + left := by
  induction left generalizing position with
  | zero => exact le_refl _
  | succ left ih =>
    rw [lineEndFrom]
    split
    · exact (ih _).trans_eq (by omega)
    · exact Nat.le_add_right ..

theorem le_lineEndFrom (text : Bytes) (left position : Nat) : position ≤ lineEndFrom text left position := by
  induction left generalizing position with
  | zero => exact le_refl _
  | succ left ih =>
    rw [lineEndFrom]
    split
    · exact (Nat.le_succ _).trans (ih _)
    · exact le_refl _

/-- What a move keeps: all but the cursor, the column it remembers and the view. -/
structure Moved (s s' : Editor) : Prop where
  text : s'.text = s.text
  size : s'.size = s.size
  dirty : s'.dirty = s.dirty
  undo : s'.undo = s.undo
  redo : s'.redo = s.redo
  cursor : s'.cursor ≤ s.size

section
variable {s : Editor}

theorem lineStart_le (s : Editor) (offset : Nat) : lineStart s offset ≤ s.size := by
  refine (Nat.mod_le _ _).trans ((lineStartFrom_le _ _).trans ?_)
  split <;> omega

theorem lineEnd_le (s : Editor) (offset : Nat) : lineEnd s offset ≤ s.size := by
  refine (Nat.mod_le _ _).trans ((lineEndFrom_le _ _ _).trans ?_)
  split <;> omega

theorem le_lineEnd {offset : Nat} (hfits : s.size < noteBufferCapacity) (h : offset ≤ s.size) : offset ≤ lineEnd s offset := by
  have hle := lineEndFrom_le s.text (s.size - offset) offset
  have hge := le_lineEndFrom s.text (s.size - offset) offset
  simp only [lineEnd, if_pos h]
  rw [u16_of_lt (by omega)]
  exact hge

theorem targetStart_le {down : Bool} {start : Nat} (h : targetStart down s = some start) : start ≤ s.size := by
  unfold targetStart at h
  cases down with
  | false =>
    simp only [Bool.false_eq_true, if_false] at h
    split at h
    · cases h
    · obtain rfl := Option.some.inj h
      exact lineStart_le s _
  | true =>
    simp only [if_true] at h
    split at h
    · cases h
    · rename_i hend
      obtain rfl := Option.some.inj h
      exact (Nat.mod_le _ _).trans (Nat.lt_of_not_le hend)

theorem moveVertical_moved {down : Bool} (hfits : s.size < noteBufferCapacity) (hcursor : s.cursor ≤ s.size) :
    Moved s (moveVertical down s) := by
  obtain ⟨s₁, hs₁, hmoved⟩ : ∃ s₁, (if s.preferredValid then s
      else { s with preferredColumn := u16 (s.cursor - lineStart s s.cursor), preferredValid := true }) = s₁ ∧ Moved s s₁ := by
    refine ⟨_, rfl, ?_⟩
    split
    · exact ⟨rfl, rfl, rfl, rfl, rfl, hcursor⟩
    · exact ⟨rfl, rfl, rfl, rfl, rfl, hcursor⟩
  rw [moveVertical, hs₁]
  dsimp only
  cases htarget : targetStart down s₁ with
  | none => exact hmoved
  | some start =>
    refine ⟨hmoved.text, hmoved.size, hmoved.dirty, hmoved.undo, hmoved.redo, (Nat.mod_le _ _).trans ?_⟩
    have hstart := targetStart_le htarget
    have hsize := hmoved.size
    have hle := lineEnd_le s₁ start
    have hge := le_lineEnd (s := s₁) (by omega) hstart
    have hlength : u16 (lineEnd s₁ start - start) ≤ lineEnd s₁ start - start := Nat.mod_le _ _
    split <;> omega

theorem move_moved (m : Move) (hfits : s.size < noteBufferCapacity) (hcursor : s.cursor ≤ s.size) : Moved s (move m s) := by
  cases m with
  | left => exact ⟨rfl, rfl, rfl, rfl, rfl, (Nat.sub_le ..).trans hcursor⟩
  | right =>
    refine ⟨rfl, rfl, rfl, rfl, rfl, ?_⟩
    simp only [move, moveHorizontal, ensureVisible, if_true]
    split <;> omega
  | up => exact moveVertical_moved hfits hcursor
  | down => exact moveVertical_moved hfits hcursor
  | home => exact ⟨rfl, rfl, rfl, rfl, rfl, lineStart_le s _⟩
  | lineEnd => exact ⟨rfl, rfl, rfl, rfl, rfl, lineEnd_le s _⟩

end

/-! ### Runs -/

theorem historyPush_of_lt {stack : List Edit} {edit : Edit} (h : stack.length < historyCapacity) : historyPush stack edit = stack ++ [edit] :=
  if_neg (Nat.not_le_of_lt h)

theorem historyPush_reverse {stack : List Edit} {edit : Edit} (h : stack.length ≤ historyCapacity) :
    (historyPush stack edit).reverse = (edit :: stack.reverse).take historyCapacity := by
  rcases Nat.lt_or_eq_of_le h with hlt | hfull
  · rw [historyPush_of_lt hlt, List.reverse_append, List.take_of_length_le]
    · rfl
    · rw [List.length_cons, List.length_reverse]
      exact hlt
  · have hdrop : (stack.drop 1).take (historyCapacity - 1) = stack.drop 1 := List.take_of_length_le (by simp [hfull])
    rw [historyPush, if_pos hfull.ge, hdrop, List.reverse_append, List.reverse_drop, hfull]
    rfl

/-- What the timeline sees of a key: an edit that was made, an undo and a redo that were done. -/
def follow (key : Key) (s : Editor) (t : Timeline Snapshot) : Timeline Snapshot :=
  match key with
  | .move _ => t
  | .change c =>
    match change c s with
    | some s' => t.edit s.snapshot s'.snapshot
    | none => t
  | .f5 => if (undoOnce s).isSome then t.undo else t
  | .f6 => if (redoOnce s).isSome then t.redo else t

def press (x : Editor × Timeline Snapshot) (key : Key) : Editor × Timeline Snapshot :=
  (handleEditorKey key x.1, follow key x.1 x.2)

/-- The keys pressed on a note from its opening on, and the timeline of the edits. -/
def session (note : Note) (earlier : Editor) (keys : List Key) : Editor × Timeline Snapshot :=
  keys.foldl press (bind (openPath note earlier), Timeline.start)

/-- The editor's state is well formed, and its stacks are the history of the timeline. -/
structure Synced (s : Editor) (t : Timeline Snapshot) : Prop where
  holds : s.Holds s.written
  cursor : s.cursor ≤ s.size
  kept : t.Kept Snapshot.document historyCapacity Records s.undo.reverse s.redo.reverse (s.written, s.dirty)

namespace Synced

variable {s s' : Editor} {t : Timeline Snapshot} {edit : Edit} {init : List Edit}

theorem room (h : Synced s t) : s.undo.length + s.redo.length ≤ historyCapacity := by
  simpa using h.kept.room

theorem moved (h : Synced s t) (hm : Moved s s') : Synced s' t := by
  have hwritten : s'.written = s.written := by rw [Editor.written, hm.text, hm.size, ← Editor.written]
  refine ⟨?_, hm.cursor.trans_eq hm.size.symm, ?_⟩
  · rw [hwritten]
    exact ⟨hm.text ▸ h.holds.array, hm.size.trans h.holds.size, hm.text ▸ h.holds.terminated⟩
  · rw [hwritten, hm.dirty, hm.undo, hm.redo]
    exact h.kept

theorem move (h : Synced s t) (m : Move) : Synced (move m s) t :=
  h.moved (move_moved m (h.holds.size.trans_lt h.holds.lt) h.cursor)

theorem change {c : Change} (h : Synced s t) (hc : change c s = some s') : Synced s' (t.edit s.snapshot s'.snapshot) := by
  have hrec : Recorded s s' t.made := change_spec h.holds (h.cursor.trans_eq h.holds.size) hc
  obtain ⟨text, hholds⟩ := hrec.holds
  obtain ⟨edit, hedit, hundo⟩ := hrec.pushed
  have hfull : s.undo.length ≤ historyCapacity := (Nat.le_add_right ..).trans h.room
  rw [← hholds.written_eq] at hholds
  refine ⟨hholds, hedit.after.cursor.trans_eq hholds.size.symm, ?_⟩
  rw [hundo, historyPush_reverse hfull, hrec.redo]
  exact h.kept.edit hedit rfl

theorem undo_step (h : Synced s t) (hundo : s.undo = init ++ [edit]) :
    ∃ e older s', t.past = e :: older ∧ undoOnce s = some s' ∧ s'.snapshot = e.before ∧ e.after.document = s.snapshot.document ∧
      s'.undo = init ∧ s'.redo = s.redo ++ [edit] ∧ Synced s' t.undo := by
  have hkept := h.kept
  rw [hundo, List.reverse_append, List.reverse_singleton, List.singleton_append] at hkept
  obtain ⟨e, older, hpast, hedit, hafter, hkept'⟩ := hkept.undo_step
  have htext : s.written = e.after.text := (congrArg Prod.fst hafter).symm
  obtain ⟨s', hs', hholds, hsnap, hundo', hredo'⟩ :=
    undoOnce_eq (s := s) (by rw [hundo, List.getLast?_concat]) hedit (htext ▸ h.holds)
  have hroom := h.room
  rw [hundo, List.dropLast_concat] at hundo'
  rw [hundo, List.length_append, List.length_singleton] at hroom
  rw [historyPush_of_lt (by omega)] at hredo'
  refine ⟨e, older, s', hpast, hs', hsnap, hafter, hundo', hredo', ?_, ?_, ?_⟩
  · rwa [hholds.written_eq]
  · rw [hholds.size]
    exact (congrArg Snapshot.cursor hsnap).trans_le hedit.before.cursor
  · rw [hundo', hredo', List.reverse_append, List.reverse_singleton, List.singleton_append]
    rw [show (s'.written, s'.dirty) = _ from congrArg Snapshot.document hsnap]
    exact hkept'

theorem redo_step (h : Synced s t) (hredo : s.redo = init ++ [edit]) :
    ∃ e later s', t.future = e :: later ∧ redoOnce s = some s' ∧ s'.snapshot = e.after ∧ e.before.document = s.snapshot.document ∧
      s'.undo = s.undo ++ [edit] ∧ s'.redo = init ∧ Synced s' t.redo := by
  have hkept := h.kept
  rw [hredo, List.reverse_append, List.reverse_singleton, List.singleton_append] at hkept
  obtain ⟨e, later, hfuture, hedit, hbefore, hkept'⟩ := hkept.redo_step
  have htext : s.written = e.before.text := (congrArg Prod.fst hbefore).symm
  obtain ⟨s', hs', hholds, hsnap, hundo', hredo'⟩ :=
    redoOnce_eq (s := s) (by rw [hredo, List.getLast?_concat]) hedit (htext ▸ h.holds)
  have hroom := h.room
  rw [hredo, List.dropLast_concat] at hredo'
  rw [hredo, List.length_append, List.length_singleton] at hroom
  rw [historyPush_of_lt (by omega)] at hundo'
  refine ⟨e, later, s', hfuture, hs', hsnap, hbefore, hundo', hredo', ?_, ?_, ?_⟩
  · rwa [hholds.written_eq]
  · rw [hholds.size]
    exact (congrArg Snapshot.cursor hsnap).trans_le hedit.after.cursor
  · rw [hundo', hredo', List.reverse_append, List.reverse_singleton, List.singleton_append]
    rw [show (s'.written, s'.dirty) = _ from congrArg Snapshot.document hsnap]
    exact hkept'

end Synced

theorem undo_nonempty {s s' : Editor} (h : undoOnce s = some s') : ∃ init edit, s.undo = init ++ [edit] := by
  rcases List.eq_nil_or_concat' s.undo with hnil | hconcat
  · simp [undoOnce, hnil] at h
  · exact hconcat

theorem redo_nonempty {s s' : Editor} (h : redoOnce s = some s') : ∃ init edit, s.redo = init ++ [edit] := by
  rcases List.eq_nil_or_concat' s.redo with hnil | hconcat
  · simp [redoOnce, hnil] at h
  · exact hconcat

theorem press_synced {s : Editor} {t : Timeline Snapshot} (h : Synced s t) (key : Key) : Synced (press (s, t) key).1 (press (s, t) key).2 := by
  cases key with
  | move m => exact h.move m
  | change c =>
    simp only [press, handleEditorKey, follow]
    cases hc : change c s with
    | none => exact h
    | some s' => exact h.change hc
  | f5 =>
    simp only [press, handleEditorKey, follow]
    cases hu : undoOnce s with
    | none => exact h
    | some s' =>
      obtain ⟨init, edit, hundo⟩ := undo_nonempty hu
      obtain ⟨-, -, s₁, -, hs₁, -, -, -, -, hsynced⟩ := h.undo_step hundo
      obtain rfl : s₁ = s' := Option.some.inj (hs₁.symm.trans hu)
      exact hsynced
  | f6 =>
    simp only [press, handleEditorKey, follow]
    cases hr : redoOnce s with
    | none => exact h
    | some s' =>
      obtain ⟨init, edit, hredo⟩ := redo_nonempty hr
      obtain ⟨-, -, s₁, -, hs₁, -, -, -, -, hsynced⟩ := h.redo_step hredo
      obtain rfl : s₁ = s' := Option.some.inj (hs₁.symm.trans hr)
      exact hsynced

theorem openPath_holds (note : Note) (earlier : Editor) : (openPath note earlier).Holds note.text := by
  have hfits := note.fits
  have hlt : note.text.length < noteBufferCapacity := Nat.lt_of_le_pred (by decide) hfits
  have harray : overwrite (List.replicate noteBufferCapacity 0) 0 note.text =
      note.text ++ 0 :: List.replicate (noteBufferCapacity - 1 - note.text.length) 0 := by
    rw [overwrite, List.take_zero, List.nil_append, Nat.zero_add, List.drop_replicate, ← List.replicate_succ]
    congr 2
    omega
  refine ⟨?_, rfl, ?_⟩
  · simp only [openPath, List.length_set, harray, List.length_append, List.length_cons, List.length_replicate]
    omega
  · refine ⟨List.replicate (noteBufferCapacity - 1 - note.text.length) 0, ?_⟩
    simp only [openPath, harray]
    rw [List.set_append_right _ _ (le_refl _), Nat.sub_self, List.set_cons_zero]

theorem bind_synced (note : Note) (earlier : Editor) : Synced (bind (openPath note earlier)) Timeline.start := by
  have hholds := openPath_holds note earlier
  have hlt : note.text.length < noteBufferCapacity := hholds.lt
  have hbound : (bind (openPath note earlier)).Holds note.text := ⟨hholds.array, hholds.size, hholds.terminated⟩
  rw [← hbound.written_eq] at hbound
  refine ⟨hbound, ?_, Timeline.Kept.start⟩
  have hcursor : (bind (openPath note earlier)).cursor = u16 note.text.length := congrArg u16 (if_pos hlt)
  rw [hcursor]
  exact Nat.mod_le _ _

theorem session_synced (note : Note) (earlier : Editor) (keys : List Key) :
    Synced (session note earlier keys).1 (session note earlier keys).2 := by
  suffices hrun : ∀ x : Editor × Timeline Snapshot, Synced x.1 x.2 → Synced (keys.foldl press x).1 (keys.foldl press x).2 from
    hrun _ (bind_synced note earlier)
  induction keys with
  | nil => exact fun _ h => h
  | cons key keys ih => exact fun x h => ih _ (press_synced h key)

/-- Undo once after each group of moves. -/
def undoAfter : List (List Move) → Editor → Option Editor
  | [], s => some s
  | moves :: rest, s => undoOnce (moves.foldl (fun s m => move m s) s) >>= undoAfter rest

theorem Synced.walk {s : Editor} {t : Timeline Snapshot} (h : Synced s t) (moves : List Move) :
    Synced (moves.foldl (fun s m => Notes.move m s) s) t ∧ (moves.foldl (fun s m => Notes.move m s) s).undo = s.undo := by
  induction moves generalizing s with
  | nil => exact ⟨h, rfl⟩
  | cons m moves ih =>
    obtain ⟨hsynced, hundo⟩ := ih (h.move m)
    exact ⟨hsynced, hundo.trans (move_moved m (h.holds.size.trans_lt h.holds.lt) h.cursor).undo⟩

theorem Synced.undoAfter_eq {s : Editor} {t : Timeline Snapshot} (h : Synced s t) {i : Nat} {e : Edited Snapshot} (he : t.past[i]? = some e)
    (hi : i < s.undo.length) (moves : List (List Move)) (hlen : moves.length = i + 1) :
    ∃ s', undoAfter moves s = some s' ∧ s'.snapshot = e.before := by
  induction moves generalizing s t i with
  | nil => simp at hlen
  | cons walk moves ih =>
    obtain ⟨hsynced, hundo⟩ := h.walk walk
    obtain ⟨init, edit, hstack⟩ := List.eq_nil_or_concat' s.undo |>.resolve_left (by rintro hnil; simp [hnil] at hi)
    obtain ⟨top, older, s', hpast, hs', hsnap, -, hinit, -, hnext⟩ := hsynced.undo_step (hundo.trans hstack)
    rw [hpast] at he
    cases i with
    | zero =>
      obtain rfl : moves = [] := by simpa using hlen
      obtain rfl : top = e := by simpa using he
      exact ⟨s', by simp [undoAfter, hs'], hsnap⟩
    | succ i =>
      rw [hstack, List.length_append, List.length_singleton] at hi
      obtain ⟨s'', hs'', hsnap''⟩ := ih hnext (i := i) (by simpa [Timeline.undo, hpast] using he) (by rw [hinit]; omega) (by simpa using hlen)
      exact ⟨s'', by simp [undoAfter, hs', hs''], hsnap''⟩

/-- Undo and redo in a session. The text stands NUL-terminated in its array with the cursor in it; an undo restores what was before the last
edit in effect, a redo what was after the last edit undone. Each takes the other back, with the cursor where the edit has it; an edit leaves
nothing to redo, and those of the last edits made that are in effect can be undone one behind the other. -/
theorem undo_redo_exact (note : Note) (earlier : Editor) (keys : List Key) :
    let s := (session note earlier keys).1
    let t := (session note earlier keys).2
    (s.text.length = noteBufferCapacity ∧ s.size < noteBufferCapacity ∧ s.text[s.size]? = some 0 ∧ s.cursor ≤ s.size) ∧
    (s.undo ≠ [] → ∃ e older s', t.past = e :: older ∧ undoOnce s = some s' ∧ s'.snapshot = e.before) ∧
    (s.redo ≠ [] → ∃ e later s', t.future = e :: later ∧ redoOnce s = some s' ∧ s'.snapshot = e.after) ∧
    (∀ s', undoOnce s = some s' → ∃ e older s'', t.past = e :: older ∧ redoOnce s' = some s'' ∧
      s''.snapshot = { s.snapshot with cursor := e.after.cursor } ∧ s''.undo = s.undo ∧ s''.redo = s.redo) ∧
    (∀ s', redoOnce s = some s' → ∃ e later s'', t.future = e :: later ∧ undoOnce s' = some s'' ∧
      s''.snapshot = { s.snapshot with cursor := e.before.cursor } ∧ s''.undo = s.undo ∧ s''.redo = s.redo) ∧
    (∀ c s', change c s = some s' → s'.redo = []) ∧
    (∀ i e, t.past[i]? = some e → t.made < e.number + historyCapacity → ∀ moves : List (List Move), moves.length = i + 1 →
      ∃ s', undoAfter moves s = some s' ∧ s'.snapshot = e.before) := by
  intro s t
  have h : Synced s t := session_synced note earlier keys
  refine ⟨⟨h.holds.array, h.holds.size.trans_lt h.holds.lt, h.holds.nul, h.cursor⟩, ?_, ?_, ?_, ?_, ?_, ?_⟩
  · intro hne
    obtain ⟨init, edit, hundo⟩ := (List.eq_nil_or_concat' s.undo).resolve_left hne
    obtain ⟨e, older, s', hpast, hs', hsnap, -⟩ := h.undo_step hundo
    exact ⟨e, older, s', hpast, hs', hsnap⟩
  · intro hne
    obtain ⟨init, edit, hredo⟩ := (List.eq_nil_or_concat' s.redo).resolve_left hne
    obtain ⟨e, later, s', hfuture, hs', hsnap, -⟩ := h.redo_step hredo
    exact ⟨e, later, s', hfuture, hs', hsnap⟩
  · intro s' hs'
    obtain ⟨init, edit, hundo⟩ := undo_nonempty hs'
    obtain ⟨e, older, s₁, hpast, hs₁, -, hdoc, hinit, hpushed, hnext⟩ := h.undo_step hundo
    obtain rfl : s₁ = s' := Option.some.inj (hs₁.symm.trans hs')
    obtain ⟨e', later, s'', hfuture, hs'', hsnap, -, hundo', hredo', -⟩ := hnext.redo_step hpushed
    obtain rfl : e = e' := by
      rw [Timeline.undo, hpast] at hfuture
      exact (List.cons.inj hfuture).1
    refine ⟨e, older, s'', hpast, hs'', hsnap.trans (snapshot_of_document hdoc), ?_, hredo'⟩
    rw [hundo', hinit, hundo]
  · intro s' hs'
    obtain ⟨init, edit, hredo⟩ := redo_nonempty hs'
    obtain ⟨e, later, s₁, hfuture, hs₁, -, hdoc, hpushed, hinit, hnext⟩ := h.redo_step hredo
    obtain rfl : s₁ = s' := Option.some.inj (hs₁.symm.trans hs')
    obtain ⟨e', older, s'', hpast, hs'', hsnap, -, hundo', hredo', -⟩ := hnext.undo_step hpushed
    obtain rfl : e = e' := by
      rw [Timeline.redo, hfuture] at hpast
      exact (List.cons.inj hpast).1
    refine ⟨e, later, s'', hfuture, hs'', hsnap.trans (snapshot_of_document hdoc), hundo', ?_⟩
    rw [hredo', hinit, hredo]
  · intro c s' hc
    exact (change_spec (n := 0) h.holds (h.cursor.trans_eq h.holds.size) hc).redo
  · intro i e he hrecent moves hlen
    exact h.undoAfter_eq he (by simpa using h.kept.lt_of_recent he hrecent) moves hlen

/-- A byte is typed and the cursor moved back before it: undo and redo put it behind the byte. -/
theorem redo_moves_cursor :
    let blank : Editor := ⟨[], 0, 0, false, [], [], 0, false, 0, 0⟩
    let s := (session ⟨[], by decide⟩ blank [.change (.character 97), .move .left]).1
    s.cursor = 0 ∧ ((undoOnce s).bind redoOnce).map Editor.cursor = some 1 := by
  decide

end ZenovOS.Productivity.Notes
