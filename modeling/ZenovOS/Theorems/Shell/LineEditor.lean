import Mathlib.Data.List.Basic
import Mathlib.Data.List.Induction
import Mathlib.Logic.Function.Iterate
import ZenovOS.Shell.Input

/-! # The line editor against a line with a cursor

The buffer of `read_line` holds a line with a cursor at every time, and the editing keys are the operations of such a line. The draft is the
line that was left for the history first; it is the line on return unless that was edited in between. -/

namespace ZenovOS.Shell

open Bytes

/-! ### Lines with a cursor -/

/-- What stands before the cursor and what stands behind it. -/
structure Line where
  before : Bytes
  after : Bytes

namespace Line

def text (l : Line) : Bytes := l.before ++ l.after

def insert (l : Line) (value : UInt8) : Line := ⟨l.before ++ [value], l.after⟩

def backspace (l : Line) : Line := ⟨l.before.dropLast, l.after⟩

def delete (l : Line) : Line := ⟨l.before, l.after.drop 1⟩

/-- The cursor at a place of the text. -/
def goto (l : Line) (place : Nat) : Line := ⟨l.text.take place, l.text.drop place⟩

/-- A key on a line of no more than `maximum` characters. -/
def press (maximum : Nat) (key : Key) (l : Line) : Line :=
  match key with
  | .character value => if 32 ≤ value ∧ value ≤ 126 ∧ l.text.length < maximum then l.insert value else l
  | .backspace => l.backspace
  | .delete => l.delete
  | .left => l.goto (l.before.length - 1)
  | .right => l.goto (l.before.length + 1)
  | .home => l.goto 0
  | .lineEnd => l.goto l.text.length
  | _ => l

theorem press_character (l : Line) (maximum : Nat) (value : UInt8) :
    l.press maximum (.character value) = if 32 ≤ value ∧ value ≤ 126 ∧ l.text.length < maximum then l.insert value else l := rfl

end Line

/-- The keys that edit the line or move its cursor. -/
def Key.edits : Key → Bool
  | .character _ | .backspace | .delete | .left | .right | .home | .lineEnd => true
  | _ => false

def Editor.text (s : Editor) : Bytes := s.buffer.take s.length

def Editor.line (s : Editor) : Line := ⟨s.text.take s.cursor, s.text.drop s.cursor⟩

/-- The array holds the line and a NUL behind it. -/
structure Editor.Holds (config : Config) (s : Editor) (l : Line) : Prop where
  array : s.buffer.length = config.lineCapacity
  length : s.length = l.before.length + l.after.length
  cursor : s.cursor = l.before.length
  noNul : 0 ∉ l.text
  terminated : ∃ rest, s.buffer = l.before ++ (l.after ++ 0 :: rest)

section
variable {config : Config} {s : Editor} {l : Line}

theorem takeWhile_ne_zero {text rest : Bytes} (h : 0 ∉ text) : cString (text ++ 0 :: rest) = text := by
  have hall : ∀ c ∈ text, decide (c ≠ 0) = true := by
    intro c hc
    exact decide_eq_true fun hzero => h (hzero ▸ hc)
  rw [cString, List.takeWhile_append_of_pos hall, List.takeWhile_cons_of_neg (by simp), List.append_nil]

namespace Editor.Holds

theorem text_eq (h : s.Holds config l) : s.text = l.text := by
  obtain ⟨rest, hrest⟩ := h.terminated
  rw [Editor.text, h.length, hrest, ← List.append_assoc, List.take_left' (by simp), Line.text]

theorem line_eq (h : s.Holds config l) : s.line = l := by
  rw [Editor.line, h.text_eq, h.cursor, Line.text, List.take_left, List.drop_left]

theorem cString_eq (h : s.Holds config l) : cString s.buffer = l.text := by
  obtain ⟨rest, hrest⟩ := h.terminated
  rw [hrest, ← List.append_assoc]
  exact takeWhile_ne_zero h.noNul

theorem length_text (h : s.Holds config l) : l.text.length = s.length := by
  rw [h.length, Line.text, List.length_append]

theorem lt (h : s.Holds config l) : s.length < config.lineCapacity := by
  obtain ⟨rest, hrest⟩ := h.terminated
  have hlen := congrArg List.length hrest
  have hlength := h.length
  rw [h.array] at hlen
  simp only [List.length_append, List.length_cons] at hlen
  omega

theorem nul (h : s.Holds config l) : s.buffer[s.length]? = some 0 := by
  obtain ⟨rest, hrest⟩ := h.terminated
  rw [h.length, hrest, ← List.append_assoc, List.getElem?_append_right (by simp)]
  simp

end Editor.Holds

/-! ### The shifts in the array -/

theorem shiftDown_eq (before : Bytes) (c : UInt8) (after rest : Bytes) :
    shiftDown (after.length + 1) before.length (before ++ c :: (after ++ 0 :: rest)) = before ++ (after ++ 0 :: 0 :: rest) := by
  induction after generalizing before c with
  | nil =>
    have hnext : (before ++ c :: 0 :: rest).getD (before.length + 1) 0 = 0 := by
      rw [List.getD_eq_getElem?_getD, List.getElem?_append_right (Nat.le_succ _)]
      simp
    rw [List.length_nil, List.nil_append, List.nil_append, shiftDown, hnext, List.set_append_right _ _ (le_refl _), Nat.sub_self]
    rfl
  | cons a after ih =>
    have hnext : (before ++ c :: (a :: (after ++ 0 :: rest))).getD (before.length + 1) 0 = a := by
      rw [List.getD_eq_getElem?_getD, List.getElem?_append_right (Nat.le_succ _)]
      simp
    have hstep := ih (before ++ [a]) a
    rw [List.length_append, List.append_assoc, List.append_assoc] at hstep
    rw [List.length_cons, List.cons_append, shiftDown, hnext, List.set_append_right _ _ (le_refl _), Nat.sub_self, List.set_cons_zero]
    exact hstep

theorem shiftUp_eq (before after : Bytes) (x value : UInt8) (rest : Bytes) :
    (shiftUp after.length (before.length + after.length) (before ++ (after ++ x :: rest))).set before.length value =
      before ++ value :: (after ++ rest) := by
  induction after using List.reverseRecOn generalizing x rest with
  | nil =>
    rw [List.nil_append, List.nil_append, List.length_nil, shiftUp, List.set_append_right _ _ (le_refl _), Nat.sub_self, List.set_cons_zero]
  | append_singleton after z ih =>
    have hindex : before.length + (after ++ [z]).length = (before ++ (after ++ [z])).length := by simp
    have hlast : (before ++ ((after ++ [z]) ++ x :: rest)).getD (before.length + after.length) 0 = z := by
      rw [List.getD_eq_getElem?_getD, List.append_assoc after, List.getElem?_append_right (Nat.le_add_right ..), Nat.add_sub_cancel_left,
        List.getElem?_append_right (le_refl _), Nat.sub_self]
      rfl
    have hset : (before ++ ((after ++ [z]) ++ x :: rest)).set (before.length + (after ++ [z]).length) z =
        before ++ (after ++ z :: (z :: rest)) := by
      rw [hindex, ← List.append_assoc before, List.set_append_right _ _ (le_refl _), Nat.sub_self, List.set_cons_zero]
      simp
    rw [List.length_append, List.length_singleton, shiftUp, ← Nat.add_assoc, Nat.add_sub_cancel, hlast]
    rw [List.length_append, List.length_singleton, ← Nat.add_assoc] at hset
    rw [hset, ih z (z :: rest)]
    simp

end

/-! ### What a key does to the line -/

/-- What the editing keys leave alone. -/
structure Frame (s s' : Editor) : Prop where
  navigation : s'.navigation = s.navigation
  draft : s'.draft = s.draft
  draftSaved : s'.draftSaved = s.draftSaved

section
variable {config : Config} {s : Editor} {l : Line} {visible : Nat}

theorem Editor.Holds.render (h : s.Holds config l) : (renderInput visible s).Holds config l :=
  ⟨h.array, h.length, h.cursor, h.noNul, h.terminated⟩

theorem typeKey_holds {value : UInt8} (h : s.Holds config l) :
    (typeKey (maximum config) visible value s).Holds config (l.press (maximum config) (.character value)) := by
  rw [typeKey, Line.press_character, h.length_text]
  split
  · rename_i hguard
    obtain ⟨hlow, -, hroom⟩ := hguard
    obtain ⟨rest, hrest⟩ := h.terminated
    have hlen := congrArg List.length hrest
    have hlength := h.length
    rw [h.array] at hlen
    simp only [List.length_append, List.length_cons] at hlen
    obtain ⟨y, rest', rfl⟩ : ∃ y rest', rest = y :: rest' := by
      refine List.exists_cons_of_ne_nil ?_
      rintro rfl
      simp only [maximum, List.length_nil] at hroom hlen
      omega
    have hshift : (shiftUp (s.length - s.cursor) s.length s.buffer).set s.cursor value = l.before ++ value :: (l.after ++ y :: rest') := by
      rw [hlength, h.cursor, Nat.add_sub_cancel_left, hrest]
      exact shiftUp_eq l.before l.after 0 value (y :: rest')
    have hbuffer : ((shiftUp (s.length - s.cursor) s.length s.buffer).set s.cursor value).set (s.length + 1) 0 =
        (l.before ++ [value]) ++ (l.after ++ 0 :: rest') := by
      have hindex : s.length + 1 = (l.before ++ (value :: l.after)).length := by
        rw [List.length_append, List.length_cons, hlength]
        omega
      rw [hshift, hindex, ← List.cons_append, ← List.append_assoc, List.set_append_right _ _ (le_refl _), Nat.sub_self, List.set_cons_zero]
      simp
    refine Editor.Holds.render ⟨?_, ?_, ?_, ?_, rest', hbuffer⟩
    · dsimp only
      rw [hbuffer]
      simp only [List.length_append, List.length_cons, List.length_nil] at hlen ⊢
      omega
    · simp only [Line.insert, List.length_append, List.length_singleton]
      omega
    · rw [Line.insert, List.length_append, ← h.cursor]
      rfl
    · have hno := h.noNul
      simp only [Line.text, Line.insert, List.mem_append, List.mem_singleton] at hno ⊢
      rintro ((hb | rfl) | ha)
      · exact hno (Or.inl hb)
      · exact absurd hlow (by decide)
      · exact hno (Or.inr ha)
  · exact h

theorem backspaceKey_holds (h : s.Holds config l) : (backspaceKey visible s).Holds config l.backspace := by
  rw [backspaceKey]
  obtain ⟨before, after⟩ := l
  obtain ⟨rest, hrest⟩ := h.terminated
  have hlength := h.length
  have hcursor := h.cursor
  dsimp only at hrest hlength hcursor
  rcases List.eq_nil_or_concat' before with rfl | ⟨before, c, rfl⟩
  · rw [if_neg (by simp [hcursor])]
    exact h
  · rw [List.length_append, List.length_singleton] at hlength hcursor
    have hbuffer : shiftDown (s.length - (s.cursor - 1)) (s.cursor - 1) s.buffer = before ++ (after ++ 0 :: 0 :: rest) := by
      have hcount : s.length - (s.cursor - 1) = after.length + 1 := by omega
      rw [hcount, hcursor, Nat.add_sub_cancel, hrest, List.append_assoc]
      exact shiftDown_eq before c after rest
    have hlen := congrArg List.length hrest
    rw [h.array] at hlen
    simp only [List.length_append, List.length_cons] at hlen
    rw [if_pos (by omega), Line.backspace, List.dropLast_concat]
    refine Editor.Holds.render ⟨?_, ?_, ?_, ?_, 0 :: rest, hbuffer⟩
    · dsimp only
      rw [hbuffer]
      simp only [List.length_append, List.length_cons, List.length_nil] at hlen ⊢
      omega
    · dsimp only
      omega
    · dsimp only
      omega
    · have hno := h.noNul
      simp only [Line.text, List.mem_append] at hno ⊢
      rintro (hb | ha)
      · exact hno (Or.inl (Or.inl hb))
      · exact hno (Or.inr ha)

theorem deleteKey_holds (h : s.Holds config l) : (deleteKey visible s).Holds config l.delete := by
  rw [deleteKey]
  obtain ⟨before, after⟩ := l
  obtain ⟨rest, hrest⟩ := h.terminated
  have hlength := h.length
  have hcursor := h.cursor
  dsimp only at hrest hlength hcursor
  cases after with
  | nil =>
    rw [List.length_nil] at hlength
    rw [if_neg (by omega)]
    exact h
  | cons c after =>
    rw [List.length_cons] at hlength
    have hbuffer : shiftDown (s.length - s.cursor) s.cursor s.buffer = before ++ (after ++ 0 :: 0 :: rest) := by
      have hcount : s.length - s.cursor = after.length + 1 := by omega
      rw [hcount, hcursor, hrest]
      exact shiftDown_eq before c after rest
    have hlen := congrArg List.length hrest
    rw [h.array] at hlen
    simp only [List.length_append, List.length_cons] at hlen
    rw [if_pos (by omega)]
    refine Editor.Holds.render ⟨?_, ?_, hcursor, ?_, 0 :: rest, hbuffer⟩
    · dsimp only
      rw [hbuffer]
      simp only [List.length_append, List.length_cons] at hlen ⊢
      omega
    · simp only [Line.delete, List.drop_succ_cons, List.drop_zero]
      omega
    · have hno := h.noNul
      simp only [Line.text, Line.delete, List.mem_append, List.mem_cons, List.drop_succ_cons, List.drop_zero] at hno ⊢
      rintro (hb | ha)
      · exact hno (Or.inl hb)
      · exact hno (Or.inr (Or.inr ha))

theorem goto_holds {place cursor : Nat} (h : s.Holds config l) (hcursor : cursor = min place l.text.length) :
    (renderInput visible { s with cursor }).Holds config (l.goto place) := by
  obtain ⟨rest, hrest⟩ := h.terminated
  refine Editor.Holds.render ⟨h.array, ?_, ?_, ?_, rest, ?_⟩
  · rw [Line.goto, ← List.length_append, List.take_append_drop, h.length_text]
  · rw [Line.goto, List.length_take]
    exact hcursor
  · rw [Line.goto, Line.text, List.take_append_drop]
    exact h.noNul
  · rw [Line.goto, ← List.append_assoc, List.take_append_drop, Line.text, List.append_assoc]
    exact hrest

variable (visible) in
theorem replaceInput_holds {replacement : Bytes} (h : s.buffer.length = config.lineCapacity)
    (hlen : replacement.length < config.lineCapacity) (hno : 0 ∉ replacement) :
    (replaceInput (maximum config) visible replacement s).Holds config ⟨replacement, []⟩ := by
  have hcapacity : maximum config + 1 = config.lineCapacity := by
    have := config.line_bounds.1
    rw [maximum]
    omega
  have hbuffer : stringCopy s.buffer replacement (maximum config + 1) = replacement ++ 0 :: s.buffer.drop (replacement.length + 1) := by
    rw [stringCopy, if_neg (Nat.succ_ne_zero _), Nat.add_sub_cancel, List.take_of_length_le (by omega), overwrite]
    simp
  have hlength : (cString (stringCopy s.buffer replacement (maximum config + 1))).length = replacement.length := by
    rw [hbuffer, takeWhile_ne_zero hno]
  have hfits : ¬replacement.length > maximum config := by omega
  rw [replaceInput]
  simp only [hlength, if_neg hfits]
  refine Editor.Holds.render ⟨?_, rfl, rfl, ?_, s.buffer.drop (replacement.length + 1), hbuffer⟩
  · dsimp only
    rw [hbuffer]
    simp only [List.length_append, List.length_cons, List.length_drop]
    omega
  · rw [Line.text, List.append_nil]
    exact hno

end

/-! ### Completion -/

theorem commonPrefixLength_le (left right : Bytes) : commonPrefixLength left right ≤ left.length := by
  induction left generalizing right with
  | nil => exact Nat.zero_le _
  | cons l left ih =>
    cases right with
    | nil => exact Nat.zero_le _
    | cons r right =>
      rw [commonPrefixLength]
      split
      · exact Nat.succ_le_succ (ih right)
      · exact Nat.zero_le _

/-- What is shared by the candidates is in the completion, where it fits at all. -/
structure Matches.Good (config : Config) (m : Matches) : Prop where
  noNul : 0 ∉ m.completion
  shared : m.shared < config.lineCapacity → m.shared ≤ m.completion.length

theorem matchCandidate_good {config : Config} {typed candidate : Bytes} {m : Matches} (h : m.Good config) (hc : 0 ∉ candidate) :
    (matchCandidate config typed m candidate).Good config := by
  rw [matchCandidate]
  split
  · exact h
  split
  · refine ⟨fun hzero => hc (List.mem_of_mem_take hzero), fun hlt => ?_⟩
    dsimp only at hlt ⊢
    rw [List.length_take]
    omega
  · refine ⟨h.noNul, fun hlt => ?_⟩
    dsimp only at hlt ⊢
    split
    · exact commonPrefixLength_le _ _
    · rename_i hge
      rw [if_neg hge] at hlt
      exact h.shared hlt

theorem builtinCommands_noNul : ∀ command ∈ builtinCommands.map ascii, 0 ∉ command := by
  decide

theorem matchCommands_good (config : Config) (typed : Bytes) : (matchCommands config typed).Good config := by
  have hfold : ∀ (candidates : List Bytes) (m : Matches), (∀ c ∈ candidates, 0 ∉ c) → m.Good config →
      (candidates.foldl (matchCandidate config typed) m).Good config := by
    intro candidates
    induction candidates with
    | nil => exact fun _ _ hm => hm
    | cons c candidates ih =>
      exact fun m hall hm => ih _ (fun c hc => hall c (List.mem_cons_of_mem _ hc)) (matchCandidate_good hm (hall c List.mem_cons_self))
  refine hfold _ _ ?_ ⟨List.not_mem_nil, fun _ => le_refl _⟩
  intro candidate hmem
  rcases List.mem_append.mp hmem with hbuiltin | hstatic
  · exact builtinCommands_noNul candidate hbuiltin
  · exact config.names candidate hstatic

section
variable {config : Config} {s : Editor} {l : Line} {visible : Nat}

variable (visible) in
theorem completeInput_holds (h : s.Holds config l) : ∃ l', (completeInput config (maximum config) visible s).Holds config l' := by
  rw [completeInput]
  cases hm : completed config (maximum config) s with
  | none => exact ⟨l, h⟩
  | some m =>
    have hmax : m.shared ≤ maximum config ∧ m.Good config := by
      simp only [completed] at hm
      split at hm
      · cases hm
      split at hm
      · cases hm
      split at hm
      · cases hm
      · rename_i hguard
        obtain rfl := Option.some.inj hm
        exact ⟨by omega, matchCommands_good config _⟩
    obtain ⟨hmax, hgood⟩ := hmax
    have hcapacity : maximum config + 1 = config.lineCapacity := by
      have := config.line_bounds.1
      rw [maximum]
      omega
    have hshared : m.shared ≤ m.completion.length := hgood.shared (by omega)
    obtain ⟨text, htext⟩ : ∃ text, m.completion.take m.shared = text := ⟨_, rfl⟩
    have hlen : text.length = m.shared := by rw [← htext, List.length_take_of_le hshared]
    have hno : 0 ∉ text := fun hzero => hgood.noNul (List.mem_of_mem_take (htext ▸ hzero))
    have hover : overwrite s.buffer 0 text = text ++ s.buffer.drop m.shared := by
      rw [overwrite, List.take_zero, List.nil_append, Nat.zero_add, hlen]
    have hrest : (s.buffer.drop m.shared).length = config.lineCapacity - m.shared := by rw [List.length_drop, h.array]
    dsimp only
    rw [htext, hover]
    by_cases hone : m.count = 1 ∧ m.shared + 1 ≤ maximum config
    · obtain ⟨x, y, rest, hxy⟩ : ∃ x y rest, s.buffer.drop m.shared = x :: y :: rest := by
        rcases hdrop : s.buffer.drop m.shared with _ | ⟨x, _ | ⟨y, rest⟩⟩
        · simp [hdrop] at hrest
          omega
        · simp [hdrop] at hrest
          omega
        · exact ⟨x, y, rest, rfl⟩
      rw [if_pos hone, if_pos (Nat.lt_succ_self _), hxy, ← hlen]
      have hbuffer : ((text ++ x :: y :: rest).set text.length 32).set (text.length + 1) 0 = (text ++ [32]) ++ ([] ++ 0 :: rest) := by
        rw [List.set_append_right _ _ (le_refl _), Nat.sub_self, List.set_cons_zero, List.set_append_right _ _ (Nat.le_succ _)]
        simp
      refine ⟨⟨text ++ [32], []⟩, Editor.Holds.render ⟨?_, ?_, ?_, ?_, rest, hbuffer⟩⟩
      · dsimp only
        rw [hbuffer]
        rw [hxy] at hrest
        simp only [List.length_append, List.length_cons, List.length_nil] at hrest ⊢
        omega
      · simp
      · simp
      · simpa [Line.text] using hno
    · obtain ⟨x, rest, hx⟩ : ∃ x rest, s.buffer.drop m.shared = x :: rest := by
        refine List.exists_cons_of_length_pos ?_
        omega
      rw [if_neg hone, if_neg (Nat.lt_irrefl _), hx, ← hlen]
      have hbuffer : (text ++ x :: rest).set text.length 0 = text ++ ([] ++ 0 :: rest) := by
        rw [List.set_append_right _ _ (le_refl _), Nat.sub_self, List.set_cons_zero]
        rfl
      refine ⟨⟨text, []⟩, Editor.Holds.render ⟨?_, rfl, rfl, ?_, rest, hbuffer⟩⟩
      · dsimp only
        rw [hbuffer]
        rw [hx] at hrest
        simp only [List.length_append, List.length_cons, List.length_nil] at hrest ⊢
        omega
      · simpa [Line.text] using hno

end

/-! ### Every key -/

/-- The editor while `read_line` runs. -/
structure Valid {config : Config} (history : History config) (s : Editor) : Prop where
  holds : s.Holds config s.line
  draft_lt : s.draft.length < config.lineCapacity
  draft_noNul : 0 ∉ s.draft
  oldest : history.oldest ≤ s.navigation
  newest : s.navigation ≤ history.count

section
variable {config : Config} {history : History config} {s s' : Editor} {visible : Nat}

theorem Editor.Holds.self {l : Line} (h : s.Holds config l) : s.Holds config s.line := by
  rwa [h.line_eq]

theorem Valid.of_frame {l : Line} (h : Valid history s) (hf : Frame s s') (hl : s'.Holds config l) : Valid history s' :=
  ⟨hl.self, hf.draft ▸ h.draft_lt, hf.draft ▸ h.draft_noNul, hf.navigation ▸ h.oldest, hf.navigation ▸ h.newest⟩

variable (visible) in
theorem press_edits {key : Key} (h : Valid history s) (hkey : key.edits = true) :
    (press history visible key s).1.Holds config (s.line.press (maximum config) key) ∧ Frame s (press history visible key s).1 := by
  have hl := h.holds
  have hlen := hl.length_text
  have hlength := hl.length
  have hcursor := hl.cursor
  cases key with
  | character value =>
    refine ⟨typeKey_holds hl, ?_⟩
    simp only [press, shortcutCommand, typeKey]
    split <;> exact ⟨rfl, rfl, rfl⟩
  | backspace =>
    refine ⟨backspaceKey_holds hl, ?_⟩
    simp only [press, shortcutCommand, backspaceKey]
    split <;> exact ⟨rfl, rfl, rfl⟩
  | delete =>
    refine ⟨deleteKey_holds hl, ?_⟩
    simp only [press, shortcutCommand, deleteKey]
    split <;> exact ⟨rfl, rfl, rfl⟩
  | left => exact ⟨goto_holds hl (by omega), ⟨rfl, rfl, rfl⟩⟩
  | right =>
    refine ⟨goto_holds hl ?_, ⟨rfl, rfl, rfl⟩⟩
    split <;> omega
  | home => exact ⟨goto_holds hl (Nat.zero_min _).symm, ⟨rfl, rfl, rfl⟩⟩
  | lineEnd => exact ⟨goto_holds hl (by omega), ⟨rfl, rfl, rfl⟩⟩
  | enter | escape | tab | up | down | f1 | f2 | f3 | f4 => exact absurd hkey Bool.false_ne_true

/-- The draft once the line is left. -/
def savedDraft (s : Editor) : Bytes := if s.draftSaved then s.draft else s.text

variable (history visible) in
theorem slot_holds (hs : s.buffer.length = config.lineCapacity) (i : Nat) :
    (replaceInput (maximum config) visible (history.slot i) s).Holds config ⟨history.slot i, []⟩ :=
  replaceInput_holds visible hs (history.fits i) (history.noNul i)

theorem savedDraft_fits (h : Valid history s) : (savedDraft s).length < config.lineCapacity ∧ 0 ∉ savedDraft s := by
  rw [savedDraft]
  split
  · exact ⟨h.draft_lt, h.draft_noNul⟩
  · rw [h.holds.text_eq, h.holds.length_text]
    exact ⟨h.holds.lt, h.holds.noNul⟩

variable (visible) in
theorem upKey_spec (h : Valid history s) :
    Valid history (upKey history visible s) ∧ (upKey history visible s).draft = savedDraft s ∧ (upKey history visible s).draftSaved = true ∧
      (history.oldest < s.navigation → (upKey history visible s).navigation = s.navigation - 1) ∧
      (s.navigation ≤ history.oldest → (upKey history visible s).text = s.text ∧ (upKey history visible s).navigation = s.navigation) := by
  obtain ⟨s₁, hs₁, hbuffer, hlength, hcursor, hnavigation, hdraft, hsaved⟩ : ∃ s₁ : Editor,
      (if !s.draftSaved then { s with draft := (cString s.buffer).take (config.lineCapacity - 1), draftSaved := true } else s) = s₁ ∧
        s₁.buffer = s.buffer ∧ s₁.length = s.length ∧ s₁.cursor = s.cursor ∧ s₁.navigation = s.navigation ∧ s₁.draft = savedDraft s ∧
        s₁.draftSaved = true := by
    refine ⟨_, rfl, ?_⟩
    rw [savedDraft]
    cases hsaved : s.draftSaved with
    | true => exact ⟨rfl, rfl, rfl, rfl, rfl, hsaved⟩
    | false =>
      have hlt := h.holds.lt
      have hlen := h.holds.length_text
      refine ⟨rfl, rfl, rfl, rfl, ?_, rfl⟩
      simp only [Bool.not_false, if_true, Bool.false_eq_true, if_false]
      rw [h.holds.cString_eq, List.take_of_length_le (by omega), h.holds.text_eq]
  obtain ⟨hfits, hno⟩ := savedDraft_fits h
  rw [upKey, hs₁]
  by_cases hnav : history.oldest < s.navigation
  · have hslot := slot_holds history visible (s := { s₁ with navigation := s₁.navigation - 1 })
      ((congrArg List.length hbuffer).trans h.holds.array) ((s₁.navigation - 1) % config.historyCapacity)
    rw [if_pos (hnavigation.symm ▸ hnav)]
    have hnewest := h.newest
    refine ⟨⟨hslot.self, ?_, ?_, ?_, ?_⟩, hdraft, hsaved, fun _ => ?_, fun hle => absurd hnav (Nat.not_lt_of_le hle)⟩
    · exact (congrArg List.length hdraft).trans_lt hfits
    · exact fun hzero => hno (hdraft ▸ hzero)
    · show history.oldest ≤ s₁.navigation - 1
      omega
    · show s₁.navigation - 1 ≤ history.count
      omega
    · show s₁.navigation - 1 = _
      rw [hnavigation]
  · have hholds : s₁.Holds config s.line := by
      have hl := h.holds
      exact ⟨hbuffer ▸ hl.array, hlength ▸ hl.length, hcursor ▸ hl.cursor, hl.noNul, hbuffer ▸ hl.terminated⟩
    rw [if_neg (hnavigation.symm ▸ hnav)]
    refine ⟨⟨hholds.self, ?_, ?_, ?_, ?_⟩, hdraft, hsaved, fun hlt => absurd hlt hnav, fun _ => ⟨?_, hnavigation⟩⟩
    · exact (congrArg List.length hdraft).trans_lt hfits
    · exact fun hzero => hno (hdraft ▸ hzero)
    · exact hnavigation.symm ▸ h.oldest
    · exact hnavigation.symm ▸ h.newest
    · rw [Editor.text, hbuffer, hlength, ← Editor.text]

variable (visible) in
theorem downKey_spec (h : Valid history s) :
    Valid history (downKey history visible s) ∧ (downKey history visible s).draft = s.draft ∧
      (downKey history visible s).draftSaved = s.draftSaved ∧
      (s.navigation < history.count → (downKey history visible s).navigation = s.navigation + 1) ∧
      (s.navigation + 1 = history.count → (downKey history visible s).text = s.draft) ∧
      (history.count ≤ s.navigation → downKey history visible s = s) := by
  rw [downKey]
  by_cases hnav : s.navigation < history.count
  · rw [if_pos hnav]
    obtain ⟨hfits, hno⟩ : (if s.navigation + 1 = history.count then s.draft
        else history.slot ((s.navigation + 1) % config.historyCapacity)).length < config.lineCapacity ∧
        0 ∉ (if s.navigation + 1 = history.count then s.draft else history.slot ((s.navigation + 1) % config.historyCapacity)) := by
      split
      · exact ⟨h.draft_lt, h.draft_noNul⟩
      · exact ⟨history.fits _, history.noNul _⟩
    have hholds := replaceInput_holds visible (s := { s with navigation := s.navigation + 1 }) h.holds.array hfits hno
    have holdest := h.oldest
    refine ⟨⟨hholds.self, h.draft_lt, h.draft_noNul, ?_, ?_⟩, rfl, rfl, fun _ => rfl, fun hlast => ?_, fun hge => absurd hnav (Nat.not_lt_of_le hge)⟩
    · show history.oldest ≤ s.navigation + 1
      omega
    · show s.navigation + 1 ≤ history.count
      omega
    · rw [hholds.text_eq, if_pos hlast, Line.text, List.append_nil]
  · rw [if_neg hnav]
    exact ⟨h, rfl, rfl, fun hlt => absurd hlt hnav, fun hlast => absurd (hlast ▸ Nat.lt_succ_self _) hnav, fun _ => rfl⟩

theorem set_zero {buffer : Bytes} (h : buffer.length = config.lineCapacity) : ∃ rest, buffer.set 0 0 = 0 :: rest ∧ rest.length + 1 = config.lineCapacity := by
  cases buffer with
  | nil =>
    have := config.line_bounds.1
    rw [List.length_nil] at h
    omega
  | cons c rest => exact ⟨rest, rfl, h⟩

theorem emptied_holds {buffer : Bytes} (h : buffer.length = config.lineCapacity) (viewStart navigation : Nat) (draft : Bytes) (draftSaved : Bool) :
    (⟨buffer.set 0 0, 0, 0, viewStart, navigation, draft, draftSaved⟩ : Editor).Holds config ⟨[], []⟩ := by
  obtain ⟨rest, hrest, -⟩ := set_zero h
  exact ⟨(List.length_set ..).trans h, rfl, rfl, List.not_mem_nil, rest, hrest⟩

theorem start_valid (history : History config) (array : Vector UInt8 config.lineCapacity) : Valid history (start history array) := by
  have hline := config.line_bounds.1
  have hholds : (start history array).Holds config ⟨[], []⟩ := emptied_holds (by simp) 0 history.count [] false
  refine ⟨hholds.self, ?_, List.not_mem_nil, Nat.sub_le .., le_refl _⟩
  show 0 < config.lineCapacity
  omega

variable (config) in
theorem shortcutCommand_fits {key : Key} {command : Bytes} (h : shortcutCommand key = some command) :
    command.length < config.lineCapacity ∧ 0 ∉ command := by
  have hline := config.line_bounds.1
  have hshort : command.length ≤ 4 ∧ 0 ∉ command := by
    cases key <;> simp only [shortcutCommand, Option.some.injEq, reduceCtorEq] at h
    all_goals
      subst h
      decide
  exact ⟨by omega, hshort.2⟩

variable (visible) in
theorem completeInput_frame (s : Editor) : Frame s (completeInput config (maximum config) visible s) := by
  rw [completeInput]
  cases completed config (maximum config) s <;> exact ⟨rfl, rfl, rfl⟩

variable (visible) in
theorem press_valid (key : Key) (h : Valid history s) : Valid history (press history visible key s).1 := by
  by_cases hkey : key.edits = true
  · obtain ⟨hholds, hframe⟩ := press_edits visible h hkey
    exact h.of_frame hframe hholds
  cases hshort : shortcutCommand key with
  | some command =>
    obtain ⟨hfits, hno⟩ := shortcutCommand_fits config hshort
    unfold press
    rw [hshort]
    dsimp only
    split
    · exact h.of_frame ⟨rfl, rfl, rfl⟩ (replaceInput_holds visible h.holds.array hfits hno)
    · exact h
  | none =>
    cases key with
    | enter =>
      refine h.of_frame ⟨rfl, rfl, rfl⟩ (l := s.line) ?_
      obtain ⟨rest, hrest⟩ := h.holds.terminated
      refine ⟨(List.length_set ..).trans h.holds.array, h.holds.length, h.holds.cursor, h.holds.noNul, rest, ?_⟩
      show s.buffer.set s.length 0 = _
      have hindex : s.length = (s.line.before ++ s.line.after).length := by rw [List.length_append, ← h.holds.length]
      rw [hrest, hindex, ← List.append_assoc, List.set_append_right _ _ (le_refl _), Nat.sub_self, List.set_cons_zero]
    | escape =>
      have hholds : (escapeKey history visible s).Holds config ⟨[], []⟩ := emptied_holds h.holds.array _ _ _ _
      exact ⟨hholds.self, h.draft_lt, h.draft_noNul, Nat.sub_le .., le_refl _⟩
    | tab =>
      obtain ⟨l, hl⟩ := completeInput_holds visible h.holds
      exact h.of_frame (completeInput_frame visible s) hl
    | up => exact (upKey_spec visible h).1
    | down => exact (downKey_spec visible h).1
    | f1 | f2 | f3 | f4 => simp [shortcutCommand] at hshort
    | character _ | backspace | delete | left | right | home | lineEnd => exact absurd rfl hkey

theorem readLine_valid (keys : List Key) (h : Valid history s) : Valid history (readLine history visible keys s).1 := by
  induction keys generalizing s with
  | nil => exact h
  | cons key keys ih =>
    have hnext := press_valid visible key h
    rw [readLine]
    cases hpress : press history visible key s with
    | mk next returned =>
      rw [hpress] at hnext
      cases returned with
      | true => exact hnext
      | false => exact ih hnext

/-! ### Up and down -/

/-- As many Ups as the history allows, and as many Downs, give the line back. -/
def Restores (history : History config) (visible : Nat) (s : Editor) : Prop :=
  ∀ k ≤ history.available, (readLine history visible (List.replicate k .up ++ List.replicate k .down) s).1.text = s.text

/-- The draft is the line that is left, if it is needed at all. -/
def DraftCurrent (history : History config) (s : Editor) : Prop :=
  history.available = 0 ∨ s.draftSaved = false ∨ s.draft = s.text

theorem draftCurrent_iff : DraftCurrent history s ↔ history.available = 0 ∨ savedDraft s = s.text := by
  rw [DraftCurrent, savedDraft]
  cases s.draftSaved <;> simp

theorem readLine_ups (k : Nat) (keys : List Key) (s : Editor) :
    readLine history visible (List.replicate k .up ++ keys) s = readLine history visible keys ((upKey history visible)^[k] s) := by
  induction k generalizing s with
  | zero => rfl
  | succ k ih => exact ih (upKey history visible s)

theorem readLine_downs (k : Nat) (s : Editor) :
    readLine history visible (List.replicate k .down) s = ((downKey history visible)^[k] s, false) := by
  induction k generalizing s with
  | zero => rfl
  | succ k ih => exact ih (downKey history visible s)

theorem available_le (history : History config) : history.available ≤ history.count := Nat.min_le_left ..

variable (visible) in
theorem upKey_iterate (h : Valid history s) (hnav : s.navigation = history.count) {k : Nat} (hk : k < history.available) :
    Valid history ((upKey history visible)^[k + 1] s) ∧ ((upKey history visible)^[k + 1] s).navigation + (k + 1) = history.count ∧
      ((upKey history visible)^[k + 1] s).draft = savedDraft s ∧ ((upKey history visible)^[k + 1] s).draftSaved = true := by
  have havail := available_le history
  have hback {s : Editor} (hs : Valid history s) {k : Nat} (hk : k < history.available) (hn : s.navigation + k = history.count) :
      (upKey history visible s).navigation + (k + 1) = history.count := by
    have holdest : history.oldest < s.navigation := by
      rw [History.oldest]
      omega
    have := (upKey_spec visible hs).2.2.2.1 holdest
    omega
  induction k with
  | zero =>
    obtain ⟨hvalid, hdraft, hsaved, -⟩ := upKey_spec visible h
    exact ⟨hvalid, hback h hk hnav, hdraft, hsaved⟩
  | succ k ih =>
    obtain ⟨hvalid, hn, hdraft, hsaved⟩ := ih (Nat.lt_of_succ_lt hk)
    rw [Function.iterate_succ_apply']
    obtain ⟨hvalid', hdraft', hsaved', -⟩ := upKey_spec visible hvalid
    refine ⟨hvalid', hback hvalid hk hn, ?_, hsaved'⟩
    rw [hdraft', savedDraft, hsaved, if_pos rfl, hdraft]

theorem downKey_iterate (h : Valid history s) {k : Nat} (hnav : s.navigation + (k + 1) = history.count) :
    ((downKey history visible)^[k + 1] s).text = s.draft := by
  induction k generalizing s with
  | zero => exact (downKey_spec visible h).2.2.2.2.1 hnav
  | succ k ih =>
    obtain ⟨hvalid, hdraft, -, hn, -⟩ := downKey_spec visible h
    have hnext := hn (by omega)
    rw [Function.iterate_succ_apply, ih hvalid (by omega), hdraft]

theorem up_down_text (h : Valid history s) (hnav : s.navigation = history.count) {k : Nat} (hk : k < history.available) :
    (readLine history visible (List.replicate (k + 1) .up ++ List.replicate (k + 1) .down) s).1.text = savedDraft s := by
  obtain ⟨hvalid, hn, hdraft, -⟩ := upKey_iterate visible h hnav hk
  rw [readLine_ups, readLine_downs]
  exact (downKey_iterate hvalid hn).trans hdraft

theorem restores_iff (h : Valid history s) (hnav : s.navigation = history.count) : Restores history visible s ↔ DraftCurrent history s := by
  rw [draftCurrent_iff]
  constructor
  · intro hall
    rcases Nat.eq_zero_or_pos history.available with hzero | hpos
    · exact Or.inl hzero
    · exact Or.inr ((up_down_text h hnav hpos).symm.trans (hall 1 hpos))
  · rintro hcase k hk
    cases k with
    | zero => rfl
    | succ k =>
      have htext := hcase.resolve_left (by omega)
      rw [up_down_text h hnav hk, htext]

/-! ### Runs that keep the draft current -/

/-- A key that does not change the edited line once its draft is saved, where there is a history to go to. -/
def Careful (history : History config) (key : Key) (s : Editor) : Prop :=
  s.navigation = history.count → s.draftSaved = true → history.available ≠ 0 →
    match key with
    | .character value => ¬(32 ≤ value ∧ value ≤ 126 ∧ s.length < maximum config)
    | .backspace => s.cursor = 0
    | .delete => s.cursor = s.length
    | .tab => completed config (maximum config) s = none
    | _ => True

def CarefulRun (history : History config) (visible : Nat) : List Key → Editor → Prop
  | [], _ => True
  | key :: keys, s =>
    Careful history key s ∧ ((press history visible key s).2 = false → CarefulRun history visible keys (press history visible key s).1)

theorem DraftCurrent.of_same (h : DraftCurrent history s) (hf : Frame s s') (htext : s'.text = s.text) : DraftCurrent history s' := by
  rwa [DraftCurrent, hf.draftSaved, hf.draft, htext]

theorem Line.goto_text (l : Line) (place : Nat) : (l.goto place).text = l.text := List.take_append_drop ..

theorem edits_current {key : Key} (h : Valid history s) (hd : DraftCurrent history s) (hkey : key.edits = true)
    (hnav : s.navigation = history.count) (hc : Careful history key s) : DraftCurrent history (press history visible key s).1 := by
  obtain ⟨hholds, hframe⟩ := press_edits visible h hkey
  by_cases havail : history.available = 0
  · exact Or.inl havail
  cases hsaved : s.draftSaved with
  | false => exact Or.inr (Or.inl (hframe.draftSaved.trans hsaved))
  | true =>
    have hguard := hc hnav hsaved havail
    have hl := h.holds
    refine hd.of_same hframe (hholds.text_eq.trans ?_)
    rw [hl.text_eq]
    cases key with
    | character value => rw [Line.press_character, hl.length_text, if_neg hguard]
    | backspace =>
      have hnil : s.line.before = [] := List.eq_nil_of_length_eq_zero (hl.cursor.symm.trans hguard)
      show s.line.backspace.text = s.line.text
      simp [Line.backspace, Line.text, hnil]
    | delete =>
      have hlength := hl.length
      have hcursor := hl.cursor
      have hnil : s.line.after = [] := by
        refine List.eq_nil_of_length_eq_zero ?_
        have heq : s.cursor = s.length := hguard
        omega
      show s.line.delete.text = s.line.text
      simp [Line.delete, Line.text, hnil]
    | left | right | home | lineEnd => exact Line.goto_text ..
    | enter | escape | tab | up | down | f1 | f2 | f3 | f4 => exact absurd hkey Bool.false_ne_true

variable (visible) in
theorem press_current {key : Key} (h : Valid history s) (hd : s.navigation = history.count → DraftCurrent history s)
    (hc : Careful history key s) (hgo : (press history visible key s).2 = false)
    (hnav : (press history visible key s).1.navigation = history.count) : DraftCurrent history (press history visible key s).1 := by
  by_cases hkey : key.edits = true
  · have hframe := (press_edits visible h hkey).2
    have hbefore : s.navigation = history.count := hframe.navigation.symm.trans hnav
    exact edits_current h (hd hbefore) hkey hbefore hc
  cases hshort : shortcutCommand key with
  | some command =>
    have hsame : (press history visible key s).1 = s := by
      unfold press at hgo ⊢
      rw [hshort] at hgo ⊢
      dsimp only at hgo ⊢
      split at hgo
      · cases hgo
      · rename_i hne
        rw [if_neg hne]
    rw [hsame] at hnav ⊢
    exact hd hnav
  | none =>
    cases key with
    | enter => cases hgo
    | escape => exact Or.inr (Or.inl rfl)
    | tab =>
      have hframe : Frame s (completeInput config (maximum config) visible s) := completeInput_frame visible s
      have hbefore : s.navigation = history.count := hframe.navigation.symm.trans hnav
      by_cases havail : history.available = 0
      · exact Or.inl havail
      cases hsaved : s.draftSaved with
      | false => exact Or.inr (Or.inl (hframe.draftSaved.trans hsaved))
      | true =>
        have hnone : completed config (maximum config) s = none := hc hbefore hsaved havail
        have hsame : (press history visible .tab s).1 = s := by
          show completeInput config (maximum config) visible s = s
          rw [completeInput, hnone]
        rw [hsame]
        exact hd hbefore
    | up =>
      -- On the edited line after an Up there is nothing to go back to.
      have havail := available_le history
      have hnewest := h.newest
      have holdest := h.oldest
      obtain ⟨-, -, -, hback, hstay⟩ := upKey_spec visible h
      have hafter : (upKey history visible s).navigation = history.count := hnav
      left
      rw [History.oldest] at holdest hback hstay
      rcases Nat.lt_or_ge (history.count - history.available) s.navigation with hlt | hge
      · have := hback hlt
        omega
      · have := (hstay hge).2
        omega
    | down =>
      obtain ⟨-, hdraft, -, hn, htext, hstay⟩ := downKey_spec visible h
      have hafter : (downKey history visible s).navigation = history.count := hnav
      rcases Nat.lt_or_ge s.navigation history.count with hlt | hge
      · have hlast := hn hlt
        exact Or.inr (Or.inr (hdraft.trans (htext (by omega)).symm))
      · have hsame := hstay hge
        show DraftCurrent history (downKey history visible s)
        rw [hsame]
        exact hd (Nat.le_antisymm h.newest hge)
    | f1 | f2 | f3 | f4 => simp [shortcutCommand] at hshort
    | character _ | backspace | delete | left | right | home | lineEnd => exact absurd rfl hkey

theorem readLine_current (keys : List Key) (h : Valid history s) (hd : s.navigation = history.count → DraftCurrent history s)
    (hc : CarefulRun history visible keys s) (hgo : (readLine history visible keys s).2 = false)
    (hnav : (readLine history visible keys s).1.navigation = history.count) : DraftCurrent history (readLine history visible keys s).1 := by
  induction keys generalizing s with
  | nil => exact hd hnav
  | cons key keys ih =>
    obtain ⟨hkey, hrest⟩ := hc
    have hvalid := press_valid visible key h
    have hcurrent := press_current visible h hd hkey
    rw [readLine] at hgo hnav ⊢
    cases hpress : press history visible key s with
    | mk next returned =>
      rw [hpress] at hrest hvalid hcurrent hgo hnav
      cases returned with
      | true => cases hgo
      | false => exact ih hvalid (hcurrent rfl) (hrest rfl) hgo hnav

/-- The line editor, after any keys on any array. The buffer has a line that fits, with its NUL, and the cursor in it; the editing keys act on
the line as on a list with a cursor; on the edited line Up and Down give the line back exactly where the draft is current, and it is in a run
in which the edited line is not changed while a draft is saved. -/
theorem read_line_edits (history : History config) (visible : Nat) (array : Vector UInt8 config.lineCapacity) (keys : List Key) :
    let s := (readLine history visible keys (start history array)).1
    (s.buffer.length = config.lineCapacity ∧ s.length ≤ maximum config ∧ s.buffer[s.length]? = some 0 ∧ cString s.buffer = s.text ∧
      s.cursor ≤ s.length) ∧
    (∀ key, key.edits = true → (press history visible key s).1.line = s.line.press (maximum config) key) ∧
    (s.navigation = history.count → (Restores history visible s ↔ DraftCurrent history s)) ∧
    (CarefulRun history visible keys (start history array) → (readLine history visible keys (start history array)).2 = false →
      s.navigation = history.count → Restores history visible s) := by
  intro s
  have hstart := start_valid history array
  have h : Valid history s := readLine_valid keys hstart
  have hl := h.holds
  refine ⟨⟨hl.array, ?_, hl.nul, ?_, ?_⟩, fun key hkey => (press_edits visible h hkey).1.line_eq, restores_iff h, fun hc hgo hnav => ?_⟩
  · exact Nat.le_sub_one_of_lt hl.lt
  · rw [hl.cString_eq, hl.text_eq]
  · have hlength := hl.length
    have hcursor := hl.cursor
    omega
  · exact (restores_iff h hnav).mpr (readLine_current keys hstart (fun _ => Or.inr (Or.inl rfl)) hc hgo hnav)

end

/-- The smallest configuration, and a history of one line. -/
def smallConfig : Config where
  lineCapacity := 128
  historyCapacity := 16
  staticCommands := []
  line_bounds := by decide
  history_bounds := by decide
  memory := by decide
  names := by simp

def oneLine : History smallConfig where
  slot _ := [108, 115]
  count := 1
  fits _ := by decide
  noNul _ := by decide

/-- `a`, Up, Down and `b`: the line is `ab`, and Up and Down make it `a`. -/
theorem draft_not_renewed :
    let s := (readLine oneLine 80 [.character 97, .up, .down, .character 98] (start oneLine (Vector.replicate 128 0))).1
    s.navigation = oneLine.count ∧ s.text = [97, 98] ∧ (readLine oneLine 80 [.up, .down] s).1.text = [97] := by
  decide

end ZenovOS.Shell
