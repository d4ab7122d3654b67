import Mathlib.Data.List.DropRight
import Mathlib.Tactic.Ring

/-! # Lines of a text

A text is a list over any alphabet. `lines` is what a loop over `std::getline` reads, `trim` leaves out what is blank
at both ends. -/

namespace ZenovOS.Text

variable {α : Type}

/-! ### Runs -/

theorem takeWhile_of_head {p : α → Bool} {run rest : List α} (hrun : ∀ a ∈ run, p a = true) (hrest : ∀ a, rest.head? = some a → p a = false) :
    (run ++ rest).takeWhile p = run ∧ (run ++ rest).dropWhile p = rest := by
  rw [List.takeWhile_append_of_pos hrun, List.dropWhile_append_of_pos hrun]
  cases rest with
  | nil => exact ⟨List.append_nil run, rfl⟩
  | cons a rest =>
    have ha : ¬p a = true := by rw [hrest a rfl]; exact Bool.false_ne_true
    rw [List.takeWhile_cons_of_neg ha, List.dropWhile_cons_of_neg ha, List.append_nil]
    exact ⟨rfl, rfl⟩

theorem drop_takeWhile (p : α → Bool) (text : List α) : text.drop (text.takeWhile p).length = text.dropWhile p := by
  have hdrop := @List.drop_left _ (text.takeWhile p) (text.dropWhile p)
  rwa [List.takeWhile_append_dropWhile] at hdrop

/-! ### Lines -/

section Lines
variable [DecidableEq α] {sep : α}

/-- The lines of a text: each ends at a separator, the last one perhaps at the end of the text. -/
def lines (sep : α) : List α → List (List α)
  | [] => []
  | a :: rest =>
    if a = sep then [] :: lines sep rest
    else
      match lines sep rest with
      | [] => [[a]]
      | line :: more => (a :: line) :: more

theorem split_at_sep {text : List α} (h : (text.takeWhile (· ≠ sep)).length ≠ text.length) :
    text = text.takeWhile (· ≠ sep) ++ sep :: text.drop ((text.takeWhile (· ≠ sep)).length + 1) := by
  induction text with
  | nil => exact absurd rfl h
  | cons a rest ih =>
    by_cases ha : a = sep
    · subst ha
      rw [List.takeWhile_cons_of_neg (by simp)]
      rfl
    · rw [List.takeWhile_cons_of_pos (by simp [ha])] at h ⊢
      rw [List.cons_append, List.length_cons, List.drop_succ_cons, ← ih fun hlength => h (by rw [List.length_cons, hlength, List.length_cons])]

theorem lines_append_sep {line : List α} (h : sep ∉ line) (rest : List α) : lines sep (line ++ sep :: rest) = line :: lines sep rest := by
  induction line with
  | nil => rw [List.nil_append, lines, if_pos rfl]
  | cons a line ih =>
    rw [List.mem_cons, not_or] at h
    rw [List.cons_append, lines, if_neg (Ne.symm h.1), ih h.2]

theorem lines_of_notMem {line : List α} (h : sep ∉ line) (hne : line ≠ []) : lines sep line = [line] := by
  induction line with
  | nil => exact absurd rfl hne
  | cons a line ih =>
    rw [List.mem_cons, not_or] at h
    rw [lines, if_neg (Ne.symm h.1)]
    cases line with
    | nil => rfl
    | cons b line => rw [ih h.2 (List.cons_ne_nil b line)]

theorem lines_cons {text : List α} (hne : text ≠ []) :
    lines sep text = text.takeWhile (· ≠ sep) :: lines sep (text.drop ((text.takeWhile (· ≠ sep)).length + 1)) := by
  have hnotMem : sep ∉ text.takeWhile (· ≠ sep) := fun hmem => by simpa using List.mem_takeWhile_imp hmem
  by_cases hlength : (text.takeWhile (· ≠ sep)).length = text.length
  · have hall : text.takeWhile (· ≠ sep) = text := (List.takeWhile_prefix _).eq_of_length hlength
    rw [hall] at hnotMem ⊢
    rw [List.drop_eq_nil_of_le (Nat.le_succ _)]
    exact lines_of_notMem hnotMem hne
  · conv_lhs => rw [split_at_sep hlength]
    exact lines_append_sep hnotMem _

theorem length_lines_le (text : List α) : (lines sep text).length ≤ text.length := by
  induction text with
  | nil => exact Nat.le_refl _
  | cons a rest ih =>
    unfold lines
    split
    · exact Nat.succ_le_succ ih
    · split
      · exact Nat.succ_le_succ (Nat.zero_le _)
      · next line more hlines =>
        rw [hlines] at ih
        exact Nat.le_succ_of_le ih

theorem lines_flatMap {β : Type} {f : β → List α} {l : List β} (h : ∀ b ∈ l, sep ∉ f b) :
    lines sep (l.flatMap fun b => f b ++ [sep]) = l.map f := by
  induction l with
  | nil => rfl
  | cons b l ih =>
    rw [List.flatMap_cons, List.map_cons, List.append_assoc, List.singleton_append,
      lines_append_sep (h b (List.mem_cons_self)), ih fun x hx => h x (List.mem_cons_of_mem b hx)]

theorem sep_notMem_of_mem_lines {text line : List α} (h : line ∈ lines sep text) : sep ∉ line := by
  induction text generalizing line with
  | nil => cases h
  | cons a rest ih =>
    rw [lines] at h
    split at h
    · rcases List.mem_cons.mp h with rfl | h
      · exact List.not_mem_nil
      · exact ih h
    · rename_i hne
      cases hlines : lines sep rest with
      | nil =>
        rw [hlines, List.mem_singleton] at h
        rw [h, List.mem_singleton]
        exact Ne.symm hne
      | cons first more =>
        rw [hlines] at h
        rcases List.mem_cons.mp h with rfl | h
        · rw [List.mem_cons, not_or]
          exact ⟨Ne.symm hne, ih (hlines ▸ List.mem_cons_self)⟩
        · exact ih (hlines ▸ List.mem_cons_of_mem first h)

end Lines

/-! ### Blanks -/

/-- What is left without the blanks at both ends. -/
def trim (blank : α → Bool) (text : List α) : List α := (text.dropWhile blank).rdropWhile blank

variable {blank : α → Bool}

theorem trim_sublist (text : List α) : (trim blank text).Sublist text :=
  ((List.rdropWhile_prefix blank _).sublist).trans (List.dropWhile_sublist _)

/-- No blank at either end. -/
structure Trimmed (blank : α → Bool) (text : List α) : Prop where
  first : ∀ a, text.head? = some a → blank a = false
  last : ∀ a, text.getLast? = some a → blank a = false

theorem Trimmed.trim_eq {text : List α} (h : Trimmed blank text) : trim blank text = text := by
  have hfirst : text.dropWhile blank = text := by
    cases text with
    | nil => rfl
    | cons a rest => exact List.dropWhile_cons_of_neg (by rw [h.first a rfl]; exact Bool.false_ne_true)
  rw [trim, hfirst, List.rdropWhile_eq_self_iff]
  intro hne
  rw [h.last _ (List.getLast?_eq_getLast_of_ne_nil hne)]
  exact Bool.false_ne_true

theorem trimmed_trim (text : List α) : Trimmed blank (trim blank text) := by
  refine ⟨fun a ha => ?_, fun a ha => ?_⟩
  · obtain ⟨rest, hrest⟩ := List.rdropWhile_prefix blank (text.dropWhile blank)
    have hhead : (text.dropWhile blank).head? = some a := by
      rw [← hrest, List.head?_append]
      exact congrArg (fun o => o.or rest.head?) ha
    have hnot := List.head?_dropWhile_not blank text
    rw [hhead] at hnot
    exact hnot
  · have hne : trim blank text ≠ [] := by
      intro hnil
      rw [hnil] at ha
      cases ha
    have hlast := List.rdropWhile_last_not blank _ hne
    rw [List.getLast?_eq_getLast_of_ne_nil hne, Option.some.injEq] at ha
    rw [← Bool.not_eq_true, ← ha]
    exact hlast

end ZenovOS.Text

/-! ## Lines of a key and a value

A line is a key, an equals sign and a value. Where the key is plain and the value has no blank at an end, a reader that trims the
line and cuts it at its first equals sign gets both back. -/

namespace ZenovOS.KeyValue
open Text

variable {α : Type} {blank : α → Bool} {equals sep : α} {key value text : List α}

/-- Nothing in the key is blank, an equals sign or a line end. -/
structure Plain (blank : α → Bool) (equals sep : α) (key : List α) : Prop where
  nonempty : key ≠ []
  blanks : ∀ a ∈ key, blank a = false
  equals : equals ∉ key
  line : sep ∉ key

/-- The value is there, has no blank at an end and no line end in it. -/
structure Clean (blank : α → Bool) (sep : α) (value : List α) : Prop where
  nonempty : value ≠ []
  trimmed : Trimmed blank value
  line : sep ∉ value

def line (equals : α) (key value : List α) : List α := key ++ equals :: value

theorem clean_trim (hne : trim blank text ≠ []) (hline : sep ∉ text) : Clean blank sep (trim blank text) :=
  ⟨hne, trimmed_trim text, fun h => hline ((trim_sublist text).subset h)⟩

theorem Plain.trimmed (h : Plain blank equals sep key) : Trimmed blank key :=
  ⟨fun a ha => h.blanks a (List.mem_of_head? ha), fun a ha => h.blanks a (List.mem_of_getLast? ha)⟩

theorem head?_line (h : Plain blank equals sep key) : (line equals key value).head? = key.head? := by
  obtain ⟨a, rest, rfl⟩ := List.exists_cons_of_ne_nil h.nonempty
  rfl

theorem line_trimmed (hk : Plain blank equals sep key) (hv : Clean blank sep value) : Trimmed blank (line equals key value) := by
  refine ⟨fun a ha => hk.blanks a (List.mem_of_head? (head?_line hk ▸ ha)), fun a ha => ?_⟩
  rw [line, List.getLast?_append, List.getLast?_cons_of_ne_nil hv.nonempty] at ha
  cases hlast : value.getLast? with
  | none => exact absurd (List.getLast?_eq_none_iff.mp hlast) hv.nonempty
  | some b =>
    rw [hlast] at ha
    cases ha
    exact hv.trimmed.last a hlast

theorem takeWhile_line [DecidableEq α] (h : equals ∉ key) : (line equals key value).takeWhile (· ≠ equals) = key := by
  have hall : ∀ a ∈ key, decide (a ≠ equals) = true := fun a ha => decide_eq_true fun heq => h (heq ▸ ha)
  rw [line, List.takeWhile_append_of_pos hall, List.takeWhile_cons_of_neg (by simp), List.append_nil]

theorem take_line : (line equals key value).take key.length = key := List.take_left

theorem drop_line : (line equals key value).drop (key.length + 1) = value := by
  have hsplit : line equals key value = (key ++ [equals]) ++ value := by
    rw [line, List.append_assoc, List.singleton_append]
  rw [hsplit, List.drop_left' (by rw [List.length_append, List.length_singleton])]

theorem length_line : key.length < (line equals key value).length := by
  rw [line, List.length_append, List.length_cons]
  omega

theorem sep_notMem_line (hk : Plain blank equals sep key) (hne : sep ≠ equals) (hv : sep ∉ value) : sep ∉ line equals key value := by
  rw [line, List.mem_append, List.mem_cons, not_or, not_or]
  exact ⟨hk.line, hne, hv⟩

end ZenovOS.KeyValue
