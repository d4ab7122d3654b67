import ZenovOS.Theorems.Process.Execution
import ZenovOS.Theorems.Security.Guard
import ZenovOS.Tools.AppCompiler

/-! # What compiled programs do

The calls of an image have the offsets of their messages, so that a run of it writes all messages and ends with the code that was read
last. That is what the source says where nothing follows its first exit statement. -/

namespace ZenovOS.AppCompiler
open Bytes Memory Process Security ForeignImport StateTransition

/-! ### The image -/

/-- The code that writes a message at this offset. -/
def call (offset : Nat) (text : Bytes) : Bytes := movCode .eax 1 ++ movCode .ebx offset ++ movCode .ecx text.length ++ [0xCD, 0x80]

theorem length_call (offset : Nat) (text : Bytes) : (call offset text).length = 17 := by
  unfold call
  simp only [List.length_append, length_movCode, List.length_cons, List.length_nil]

/-- The calls for messages that stand one after the other from this offset on. -/
def calls : Nat → List Bytes → Bytes
  | _, [] => []
  | offset, text :: rest => call offset text ++ calls (offset + text.length) rest

theorem length_calls (offset : Nat) (messages : List Bytes) : (calls offset messages).length = 17 * messages.length := by
  induction messages generalizing offset with
  | nil => rfl
  | cons text rest ih =>
    rw [calls, List.length_append, length_call, ih, List.length_cons]
    omega

theorem length_blanks (messages : List Bytes) : (messages.flatMap (call 0)).length = 17 * messages.length := by
  induction messages with
  | nil => rfl
  | cons text rest ih =>
    rw [List.flatMap_cons, List.length_append, length_call, ih, List.length_cons]
    omega

theorem length_emitExit (exitCode : Nat) : (emitExit exitCode).length = 14 := by
  unfold emitExit
  simp only [List.length_append, length_le, List.length_cons, List.length_nil]

/-- Where the offsets are in the calls from `start` on. -/
def places : Nat → List Bytes → List Say
  | _, [] => []
  | start, text :: rest => ⟨text, start + 6⟩ :: places (start + 17) rest

theorem emitCalls_eq (messages : List Bytes) (image : Bytes) (patches : List Say) :
    emitCalls messages image patches = (image ++ messages.flatMap (call 0), patches ++ places image.length messages) := by
  induction messages generalizing image patches with
  | nil =>
    rw [List.flatMap_nil, List.append_nil, places, List.append_nil]
    rfl
  | cons text rest ih =>
    have hcall : image ++ [0xB8] ++ le 4 1 ++ [0xBB] ++ le 4 0 ++ [0xB9] ++ le 4 text.length ++ [0xCD, 0x80] = image ++ call 0 text := by
      simp [call, movCode, Register.opcode]
    have hpatch : (image ++ [0xB8] ++ le 4 1 ++ [0xBB]).length = image.length + 6 := by
      simp only [List.length_append, length_le, List.length_cons, List.length_nil]
    unfold emitCalls
    dsimp only
    rw [hcall, hpatch, ih, List.length_append, length_call, List.flatMap_cons, places]
    simp only [List.append_assoc, List.cons_append, List.nil_append]

theorem patchU32_call (before rest : Bytes) (text : Bytes) (value : Nat) :
    patchU32 (before ++ call 0 text ++ rest) (before.length + 6) value = some (before ++ call value text ++ rest) := by
  have hlength : (before ++ call 0 text ++ rest).length = before.length + 17 + rest.length := by
    rw [List.length_append, List.length_append, length_call]
  unfold patchU32
  rw [if_pos (by omega)]
  congr 1
  have hsplit : ∀ offset, before ++ call offset text ++ rest =
      before ++ movCode .eax 1 ++ [0xBB] ++ le 4 offset ++ (movCode .ecx text.length ++ [0xCD, 0x80] ++ rest) := by
    intro offset
    simp [call, movCode, Register.opcode]
  rw [hsplit 0, hsplit value]
  refine overwrite_field ?_ ?_
  · simp only [List.length_append, length_movCode, List.length_cons, List.length_nil]
  · rw [length_le, length_le]

theorem placeMessages_eq (messages : List Bytes) (before after : Bytes) :
    placeMessages (places before.length messages) (before ++ messages.flatMap (call 0) ++ after) =
      some (before ++ calls (before.length + 17 * messages.length + after.length) messages ++ after ++ messages.flatten) := by
  induction messages generalizing before after with
  | nil =>
    simp only [List.flatMap_nil, calls, List.flatten_nil, List.append_nil]
    rfl
  | cons text rest ih =>
    have himage : before ++ (text :: rest).flatMap (call 0) ++ after = before ++ call 0 text ++ (rest.flatMap (call 0) ++ after) := by
      rw [List.flatMap_cons]
      simp only [List.append_assoc]
    have hlength : (before ++ call 0 text ++ (rest.flatMap (call 0) ++ after)).length = before.length + 17 * (text :: rest).length + after.length := by
      simp only [List.length_append, length_call, length_blanks, List.length_cons]
      omega
    have hbefore : ∀ offset, (before ++ call offset text).length = before.length + 17 := by
      intro offset
      rw [List.length_append, length_call]
    rw [himage, places, placeMessages, hlength, patchU32_call]
    -- the rest goes on behind this call, with the message at the end
    have hrest := ih (before ++ call (before.length + 17 * (text :: rest).length + after.length) text) (after ++ text)
    have hoffset : before.length + 17 + 17 * rest.length + (after ++ text).length =
        before.length + 17 * (text :: rest).length + after.length + text.length := by
      rw [List.length_append, List.length_cons]
      omega
    rw [hbefore, hoffset] at hrest
    rw [calls, List.flatten_cons]
    simp only [List.append_assoc] at hrest ⊢
    exact hrest

theorem emit_eq (messages : List Bytes) (exitCode : Nat) :
    emit messages exitCode = some (calls (17 * messages.length + 14) messages ++ emitExit exitCode ++ messages.flatten) := by
  have hplaced := placeMessages_eq messages [] (emitExit exitCode)
  rw [length_emitExit] at hplaced
  unfold emit
  rw [emitCalls_eq]
  simpa using hplaced

theorem emit_ne_nil {messages : List Bytes} {exitCode : Nat} {image : Bytes} (h : emit messages exitCode = some image) : image ≠ [] := by
  rintro rfl
  have hempty := Option.some.inj ((emit_eq messages exitCode).symm.trans h)
  have hexit : emitExit exitCode = [] := (List.append_eq_nil_iff.mp (List.append_eq_nil_iff.mp hempty).1).2
  cases hexit

/-! ### The run -/

section Run
variable (scheduler : SyscallFrame → Mach SyscallState (SyscallFrame × UInt32)) (kVersion : Bytes)
variable {image : Bytes} {frame : SyscallFrame} {s : SyscallState} {eip : Nat}

theorem toNat_of_fits {n : Nat} (h : n ≤ userLimit) : (UInt32.ofNat n).toNat = n :=
  UInt32.toNat_ofNat_of_lt' (Nat.lt_of_le_of_lt h (by decide))

theorem reaches_call (h : s.Holds image) (heip : frame.eip.toNat = eip) {offset : Nat} {text : Bytes}
    (hcode : CodeAt image eip (call offset text)) (htext : CodeAt image offset text) :
    ∃ frame', Reaches (execute scheduler kVersion) (.running frame s) (.running frame' { s with console := s.console ++ text }) ∧
      frame'.eip.toNat = eip + 17 := by
  have hfits := h.fits
  have hend := htext.fits
  have hroom := hcode.fits
  rw [length_call] at hroom
  have hebx := hcode.left.left.right
  have hecx := hcode.left.right
  have hint := hcode.right
  rw [length_movCode] at hebx
  rw [List.length_append, length_movCode, length_movCode] at hecx
  rw [List.length_append, List.length_append, length_movCode, length_movCode, length_movCode] at hint
  obtain ⟨frame₁, hstep₁, heip₁, heax₁, -⟩ := execute_mov scheduler kVersion h heip hcode.left.left.left
  obtain ⟨frame₂, hstep₂, heip₂, hebx₂, hkept₂⟩ := execute_mov scheduler kVersion h heip₁ hebx
  obtain ⟨frame₃, hstep₃, heip₃, hecx₃, hkept₃⟩ := execute_mov scheduler kVersion h heip₂ hecx
  have hstep₄ := execute_int80 scheduler kVersion h heip₃ hint
  have heip₄ : (frame₃.advance .int80).eip.toNat = eip + 5 + 5 + 5 + 2 := advance_eip .int80 heip₃ rfl (by omega)
  have heax₃ : (frame₃.advance .int80).eax = syscallConsoleWrite := (hkept₃ .eax nofun).trans ((hkept₂ .eax nofun).trans heax₁)
  have hebx₃ : (frame₃.advance .int80).ebx.toNat = offset := by
    have hvalue : (frame₃.advance .int80).ebx = UInt32.ofNat offset := (hkept₃ .ebx nofun).trans hebx₂
    rw [hvalue]
    exact toNat_of_fits (by omega)
  have hecx₃ : (frame₃.advance .int80).ecx.toNat = text.length := by
    have hvalue : (frame₃.advance .int80).ecx = UInt32.ofNat text.length := hecx₃
    rw [hvalue]
    exact toNat_of_fits (by omega)
  obtain ⟨eax, hcall⟩ := systemCall_consoleWrite scheduler kVersion h heax₃ hebx₃ hecx₃ htext
  rw [hcall] at hstep₄
  exact ⟨_, .head hstep₁ (.head hstep₂ (.head hstep₃ (.single hstep₄))), heip₄⟩

theorem reaches_calls {messages : List Bytes} {offset : Nat} (h : s.Holds image) (heip : frame.eip.toNat = eip)
    (hcode : CodeAt image eip (calls offset messages)) (htexts : CodeAt image offset messages.flatten) :
    ∃ frame', Reaches (execute scheduler kVersion) (.running frame s)
        (.running frame' { s with console := s.console ++ messages.flatten }) ∧ frame'.eip.toNat = eip + 17 * messages.length := by
  induction messages generalizing frame s eip offset with
  | nil =>
    rw [List.flatten_nil, List.append_nil]
    exact ⟨frame, .refl, heip⟩
  | cons text rest ih =>
    rw [calls] at hcode
    rw [List.flatten_cons] at htexts
    obtain ⟨frame₁, hfirst, heip₁⟩ := reaches_call scheduler kVersion h heip hcode.left htexts.left
    have hrest := hcode.right
    rw [length_call] at hrest
    obtain ⟨frame₂, hmore, heip₂⟩ := ih (s := { s with console := s.console ++ text }) h heip₁ hrest htexts.right
    refine ⟨frame₂, ?_, ?_⟩
    · rw [List.flatten_cons, ← List.append_assoc]
      exact hfirst.trans hmore
    · rw [heip₂, List.length_cons]
      omega

theorem reaches_exit {exitCode : Nat} (h : s.Holds image) (heip : frame.eip.toNat = eip) (hcode : CodeAt image eip (emitExit exitCode)) :
    Reaches (execute scheduler kVersion) (.running frame s) (.exited (UInt32.ofNat exitCode) s) := by
  have hsplit : emitExit exitCode = movCode .ebx exitCode ++ movCode .eax 0 ++ [0xCD, 0x80] ++ [0x0F, 0x0B] := by
    simp [emitExit, movCode, Register.opcode]
  rw [hsplit] at hcode
  have heax := hcode.left.left.right
  have hint := hcode.left.right
  rw [length_movCode] at heax
  rw [List.length_append, length_movCode, length_movCode] at hint
  obtain ⟨frame₁, hstep₁, heip₁, hebx₁, -⟩ := execute_mov scheduler kVersion h heip hcode.left.left.left
  obtain ⟨frame₂, hstep₂, heip₂, heax₂, hkept₂⟩ := execute_mov scheduler kVersion h heip₁ heax
  have hstep₃ := execute_int80 scheduler kVersion h heip₂ hint
  have hexit : systemCall scheduler kVersion (frame₂.advance .int80) s = .exited frame₂.ebx s := systemCall_exit scheduler kVersion heax₂
  have hebx₂ : frame₂.ebx = UInt32.ofNat exitCode := (hkept₂ .ebx (by decide)).trans hebx₁
  rw [hexit, hebx₂] at hstep₃
  exact .head hstep₁ (.head hstep₂ (.single hstep₃))

theorem reaches_emitted {messages : List Bytes} {exitCode : Nat} (hemit : emit messages exitCode = some image) (h : s.Holds image)
    (hstart : frame.eip = 0) :
    Reaches (execute scheduler kVersion) (.running frame s)
      (.exited (UInt32.ofNat exitCode) { s with console := s.console ++ messages.flatten }) := by
  have himage := (Option.some.inj ((emit_eq messages exitCode).symm.trans hemit)).symm
  have hcalls : CodeAt image 0 (calls (17 * messages.length + 14) messages) :=
    ⟨[], emitExit exitCode ++ messages.flatten, by rw [himage, List.nil_append, List.append_assoc], rfl⟩
  have hexit : CodeAt image (0 + 17 * messages.length) (emitExit exitCode) :=
    ⟨calls (17 * messages.length + 14) messages, messages.flatten, himage, by rw [length_calls, Nat.zero_add]⟩
  have htexts : CodeAt image (17 * messages.length + 14) messages.flatten := by
    refine ⟨calls (17 * messages.length + 14) messages ++ emitExit exitCode, [], by rw [List.append_nil]; exact himage, ?_⟩
    rw [List.length_append, length_calls, length_emitExit]
  have heip : frame.eip.toNat = 0 := by rw [hstart]; rfl
  obtain ⟨frame', hreaches, heip'⟩ := reaches_calls scheduler kVersion h heip hcalls htexts
  exact hreaches.trans (reaches_exit (s := { s with console := s.console ++ messages.flatten }) scheduler kVersion h heip' hexit)

end Run

/-! ### The statements of a source -/

inductive Statement
  | app (name : Bytes)
  | say (text : Bytes)
  | exit (code : Nat)
  deriving DecidableEq

/-- The statement of a line, if it has one. -/
def statement (line : Bytes) : Option Statement :=
  if skipped line then none
  else if (ascii "app").isPrefixOf line then (quoted line (ascii "app")).toOption.map .app
  else if (ascii "say").isPrefixOf line then (quoted line (ascii "say")).toOption.map .say
  else if (ascii "exit").isPrefixOf line then (exitStatement line).toOption.map .exit
  else none

/-- The statements of a source, in order. -/
def statements (source : Bytes) : List Statement := (Text.lines 10 source).filterMap fun line => statement (trim line)

def Statement.isExit : Statement → Bool
  | .exit _ => true
  | _ => false

/-- The messages of the say statements. -/
def texts (program : List Statement) : List Bytes :=
  program.filterMap fun
    | .say text => some text
    | _ => none

/-- The codes of the exit statements. -/
def codes (program : List Statement) : List Nat :=
  program.filterMap fun
    | .exit code => some code
    | _ => none

def beforeExit (program : List Statement) : List Statement := program.takeWhile fun statement => !statement.isExit
def fromExit (program : List Statement) : List Statement := program.dropWhile fun statement => !statement.isExit

theorem texts_split (program : List Statement) : texts program = texts (beforeExit program) ++ texts (fromExit program) := by
  unfold texts
  rw [← List.filterMap_append]
  exact congrArg _ List.takeWhile_append_dropWhile.symm

theorem toOption_map_some {α β : Type} {r : Except Bytes α} {f : α → β} {b : β} (h : r.toOption.map f = some b) : ∃ a, r = .ok a ∧ f a = b := by
  cases r with
  | error message => cases h
  | ok a => exact ⟨a, rfl, Option.some.inj h⟩

theorem statement_read {line : Bytes} {read : Statement} (h : statement line = some read) :
    (∃ name, quoted line (ascii "app") = .ok name ∧ .app name = read) ∨ (∃ text, quoted line (ascii "say") = .ok text ∧ .say text = read) ∨
      ∃ code, exitStatement line = .ok code ∧ .exit code = read := by
  unfold statement at h
  split at h
  · cases h
  split at h
  · exact .inl (toOption_map_some h)
  split at h
  · exact .inr (.inl (toOption_map_some h))
  split at h
  · exact .inr (.inr (toOption_map_some h))
  · cases h

/-! ### What the loop keeps -/

def Collected.add (c : Collected) : Statement → Collected
  | .app name => { c with name }
  | .say text => { c with messages := c.messages ++ [text] }
  | .exit exitCode => { c with exitCode, haveExit := true }

theorem map_ok {α β : Type} {r : Except Bytes α} {f : α → β} {b : β} (h : r.map f = .ok b) : ∃ a, r = .ok a ∧ f a = b := by
  cases r with
  | error message => cases h
  | ok a => exact ⟨a, rfl, Except.ok.inj h⟩

theorem collect_ok {c c' : Collected} {line : Bytes} (h : collect c line = .ok c') : c' = (statement (trim line)).elim c c.add := by
  unfold collect at h
  unfold statement
  dsimp only at h
  split at h
  · next hskip =>
    rw [if_pos hskip]
    exact (Except.ok.inj h).symm
  next hskip =>
  rw [if_neg hskip]
  split at h
  · next happ =>
    rw [if_pos happ]
    split at h
    · cases h
    · obtain ⟨name, hname, rfl⟩ := map_ok h
      rw [hname]
      rfl
  next happ =>
  rw [if_neg happ]
  split at h
  · next hsay =>
    obtain ⟨message, hmessage, rfl⟩ := map_ok h
    rw [if_pos hsay, hmessage]
    rfl
  next hsay =>
  rw [if_neg hsay]
  split at h
  · next hexit =>
    obtain ⟨exitCode, hcode, rfl⟩ := map_ok h
    rw [if_pos hexit, hcode]
    rfl
  · cases h

theorem collectAll_ok {lines : List Bytes} {c c' : Collected} (h : collectAll lines c = .ok c') :
    c' = (lines.filterMap fun line => statement (trim line)).foldl Collected.add c := by
  induction lines generalizing c with
  | nil => exact (Except.ok.inj h).symm
  | cons line rest ih =>
    unfold collectAll at h
    split at h
    · cases h
    · next c₁ hcollect =>
      rw [ih h, collect_ok hcollect]
      cases hstatement : statement (trim line) with
      | none =>
        rw [List.filterMap_cons, hstatement]
        rfl
      | some statement =>
        rw [List.filterMap_cons, hstatement]
        rfl

theorem messages_foldl (program : List Statement) (c : Collected) :
    (program.foldl Collected.add c).messages = c.messages ++ texts program := by
  induction program generalizing c with
  | nil => exact (List.append_nil _).symm
  | cons statement rest ih =>
    rw [List.foldl_cons, ih]
    cases statement with
    | app name => rfl
    | say text => exact List.append_assoc _ _ _
    | exit code => rfl

theorem exitCode_foldl (program : List Statement) (c : Collected) :
    (program.foldl Collected.add c).exitCode = (codes program).getLast?.getD c.exitCode ∧
      (program.foldl Collected.add c).haveExit = (c.haveExit || !(codes program).isEmpty) := by
  induction program generalizing c with
  | nil => exact ⟨rfl, (Bool.or_false _).symm⟩
  | cons statement rest ih =>
    rw [List.foldl_cons, (ih _).1, (ih _).2]
    cases statement with
    | app name => exact ⟨rfl, rfl⟩
    | say text => exact ⟨rfl, rfl⟩
    | exit code =>
      have hcodes : codes (.exit code :: rest) = code :: codes rest := rfl
      rw [hcodes, List.getLast?_cons, Option.getD_some]
      exact ⟨rfl, by simp [Collected.add]⟩

theorem exitStatement_le {line : Bytes} {code : Nat} (h : exitStatement line = .ok code) : code ≤ 255 := by
  unfold exitStatement at h
  split at h
  · cases h
  dsimp only at h
  split at h
  · cases h
  split at h
  · cases h
  next hrange =>
    cases h
    omega

theorem codes_le {source : Bytes} {code : Nat} (h : code ∈ codes (statements source)) : code ≤ 255 := by
  obtain ⟨exit, hexit, hcode⟩ := List.mem_filterMap.mp h
  obtain ⟨line, -, hline⟩ := List.mem_filterMap.mp hexit
  rcases statement_read hline with ⟨name, -, rfl⟩ | ⟨text, -, rfl⟩ | ⟨code', hread, rfl⟩
  · cases hcode
  · cases hcode
  · cases hcode
    exact exitStatement_le hread

theorem compile_ok {source name image : Bytes} (h : compile source = .ok (name, image)) :
    ∃ code, (codes (statements source)).getLast? = some code ∧ emit (texts (statements source)) code = some image := by
  unfold compile at h
  split at h
  · cases h
  next c hcollect =>
  have hc := collectAll_ok hcollect
  have hmessages := messages_foldl (statements source) ⟨[], [], 0, false⟩
  obtain ⟨hcode, hexit⟩ := exitCode_foldl (statements source) ⟨[], [], 0, false⟩
  change c = (statements source).foldl Collected.add ⟨[], [], 0, false⟩ at hc
  rw [← hc] at hmessages hcode hexit
  rw [List.nil_append] at hmessages
  split at h
  · cases h
  split at h
  · cases h
  split at h
  · cases h
  next hhave =>
    split at h
    · cases h
    next hemit =>
      cases h
      rw [hexit] at hhave
      cases hlast : (codes (statements source)).getLast? with
      | none =>
        rw [List.getLast?_eq_none_iff.mp hlast] at hhave
        exact absurd rfl hhave
      | some code =>
        rw [hlast, Option.getD_some] at hcode
        exact ⟨code, rfl, by rw [← hmessages, ← hcode]; exact hemit⟩

/-! ### The file -/

/-- The words of the header. -/
def headerWords (image : Bytes) : List Nat := [0x3158455A, 1, 32, image.length, 0, 0, 16384, (fnv1a image).toNat]

theorem zexFile_eq (image : Bytes) : zexFile image = (headerWords image).flatMap (le 4) ++ image := by
  unfold zexFile headerWords
  simp only [List.flatMap_cons, List.flatMap_nil, List.append_assoc]
  rfl

theorem length_headerWords (image : Bytes) : ((headerWords image).flatMap (le 4)).length = 32 := rfl

theorem slice_zexFile_word {image : Bytes} {i value : Nat} (h : (headerWords image)[i]? = some value) :
    slice (zexFile image) (i * 4) 4 = le 4 value := by
  have hi : i < 8 := (List.getElem?_eq_some_iff.mp h).1
  rw [zexFile_eq, slice_append_left (by rw [length_headerWords]; omega)]
  exact slice_flatMap (length_le 4) h

theorem u32_zexFile {image : Bytes} {i value : Nat} (h : (headerWords image)[i]? = some value) (hvalue : value < 2 ^ 32) :
    u32 (zexFile image) (i * 4) = value := by
  unfold u32
  rw [slice_zexFile_word h, toNat_le_of_lt hvalue]

theorem u32_image {image : Bytes} (hfits : image.length ≤ stackBase) : u32 (zexFile image) 12 = image.length :=
  @u32_zexFile image 3 _ rfl (Nat.lt_of_le_of_lt hfits (by decide))

theorem u32_entry (image : Bytes) : u32 (zexFile image) 16 = 0 := @u32_zexFile image 4 _ rfl (by decide)

theorem slice_image (image : Bytes) : slice (zexFile image) 32 image.length = image := by
  rw [zexFile_eq, slice_append_right (Nat.le_of_eq (length_headerWords image)), length_headerWords]
  exact slice_of_length rfl

theorem goodZex_zexFile {image : Bytes} (hne : image ≠ []) (hfits : image.length ≤ stackBase) : GoodZex (zexFile image) := by
  have hpos := List.length_pos_of_ne_nil hne
  have hroom : image.length ≤ 1032192 := hfits
  have himage := u32_image hfits
  have hentry := u32_entry image
  have hbss : u32 (zexFile image) 20 = 0 := @u32_zexFile image 5 _ rfl (by decide)
  have hstack : u32 (zexFile image) 24 = 16384 := @u32_zexFile image 6 _ rfl (by decide)
  refine ⟨?_, @slice_zexFile_word image 0 _ rfl, @u32_zexFile image 1 _ rfl (by decide), @u32_zexFile image 2 _ rfl (by decide), ?_, ?_, ?_, ?_,
    fun hne => absurd hbss hne, ?_⟩
  · rw [himage, zexFile_eq, List.length_append, length_headerWords]
  · rw [himage]
    omega
  · rw [himage, hentry]
    exact hpos
  · rw [himage, hbss]
    exact hfits
  · rw [hstack]
  · rw [himage, slice_image]
    exact (@u32_zexFile image 7 _ rfl (UInt32.toNat_lt _)).symm

/-! ### What a source means -/

/-- The image does what the source says up to its first exit statement, and where it ends below the stack and there are frames,
    the guard and the loader accept it, and the loader leaves it in the window. -/
structure Preserved (scheduler : SyscallFrame → Mach SyscallState (SyscallFrame × UInt32)) (kVersion source image : Bytes)
    (frame : SyscallFrame) (s : SyscallState) : Prop where
  runs : ∃ code, (codes (statements source)).head? = some code ∧
    Reaches (execute scheduler kVersion) (.running frame s)
      (.exited (UInt32.ofNat code) { s with console := s.console ++ (texts (beforeExit (statements source))).flatten })
  loads : image.length ≤ stackBase → zexValid (zexFile image) = true ∧ ∀ p, Paging.Reached p → p.Enough (zexFramesNeeded (zexFile image)) →
    ∃ p', loadZex (zexFile image) p = (some (some 0), p') ∧ (windowOf p').Holds image

/-- No message follows the first exit statement, but for empty ones, and the last exit statement has its code. -/
structure NothingFollows (program : List Statement) : Prop where
  silent : ∀ text ∈ texts (fromExit program), text = []
  code : (codes program).getLast? = (codes program).head?

section Meaning
variable (scheduler : SyscallFrame → Mach SyscallState (SyscallFrame × UInt32)) (kVersion : Bytes)
variable {source name image : Bytes} {frame : SyscallFrame} {s : SyscallState}

theorem Preserved.nothingFollows (h : Preserved scheduler kVersion source image frame s) (hcompile : compile source = .ok (name, image))
    (hstart : frame.eip = 0) (hloaded : s.Holds image) : NothingFollows (statements source) := by
  obtain ⟨last, hlast, hemit⟩ := compile_ok hcompile
  obtain ⟨first, hfirst, hclaimed⟩ := h.runs
  obtain ⟨hcode, hstate⟩ := exited_unique scheduler kVersion (reaches_emitted scheduler kVersion hemit hloaded hstart) hclaimed
  have hconsole : s.console ++ (texts (statements source)).flatten = s.console ++ (texts (beforeExit (statements source))).flatten :=
    congrArg SyscallState.console hstate
  rw [texts_split, List.flatten_append] at hconsole
  refine ⟨fun text htext => ?_, ?_⟩
  · have hnone := List.append_right_eq_self.mp (List.append_cancel_left hconsole)
    exact List.flatten_eq_nil_iff.mp hnone text htext
  · have hle := codes_le (List.mem_of_getLast? hlast)
    have hle' := codes_le (List.mem_of_head? hfirst)
    have heq := congrArg UInt32.toNat hcode
    rw [UInt32.toNat_ofNat_of_lt' (Nat.lt_of_le_of_lt hle (by decide)), UInt32.toNat_ofNat_of_lt' (Nat.lt_of_le_of_lt hle' (by decide))] at heq
    rw [hlast, hfirst, heq]

theorem loads_of_emit {messages : List Bytes} {exitCode : Nat} (hemit : emit messages exitCode = some image) (hfits : image.length ≤ stackBase) :
    zexValid (zexFile image) = true ∧ ∀ p, Paging.Reached p → p.Enough (zexFramesNeeded (zexFile image)) →
      ∃ p', loadZex (zexFile image) p = (some (some 0), p') ∧ (windowOf p').Holds image := by
  have hgood := goodZex_zexFile (emit_ne_nil hemit) hfits
  refine ⟨hgood.valid, fun p hp hframes => ?_⟩
  obtain ⟨q, own, hsound⟩ := hp.sound
  obtain ⟨p', hload, hholds⟩ := load_holds hgood.loadable hsound hframes
  rw [u32_entry] at hload
  rw [u32_image hfits, slice_image] at hholds
  exact ⟨p', hload, hholds⟩

/-- An image in the window does what its source says exactly if nothing follows the first exit statement of the source. Every image that
    fits is accepted and loaded. -/
theorem compile_preserves_iff (hcompile : compile source = .ok (name, image)) (hstart : frame.eip = 0) (hloaded : s.Holds image) :
    Preserved scheduler kVersion source image frame s ↔ NothingFollows (statements source) := by
  refine ⟨fun h => h.nothingFollows scheduler kVersion hcompile hstart hloaded, fun ⟨hsilent, hcode⟩ => ?_⟩
  obtain ⟨last, hlast, hemit⟩ := compile_ok hcompile
  have hnone : (texts (fromExit (statements source))).flatten = [] := List.flatten_eq_nil_iff.mpr hsilent
  have hrun := reaches_emitted scheduler kVersion hemit hloaded hstart
  rw [texts_split, List.flatten_append, hnone, List.append_nil] at hrun
  exact ⟨⟨last, hcode ▸ hlast, hrun⟩, loads_of_emit hemit⟩

end Meaning

/-! ### Two programs -/

/-- A program that is about to be started, with its image in the window. -/
def started (image : Bytes) : SyscallState where
  guard := freshGuard
  zvrt := ⟨true, []⟩
  memory := fun a => image.getD a 0
  pages := fun _ => ⟨true, true, false⟩
  activeCapabilities := ⟨true, 1, ascii "/apps/zenovapp.zex", [], [], List.replicate 32 0⟩
  activeSyscallAbi := .zenov
  linuxImageBias := 0
  capabilityAuditFailed := false
  securityReadBlocked := false
  lastExitCode := 0
  schedulerActive := false
  console := []
  keys := []
  native := []

def startFrame : SyscallFrame := ⟨0, 0, 0, 0, 0, 0, 0, 0, 0, 0, 0, 0, 0, 0, 0, 0, 0⟩

theorem started_holds {image : Bytes} (h : image.length ≤ userLimit) : (started image).Holds image := ⟨h, fun _ _ => rfl, fun _ _ => ⟨rfl, rfl⟩⟩

def greeting : Bytes := ascii "app(\"hello\");\nsay(\"Hi\\n\");\nexit(3);\n"

/-- The image of the greeting. -/
def greetingImage : Bytes := call 31 (ascii "Hi\n") ++ emitExit 3 ++ ascii "Hi\n"

theorem greeting_preserved : Preserved (fun frame => resume frame 0) [] greeting greetingImage startFrame (started greetingImage) := by
  have hcompile : compile greeting = .ok (ascii "hello", greetingImage) := by decide +kernel
  have hfollows : texts (fromExit (statements greeting)) = [] ∧ (codes (statements greeting)).getLast? = (codes (statements greeting)).head? := by
    decide +kernel
  exact (compile_preserves_iff _ [] hcompile rfl (started_holds (by decide +kernel))).mpr ⟨by rw [hfollows.1]; exact nofun, hfollows.2⟩

/-- A source that goes on behind its exit statement. -/
def talkative : Bytes := ascii "app(\"hello\");\nsay(\"Hi\\n\");\nexit(3);\nsay(\"Bye\\n\");\nexit(4);\n"

def talkativeImage : Bytes := call 48 (ascii "Hi\n") ++ call 51 (ascii "Bye\n") ++ emitExit 4 ++ ascii "Hi\nBye\n"

/-- It is accepted, and its image writes both messages and exits with the second code. -/
theorem talkative_not_preserved : ¬∀ (source name image : Bytes) (frame : SyscallFrame) (s : SyscallState),
    compile source = .ok (name, image) → frame.eip = 0 → s.Holds image → Preserved (fun frame => resume frame 0) [] source image frame s := by
  intro hall
  have hcompile : compile talkative = .ok (ascii "hello", talkativeImage) := by decide +kernel
  have hcodes : (codes (statements talkative)).getLast? ≠ (codes (statements talkative)).head? := by decide +kernel
  have hholds := @started_holds talkativeImage (by decide +kernel)
  have hpreserved := hall talkative (ascii "hello") talkativeImage startFrame (started talkativeImage) hcompile rfl hholds
  exact hcodes (hpreserved.nothingFollows _ _ hcompile rfl hholds).code

end ZenovOS.AppCompiler
