import Mathlib.Data.List.Forall2
import ZenovOS.Lib.Align
import ZenovOS.Process.Stack

/-! # What a program finds on its first stack

The strings are placed downwards from the top, one below the other, then the words below them. So all that is written lies apart and
within the stack, and a program that follows its stack pointer reads back its arguments. -/

namespace ZenovOS.Process
open Bytes ByteMemory Security Write

/-! ### Machine words -/

theorem stackBase_le_stackTop : stackBase ≤ stackTop.toNat := by decide

/-- A length that passes a check against the room above `lo` can be taken from the top. -/
theorem toNat_sub_of_room {top lo n : UInt32} (hlo : lo ≤ top) (h : ¬top - lo < n) :
    (top - n).toNat = top.toNat - n.toNat ∧ lo.toNat + n.toNat ≤ top.toNat := by
  have hroom : (top - lo).toNat = top.toNat - lo.toNat := UInt32.toNat_sub_of_le _ _ hlo
  rw [UInt32.lt_iff_toNat_lt, hroom] at h
  rw [UInt32.le_iff_toNat_le] at hlo
  have hn : n ≤ top := by
    rw [UInt32.le_iff_toNat_le]
    omega
  exact ⟨UInt32.toNat_sub_of_le _ _ hn, by omega⟩

theorem toNat_and_not3 (x : UInt32) : (x &&& ~~~3).toNat = x.toNat / 4 * 4 := by
  rw [UInt32.toNat_and]
  exact Align.and_mask (k := 2) x.toNat_lt (by decide)

theorem Argument.toNat_length (a : Argument) : a.length.toNat = a.bytes.length := by
  have hfits := a.fits
  unfold length bytes
  rw [UInt32.toNat_add, UInt32.toNat_ofNat', List.length_append, Nat.mod_eq_of_lt (by omega : a.text.length < 2 ^ 32)]
  exact Nat.mod_eq_of_lt hfits

/-! ### The strings -/

/-- The strings have been written apart from each other above the top, and the words that were noted say where. -/
structure StringsPlaced (offset : UInt32 → UInt32) (arguments : List Argument) (writes : List Write) (offsets : List UInt32) (top : UInt32) :
    Prop where
  above : stackBase ≤ top.toNat
  within : ∀ w ∈ writes, w.Within top.toNat stackTop.toNat
  apart : writes.Pairwise Write.Apart
  noted : List.Forall₂ (fun a x => ∃ at_ : UInt32, x = offset at_ ∧ ⟨at_.toNat, a.bytes⟩ ∈ writes) arguments offsets

variable {offset : UInt32 → UInt32} {arguments : List Argument} {writes : List Write} {offsets : List UInt32} {top : UInt32}

theorem placeArguments_placed (hrun : placeArguments offset arguments = (writes, some (offsets, top))) :
    StringsPlaced offset arguments writes offsets top ∧ top.toNat ≤ stackTop.toNat := by
  induction arguments generalizing writes offsets top with
  | nil =>
    cases hrun
    exact ⟨⟨stackBase_le_stackTop, fun w hw => absurd hw List.not_mem_nil, List.Pairwise.nil, List.Forall₂.nil⟩, Nat.le_refl _⟩
  | cons a arguments ih =>
    unfold placeArguments at hrun
    rcases hrest : placeArguments offset arguments with ⟨before, _ | ⟨noted, above⟩⟩
    · rw [hrest] at hrun
      cases hrun
    · obtain ⟨hplaced, htop⟩ := ih hrest
      simp only [hrest] at hrun
      split at hrun
      · cases hrun
      · next hroom =>
        cases hrun
        have hbase : UInt32.ofNat stackBase ≤ above := UInt32.le_iff_toNat_le.mpr hplaced.above
        obtain ⟨hsub, hfits⟩ := toNat_sub_of_room hbase (not_or.mp hroom).2
        rw [a.toNat_length] at hsub hfits
        have hstop : (above - a.length).toNat + a.bytes.length = above.toNat := by omega
        have hnew : Within (above - a.length).toNat above.toNat ⟨(above - a.length).toNat, a.bytes⟩ := ⟨Nat.le_refl _, Nat.le_of_eq hstop⟩
        refine ⟨⟨?_, ?_, ?_, ?_⟩, by omega⟩
        · rw [hsub]
          exact Nat.le_sub_of_add_le hfits
        · intro w hw
          rcases List.mem_append.mp hw with hw | hw
          · exact (hplaced.within w hw).mono (by omega) (Nat.le_refl _)
          · rw [List.mem_singleton.mp hw]
            exact hnew.mono (Nat.le_refl _) htop
        · refine List.pairwise_append.mpr ⟨hplaced.apart, List.pairwise_singleton _ _, fun v hv w hw => ?_⟩
          rw [List.mem_singleton.mp hw]
          exact (hplaced.within v hv).apart hnew
        · refine List.Forall₂.cons ⟨above - a.length, rfl, List.mem_append_right _ (List.mem_singleton_self _)⟩ ?_
          refine hplaced.noted.imp fun _ _ ⟨at_, hx, hw⟩ => ⟨at_, hx, List.mem_append_left _ hw⟩

theorem StringsPlaced.reads (h : StringsPlaced offset arguments writes offsets top) {ws : List Write} (hsub : ∀ w ∈ writes, w ∈ ws)
    (hapart : ws.Pairwise Write.Apart) (m : Nat → UInt8) {back : UInt32 → UInt32} (hback : ∀ at_, back (offset at_) = at_) :
    offsets.map (fun x => loadString (putAll ws m) (back x).toNat stackTop.toNat) = arguments.map fun a => some a.text := by
  have hnoted := h.noted
  have hwithin := h.within
  clear h
  induction hnoted with
  | nil => rfl
  | @cons a x arguments offsets hax hrest ih =>
    obtain ⟨at_, rfl, hw⟩ := hax
    rw [List.map_cons, List.map_cons, ih, hback]
    exact congrArg (· :: _) (loadString_putAll hapart a.ended (hsub _ hw) (hwithin _ hw).2 m)

theorem StringsPlaced.length_offsets (h : StringsPlaced offset arguments writes offsets top) : offsets.length = arguments.length :=
  h.noted.length_eq.symm

theorem StringsPlaced.top_rounded (h : StringsPlaced offset arguments writes offsets top) :
    UInt32.ofNat stackBase ≤ top &&& ~~~3 ∧ (top &&& ~~~3).toNat ≤ top.toNat ∧ 4 ∣ (top &&& ~~~3).toNat := by
  have habove := h.above
  have hbase : stackBase = 4 * 258048 := rfl
  have hround := toNat_and_not3 top
  have hof : (UInt32.ofNat stackBase).toNat = stackBase := rfl
  rw [UInt32.le_iff_toNat_le, hof]
  omega

/-! ### The layouts -/

/-- What is written lies apart and within the stack, and the stack pointer, as an offset, is there too. -/
structure StackSafe (writes : List Write) (sp : UInt32) : Prop where
  within : ∀ w ∈ writes, w.Within stackBase stackTop.toNat
  apart : writes.Pairwise Write.Apart
  aligned : 4 ∣ sp.toNat
  above : stackBase ≤ sp.toNat
  below : sp.toNat < stackTop.toNat

/-- The stack pointer leads to `argc` and `argv`, and `argv` to the pointers to the strings, with a null behind them. -/
def NativeLayout (arguments : List Argument) (m : Nat → UInt8) (sp : UInt32) : Prop :=
  ∃ argc argv pointers, loadWords m sp.toNat 2 = [argc, argv] ∧ argc.toNat = arguments.length ∧
    loadWords m argv.toNat (argc.toNat + 1) = pointers ++ [0] ∧
    pointers.map (fun p => loadString m p.toNat stackTop.toNat) = arguments.map fun a => some a.text

/-- The stack pointer leads to `argc`, the pointers to the strings, and the nulls behind the arguments, the environment and the
    auxiliary vector. All addresses are higher by the bias. -/
def LinuxLayout (arguments : List Argument) (imageBias : UInt32) (m : Nat → UInt8) (sp : UInt32) : Prop :=
  ∃ argc pointers, loadWords m (sp - imageBias).toNat (arguments.length + 5) = argc :: pointers ++ [0, 0, 0, 0] ∧
    argc.toNat = arguments.length ∧
    pointers.map (fun p => loadString m (p - imageBias).toNat stackTop.toNat) = arguments.map fun a => some a.text

theorem toNat_count (h : arguments.length ≤ maxArguments) : (UInt32.ofNat arguments.length).toNat = arguments.length :=
  UInt32.toNat_ofNat_of_lt' (Nat.lt_of_le_of_lt h (by decide))

theorem toNat_wordBytes (h : arguments.length ≤ maxArguments) {k : UInt32} (hk : k.toNat ≤ 8) :
    ((UInt32.ofNat arguments.length + k) * 4).toNat = 4 * (arguments.length + k.toNat) := by
  have hmax : maxArguments = 8 := rfl
  rw [UInt32.toNat_mul, UInt32.toNat_add, toNat_count h, Nat.mod_eq_of_lt (by omega : arguments.length + k.toNat < 2 ^ 32), Nat.mul_comm]
  exact Nat.mod_eq_of_lt (show 4 * (arguments.length + k.toNat) < 2 ^ 32 by omega)

theorem buildInitialStack_layout (hcount : arguments.length ≤ maxArguments) {sp : UInt32}
    (hrun : buildInitialStack arguments = (writes, some sp)) :
    StackSafe writes sp ∧ ∀ m, NativeLayout arguments (putAll writes m) sp := by
  have hmax : maxArguments = 8 := rfl
  have hbytes : _ = 4 * (arguments.length + 1) := toNat_wordBytes hcount (k := 1) (by decide)
  unfold buildInitialStack at hrun
  rcases hplace : placeArguments (fun top => top) arguments with ⟨strings, _ | ⟨offsets, top⟩⟩
  · rw [hplace] at hrun
    cases hrun
  · simp only [hplace] at hrun
    obtain ⟨hplaced, htop⟩ := placeArguments_placed hplace
    obtain ⟨hbase, hround, haligned⟩ := hplaced.top_rounded
    have hlength := hplaced.length_offsets
    generalize hvector : (UInt32.ofNat arguments.length + 1) * 4 = vectorBytes at hrun hbytes
    generalize htop' : top &&& ~~~3 = rounded at hrun hbase hround haligned
    split at hrun
    · cases hrun
    · next hroom =>
      obtain ⟨rfl, hsp⟩ := Prod.mk.inj hrun
      obtain rfl : rounded - vectorBytes - 8 = sp := Option.some.inj hsp
      -- the room for the vector and the header is there, so that neither subtraction wraps
      have hsum : (vectorBytes + 8).toNat = vectorBytes.toNat + 8 := by
        rw [UInt32.toNat_add]
        exact Nat.mod_eq_of_lt (show vectorBytes.toNat + 8 < 2 ^ 32 by omega)
      have hfits := (toNat_sub_of_room hbase hroom).2
      have hof : (UInt32.ofNat stackBase).toNat = stackBase := rfl
      rw [hsum, hof] at hfits
      have hoffset : (rounded - vectorBytes).toNat = rounded.toNat - vectorBytes.toNat :=
        UInt32.toNat_sub_of_le _ _ (UInt32.le_iff_toNat_le.mpr (by omega))
      generalize rounded - vectorBytes = vectorOffset at hoffset
      have hsp : (vectorOffset - 8).toNat = vectorOffset.toNat - 8 :=
        UInt32.toNat_sub_of_le _ _ (UInt32.le_iff_toNat_le.mpr (show 8 ≤ vectorOffset.toNat by omega))
      generalize vectorOffset - 8 = sp at hsp
      have hmid : vectorOffset.toNat + 4 * (offsets ++ [0]).length ≤ top.toNat := by
        rw [List.length_append, List.length_singleton]
        omega
      obtain ⟨hwithin, hapart⟩ := append_words hplaced.within hplaced.apart hmid htop
      have hmid' : sp.toNat + 4 * [UInt32.ofNat arguments.length, vectorOffset].length ≤ vectorOffset.toNat := by
        show sp.toNat + 8 ≤ vectorOffset.toNat
        omega
      obtain ⟨hwithin', hapart'⟩ := append_words hwithin hapart hmid' (by omega)
      refine ⟨⟨fun w hw => (hwithin' w hw).mono (by omega) (Nat.le_refl _), hapart', by omega, by omega, by omega⟩, fun m => ?_⟩
      refine ⟨UInt32.ofNat arguments.length, vectorOffset, offsets, ?_, toNat_count hcount, ?_, ?_⟩
      · exact loadWords_putAll hapart' (fun w hw => List.mem_append_right _ hw) m
      · have hlen : (offsets ++ [0]).length = (UInt32.ofNat arguments.length).toNat + 1 := by
          rw [List.length_append, List.length_singleton, hlength, toNat_count hcount]
        rw [← hlen]
        exact loadWords_putAll hapart' (fun w hw => List.mem_append_left _ (List.mem_append_right _ hw)) m
      · exact hplaced.reads (fun w hw => List.mem_append_left _ (List.mem_append_left _ hw)) hapart' m fun _ => rfl

theorem buildLinuxI386Stack_layout (hcount : arguments.length ≤ maxArguments) {imageBias sp : UInt32}
    (hrun : buildLinuxI386Stack arguments imageBias = (writes, some sp)) :
    StackSafe writes (sp - imageBias) ∧ ∀ m, LinuxLayout arguments imageBias (putAll writes m) sp := by
  have hmax : maxArguments = 8 := rfl
  have hbytes : _ = 4 * (arguments.length + 5) := toNat_wordBytes hcount (k := 5) (by decide)
  unfold buildLinuxI386Stack at hrun
  rcases hplace : placeArguments (fun top => imageBias + top) arguments with ⟨strings, _ | ⟨offsets, top⟩⟩
  · rw [hplace] at hrun
    cases hrun
  · simp only [hplace] at hrun
    obtain ⟨hplaced, htop⟩ := placeArguments_placed hplace
    obtain ⟨hbase, hround, haligned⟩ := hplaced.top_rounded
    have hlength := hplaced.length_offsets
    generalize hwords : (UInt32.ofNat arguments.length + 5) * 4 = wordBytes at hrun hbytes
    generalize htop' : top &&& ~~~3 = rounded at hrun hbase hround haligned
    split at hrun
    · cases hrun
    · next hroom =>
      obtain ⟨rfl, hsp⟩ := Prod.mk.inj hrun
      obtain rfl : imageBias + (rounded - wordBytes) = sp := Option.some.inj hsp
      have hback : ∀ at_ : UInt32, imageBias + at_ - imageBias = at_ := fun at_ => by
        rw [UInt32.add_comm, UInt32.add_sub_cancel]
      have hof : (UInt32.ofNat stackBase).toNat = stackBase := rfl
      obtain ⟨hsub, hfits⟩ := toNat_sub_of_room hbase hroom
      rw [hof] at hfits
      generalize rounded - wordBytes = sp at hsub
      have hlen : (UInt32.ofNat arguments.length :: offsets ++ [0, 0, 0, 0]).length = arguments.length + 5 := by
        rw [List.cons_append, List.length_cons, List.length_append, hlength]
        rfl
      have hmid : sp.toNat + 4 * (UInt32.ofNat arguments.length :: offsets ++ [0, 0, 0, 0]).length ≤ top.toNat := by
        rw [hlen]
        omega
      obtain ⟨hwithin, hapart⟩ := append_words hplaced.within hplaced.apart hmid htop
      unfold LinuxLayout
      rw [hback]
      refine ⟨⟨fun w hw => (hwithin w hw).mono (by omega) (Nat.le_refl _), hapart, by omega, by omega, by omega⟩, fun m => ?_⟩
      refine ⟨UInt32.ofNat arguments.length, offsets, ?_, toNat_count hcount, ?_⟩
      · rw [← hlen]
        exact loadWords_putAll hapart (fun w hw => List.mem_append_right _ hw) m
      · exact hplaced.reads (fun w hw => List.mem_append_left _ hw) hapart m hback

theorem dvd_of_bias {imageBias sp : UInt32} (hbias : 4 ∣ imageBias.toNat) (h : 4 ∣ (sp - imageBias).toNat) : 4 ∣ sp.toNat := by
  have hsum : sp.toNat = ((sp - imageBias).toNat + imageBias.toNat) % 2 ^ 32 := by
    rw [← UInt32.toNat_add, UInt32.sub_add_cancel]
  omega

/-- Whenever a stack is built, for at most the greatest number of arguments, what is written is safe and the program reads back its
    arguments. -/
theorem initial_stacks (arguments : List Argument) (hcount : arguments.length ≤ maxArguments) :
    (∀ writes sp, buildInitialStack arguments = (writes, some sp) →
      StackSafe writes sp ∧ ∀ m, NativeLayout arguments (putAll writes m) sp) ∧
    ∀ imageBias writes sp, buildLinuxI386Stack arguments imageBias = (writes, some sp) →
      StackSafe writes (sp - imageBias) ∧ (4 ∣ imageBias.toNat → 4 ∣ sp.toNat) ∧
        ∀ m, LinuxLayout arguments imageBias (putAll writes m) sp := by
  refine ⟨fun writes sp hrun => buildInitialStack_layout hcount hrun, fun imageBias writes sp hrun => ?_⟩
  obtain ⟨hsafe, hlayout⟩ := buildLinuxI386Stack_layout hcount hrun
  exact ⟨hsafe, fun hbias => dvd_of_bias hbias hsafe.aligned, hlayout⟩

def sampleArguments : List Argument := [⟨ascii "ls", by decide, by decide⟩, ⟨ascii "", by decide, by decide⟩]

/-- Both builders succeed on these two arguments. -/
theorem initial_stacks_sample :
    (∃ writes sp, buildInitialStack sampleArguments = (writes, some sp) ∧ StackSafe writes sp ∧
      NativeLayout sampleArguments (putAll writes fun _ => 0xFF) sp) ∧
    ∃ writes sp, buildLinuxI386Stack sampleArguments 0x08048000 = (writes, some sp) ∧ 4 ∣ sp.toNat ∧
      LinuxLayout sampleArguments 0x08048000 (putAll writes fun _ => 0xFF) sp := by
  obtain ⟨hnative, hlinux⟩ := initial_stacks sampleArguments (by decide)
  obtain ⟨hsafe, hlayout⟩ := hnative _ _ rfl
  obtain ⟨_, haligned, hlayout'⟩ := hlinux 0x08048000 _ _ rfl
  exact ⟨⟨_, _, rfl, hsafe, hlayout _⟩, ⟨_, _, rfl, haligned (by decide), hlayout' _⟩⟩

end ZenovOS.Process
