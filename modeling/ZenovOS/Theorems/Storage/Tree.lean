import ZenovOS.Storage.Tools
import ZenovOS.Theorems.Storage.Crash
import Mathlib.Data.List.GetD

/-! # The directory tree of a table

A table is a tree when every entry in use is well formed, has a path of its own, and lies in the root or
in a directory of the table. This file holds the invariant and the changes of the table that keep it:
putting an entry in (in place of a file of its path), taking one out, and giving one another path. -/

namespace ZenovOS.Storage
open Bytes Mach Volume

/-- An entry in use is what the integrity check asks of it, its place in the tree aside. -/
structure WellFormed (max : Nat) (e : ZfsEntry) : Prop where
  kind : e.type = zfsTypeFile ∨ e.type = zfsTypeDirectory
  flags : e.flags = 0
  valid : validStoredPath e.name = true
  directory : e.type = zfsTypeDirectory → e.size = 0 ∧ e.checksum = 0
  file : e.type = zfsTypeFile → e.size.toNat ≤ max

/-- The path lies in the root or in a directory of the table. -/
def HasParent (n : Nat) (t : Nat → ZfsEntry) (path : Bytes) : Prop :=
  ∀ parent, parentPath path = some parent → parent ≠ root →
    ∃ i < n, (t i).used ≠ 0 ∧ (t i).type = zfsTypeDirectory ∧ (t i).name = parent

structure Tree (n max : Nat) (t : Nat → ZfsEntry) : Prop where
  wellFormed : ∀ i < n, (t i).used ≠ 0 → WellFormed max (t i)
  parent : ∀ i < n, (t i).used ≠ 0 → HasParent n t (t i).name
  distinct : ∀ i < n, ∀ j < n, (t i).used ≠ 0 → (t j).used ≠ 0 → (t i).name = (t j).name → i = j

theorem zfsTypeFile_ne_directory : zfsTypeFile ≠ zfsTypeDirectory := by decide

variable {n max : Nat} {t t' : Nat → ZfsEntry}

theorem WellFormed.settled {e : ZfsEntry} (h : e.used ≠ 0 → WellFormed max e) : Settled e := by
  by_cases hu : e.used = 0
  · exact ⟨isTransaction_of_unused hu, isCommitted_of_unused hu⟩
  · have hw := h hu
    have hne : e.type ≠ zfsTypeTransaction := by
      rcases hw.kind with hk | hk <;> rw [hk] <;> decide
    exact ⟨by simp [ZfsEntry.isTransaction, hne], by simp [ZfsEntry.isCommitted, hw.flags]⟩

theorem Tree.settled (h : Tree n max t) {i : Nat} (hi : i < n) : Settled (t i) := WellFormed.settled (h.wellFormed i hi)

theorem Tree.visible (h : Tree n max t) {i : Nat} (hi : i < n) : (t i).visible = true ↔ (t i).used ≠ 0 := (h.settled hi).visible

theorem Tree.distinctPaths (h : Tree n max t) : Distinct n t :=
  fun i hi j hj hvi hvj => h.distinct i hi j hj (used_of_visible hvi) (used_of_visible hvj)

theorem Tree.congr (h : Tree n max t) (ht : ∀ i < n, t' i = t i) : Tree n max t' where
  wellFormed i hi hu := by
    rw [ht i hi] at hu ⊢
    exact h.wellFormed i hi hu
  parent i hi hu := by
    rw [ht i hi] at hu ⊢
    intro parent hp hr
    obtain ⟨j, hj, hd⟩ := h.parent i hi hu parent hp hr
    exact ⟨j, hj, by rwa [ht j hj]⟩
  distinct i hi j hj hui huj hn := by
    rw [ht i hi] at hui hn
    rw [ht j hj] at huj hn
    exact h.distinct i hi j hj hui huj hn

/-! ### Putting an entry in -/

theorem HasParent.put {s : Nat} {o : Option Nat} {e : ZfsEntry} {path : Bytes} (hfree : (t s).used = 0)
    (ho : ∀ i, o = some i → (t i).type = zfsTypeFile) (h : HasParent n t path) :
    HasParent n (Function.update (clearAt o t) s e) path := by
  intro parent hp hr
  obtain ⟨j, hj, hu, hd, hn⟩ := h parent hp hr
  have hjs : j ≠ s := by
    rintro rfl
    exact hu hfree
  have hjo : some j ≠ o := by
    intro hjo
    rw [ho j hjo.symm] at hd
    exact zfsTypeFile_ne_directory hd
  refine ⟨j, hj, ?_⟩
  rw [Function.update_of_ne hjs, clearAt_of_ne hjo]
  exact ⟨hu, hd, hn⟩

/-- Put the entry `e` into the free entry `s`, in place of the file `o` of its path if there is one. -/
theorem Tree.put {s : Nat} {o : Option Nat} {e : ZfsEntry} (h : Tree n max t) (hfree : (t s).used = 0)
    (ho : ∀ i, o = some i → (t i).type = zfsTypeFile) (hpath : ∀ i < n, (t i).used ≠ 0 → (t i).name = e.name → o = some i)
    (he : WellFormed max e) (hp : HasParent n t e.name) : Tree n max (Function.update (clearAt o t) s e) := by
  have hother : ∀ i, i ≠ s → (Function.update (clearAt o t) s e i).used ≠ 0 →
      Function.update (clearAt o t) s e i = t i ∧ o ≠ some i := by
    intro i his hu
    rw [Function.update_of_ne his] at hu ⊢
    have hio : some i ≠ o := by
      intro hio
      rw [clearAt_old hio.symm] at hu
      exact hu rfl
    exact ⟨clearAt_of_ne hio t, hio.symm⟩
  have hname : ∀ i < n, i ≠ s → (Function.update (clearAt o t) s e i).used ≠ 0 →
      (Function.update (clearAt o t) s e i).name ≠ e.name := by
    intro i hi his hu hn
    obtain ⟨heq, hio⟩ := hother i his hu
    rw [heq] at hu hn
    exact hio (hpath i hi hu hn)
  refine ⟨fun i hi hu => ?_, fun i hi hu => ?_, fun i hi j hj hui huj hn => ?_⟩
  · by_cases his : i = s
    · subst his
      rwa [Function.update_self]
    · have heq := (hother i his hu).1
      rw [heq] at hu ⊢
      exact h.wellFormed i hi hu
  · refine HasParent.put hfree ho ?_
    by_cases his : i = s
    · subst his
      rwa [Function.update_self]
    · have heq := (hother i his hu).1
      rw [heq] at hu ⊢
      exact h.parent i hi hu
  · by_cases his : i = s
    · subst his
      by_contra hne
      exact hname j hj (Ne.symm hne) huj (by rw [← hn, Function.update_self])
    · by_cases hjs : j = s
      · subst hjs
        exact absurd (by rw [hn, Function.update_self]) (hname i hi his hui)
      · have hi' := (hother i his hui).1
        have hj' := (hother j hjs huj).1
        rw [hi'] at hui hn
        rw [hj'] at huj hn
        exact h.distinct i hi j hj hui huj hn

/-! ### Taking an entry out and moving it -/

/-- No entry lies in the directory `path`. -/
def NoChild (n : Nat) (t : Nat → ZfsEntry) (path : Bytes) : Prop :=
  ∀ i < n, (t i).used ≠ 0 → parentPath (t i).name ≠ some path

theorem HasParent.update {i : Nat} {e : ZfsEntry} {path : Bytes} (h : HasParent n t path)
    (hp : parentPath path ≠ some (t i).name) : HasParent n (Function.update t i e) path := by
  intro parent hparent hr
  obtain ⟨j, hj, hu, hd, hn⟩ := h parent hparent hr
  have hji : j ≠ i := by
    rintro rfl
    exact hp (by rw [hparent, hn])
  exact ⟨j, hj, by rw [Function.update_of_ne hji]; exact ⟨hu, hd, hn⟩⟩

theorem Tree.remove {i : Nat} (h : Tree n max t) (hc : NoChild n t (t i).name) :
    Tree n max (Function.update t i .empty) := by
  have hother : ∀ j, (Function.update t i .empty j).used ≠ 0 → Function.update t i .empty j = t j := by
    intro j hu
    by_cases hji : j = i
    · subst hji
      rw [Function.update_self] at hu
      exact absurd rfl hu
    · exact Function.update_of_ne hji _ _
  refine ⟨fun j hj hu => ?_, fun j hj hu => ?_, fun j hj k hk huj huk hn => ?_⟩
  · have heq := hother j hu
    rw [heq] at hu ⊢
    exact h.wellFormed j hj hu
  · have heq := hother j hu
    rw [heq] at hu ⊢
    exact (h.parent j hj hu).update (hc j hj hu)
  · have hj' := hother j huj
    have hk' := hother k huk
    rw [hj'] at huj hn
    rw [hk'] at huk hn
    exact h.distinct j hj k hk huj huk hn

theorem Tree.move {i : Nat} {e : ZfsEntry} (h : Tree n max t) (hc : NoChild n t (t i).name) (he : WellFormed max e)
    (hnew : ∀ j < n, (t j).used ≠ 0 → (t j).name ≠ e.name) (hp : HasParent n t e.name)
    (hself : parentPath e.name ≠ some (t i).name) : Tree n max (Function.update t i e) := by
  refine ⟨fun j hj hu => ?_, fun j hj hu => ?_, fun j hj k hk huj huk hn => ?_⟩
  · by_cases hji : j = i
    · subst hji
      rwa [Function.update_self]
    · rw [Function.update_of_ne hji] at hu ⊢
      exact h.wellFormed j hj hu
  · by_cases hji : j = i
    · subst hji
      rw [Function.update_self]
      exact hp.update hself
    · rw [Function.update_of_ne hji] at hu ⊢
      exact (h.parent j hj hu).update (hc j hj hu)
  · by_cases hji : j = i
    · by_cases hki : k = i
      · rw [hji, hki]
      · rw [hji, Function.update_self, Function.update_of_ne hki] at hn
        rw [Function.update_of_ne hki] at huk
        exact absurd hn.symm (hnew k hk huk)
    · rw [Function.update_of_ne hji] at huj hn
      by_cases hki : k = i
      · rw [hki, Function.update_self] at hn
        exact absurd hn (hnew j hj huj)
      · rw [Function.update_of_ne hki] at huk hn
        exact h.distinct j hj k hk huj huk hn

/-! ### Paths of the tree -/

theorem validStoredPath_parts {path : Bytes} (h : validStoredPath path = true) :
    path.head? = some slash ∧ 2 ≤ path.length ∧ path.length < 48 ∧ path.getLast? ≠ some slash := by
  unfold validStoredPath at h
  simp only [Bool.and_eq_true, decide_eq_true_eq] at h
  exact ⟨h.1.1.1.1.1, h.1.1.1.1.2, h.1.1.1.2, h.1.1.2⟩

theorem parentPath_split {path parent : Bytes} (hv : validStoredPath path = true) (h : parentPath path = some parent)
    (hr : parent ≠ root) : ∃ c, c ≠ [] ∧ path = parent ++ slash :: c := by
  obtain ⟨-, -, hlen, hlast⟩ := validStoredPath_parts hv
  unfold parentPath at h
  split at h
  · cases h
  · rw [pathCopy, if_pos hlen] at h
    simp only [Option.bind_eq_bind, Option.bind_some, Option.some.injEq] at h
    split at h
    · exact absurd h.symm hr
    · have hne : path.rdropWhile (· != slash) ≠ [] := by
        rintro hnil
        simp_all
      have hend := List.rdropWhile_last_not (· != slash) path hne
      have hkept : path.rdropWhile (· != slash) = parent ++ [slash] := by
        rw [← h]
        conv_lhs => rw [← List.dropLast_append_getLast hne]
        congr 2
        simpa using hend
      obtain ⟨c, hc⟩ := List.rdropWhile_prefix (· != slash) path
      rw [hkept] at hc
      refine ⟨c, ?_, by rw [← hc]; simp⟩
      rintro rfl
      rw [← hc] at hlast
      simp at hlast

theorem charAt_of_lt {e : ZfsEntry} {k : Nat} (h : k < e.name.length) : e.charAt k = e.name.getD k 0 := by
  obtain ⟨rest, hrest⟩ := List.takeWhile_prefix (p := (· != 0)) (l := e.path.bytes)
  unfold ZfsEntry.charAt ZfsEntry.name cstr at *
  conv_lhs => rw [← hrest, List.append_assoc]
  exact List.getD_append _ _ _ _ h

theorem noChild_of_hasChildren {v : Volume} {path : Bytes} (ht : Tree v.zfsSuper.entries max v.zfsEntries)
    (hr : path ≠ root) (h : v.hasChildren path = false) : NoChild v.zfsSuper.entries v.zfsEntries path := by
  intro i hi hu hparent
  obtain ⟨c, hc, hname⟩ := parentPath_split (ht.wellFormed i hi hu).valid hparent hr
  have hpre : path.isPrefixOf (v.zfsEntries i).name = true := by
    rw [hname, List.isPrefixOf_iff_prefix]
    exact List.prefix_append _ _
  obtain ⟨b, c, rfl⟩ := List.exists_cons_of_ne_nil hc
  have hlen : (v.zfsEntries i).name.length = path.length + (c.length + 2) := by
    rw [hname]
    simp
  have hslash : (v.zfsEntries i).charAt path.length = slash := by
    rw [charAt_of_lt (by omega), hname]
    simp
  have hmore : (v.zfsEntries i).charAt (path.length + 1) ≠ 0 := by
    rw [charAt_of_lt (by omega)]
    have hb : (v.zfsEntries i).name.getD (path.length + 1) 0 = b := by
      rw [hname, List.getD_append_right _ _ _ _ (by omega)]
      simp
    rw [hb]
    rintro rfl
    exact zero_notMem_cstr _ (by rw [show cstr _ = (v.zfsEntries i).name from rfl, hname]; simp)
  have hany : v.hasChildren path = true := by
    unfold Volume.hasChildren
    rw [List.any_eq_true]
    exact ⟨i, List.mem_range.mpr hi, by simp [(ht.visible hi).mpr hu, hpre, hslash, hmore]⟩
  rw [hany] at h
  exact Bool.noConfusion h

theorem parentExists_iff {v : Volume} {path : Bytes} (hl : v.Laid) (ht : Tree v.zfsSuper.entries max v.zfsEntries) :
    v.parentExists path = true ↔ HasParent v.zfsSuper.entries v.zfsEntries path := by
  unfold Volume.parentExists HasParent
  rcases hp : parentPath path with _ | parent
  · simp
  simp only [Option.some.injEq, forall_eq', Bool.or_eq_true, decide_eq_true_eq]
  constructor
  · rintro (h | h) hr
    · exact absurd h hr
    · rcases hf : v.findEntry parent with _ | i
      · simp [hf] at h
      · obtain ⟨hi, hv, hn⟩ := findEntry_some hf
        exact ⟨i, hi, used_of_visible hv, by simpa [hf] using h, hn⟩
  · intro h
    by_cases hr : parent = root
    · exact .inl hr
    · obtain ⟨i, hi, hu, hd, hn⟩ := h hr
      rw [findEntry_eq hl ht.distinctPaths hi ((ht.visible hi).mpr hu) hn]
      exact .inr (by simpa using hd)

theorem noDoubleSlash_append {x rest : Bytes} (hx : slash ∉ x) (hr : noDoubleSlash rest = true) :
    noDoubleSlash (x ++ rest) = true := by
  induction x with
  | nil => exact hr
  | cons a x ih =>
    simp only [List.mem_cons, not_or] at hx
    have := ih hx.2
    rw [List.cons_append]
    cases hxr : x ++ rest with
    | nil => rfl
    | cons b r =>
      rw [hxr] at this
      simp [noDoubleSlash, this, Ne.symm hx.1]

theorem noDoubleSlash_flatMap {cs : List Bytes} (h : ∀ c ∈ cs, Clean c) :
    noDoubleSlash (cs.flatMap (slash :: ·)) = true := by
  induction cs with
  | nil => rfl
  | cons c cs ih =>
    have hc := h c (List.mem_cons_self ..)
    have hrest := noDoubleSlash_append hc.noSlash (ih fun d hd => h d (List.mem_cons_of_mem _ hd))
    rw [List.flatMap_cons]
    obtain ⟨b, c, rfl⟩ := List.exists_cons_of_ne_nil hc.nonempty
    have hb : b ≠ slash := by
      rintro rfl
      exact hc.noSlash (List.mem_cons_self ..)
    simp only [List.cons_append] at hrest ⊢
    simp [noDoubleSlash, hrest, hb]

/-- A path that `normalize_path` returns is a valid stored path when its bytes are printable. -/
theorem validStoredPath_normal {currentDirectory input path : Bytes} (h : normalizePath currentDirectory input = some path)
    (hr : path ≠ root) (hp : path.all printable = true) : validStoredPath path = true := by
  obtain ⟨cs, hn, rfl⟩ := normalizePath_normalForm h
  have hcs : cs ≠ [] := by
    rintro rfl
    exact hr rfl
  have hlen := hn.fits
  rcases List.eq_nil_or_concat cs with rfl | ⟨ds, c, rfl⟩
  · exact absurd rfl hcs
  rw [List.concat_eq_append] at *
  have hc := hn.clean c (by simp)
  obtain ⟨ys, b, rfl⟩ := List.eq_nil_or_concat c |>.resolve_left hc.nonempty
  have hb : b ≠ slash := by
    rintro rfl
    exact hc.noSlash (by simp)
  have hlast : (render (ds ++ [ys.concat b])).getLast? = some b := by
    rw [render_snoc, List.concat_eq_append, ← List.append_assoc, List.getLast?_concat]
  have htwo : 2 ≤ (render (ds ++ [ys.concat b])).length := by
    rw [length_render_snoc, List.concat_eq_append, List.length_append, List.length_singleton]
    split <;> omega
  have hhead : (render (ds ++ [ys.concat b])).head? = some slash := by
    rw [render_of_ne_nil (by simp)]
    cases ds <;> rfl
  have hdouble : noDoubleSlash (render (ds ++ [ys.concat b])) = true := by
    rw [render_of_ne_nil (by simp)]
    exact noDoubleSlash_flatMap hn.clean
  unfold validStoredPath
  simp only [hhead, htwo, hlast, hp, hdouble, Bool.and_eq_true, decide_eq_true_eq, and_true, true_and]
  exact ⟨hlen, fun heq => hb (Option.some.inj heq)⟩

end ZenovOS.Storage
