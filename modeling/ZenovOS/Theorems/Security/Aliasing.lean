import Mathlib.Data.List.GetD
import ZenovOS.Theorems.Security.Severity

/-! # Inspection in place

An unpacked entry is inspected in the buffer that it stands in, and the same buffer takes what is decoded
from it. A decoding never writes ahead of what it reads, so each decoding by itself gives the same bytes as
it would into another buffer; but it leaves them over the beginning of the entry, and the scans that come
after it read those. -/

namespace ZenovOS.Security.Inspection
open Bytes

/-! ### Decoding in place -/

theorem Decoder.take_eq {d next : Decoder} {value : UInt8} (h : d.take value = some next) :
    d.quartet.length < 4 ∧ next.quartet.length = d.quartet.length + 1 ∧ next.outputSize = d.outputSize := by
  unfold Decoder.take at h
  split at h
  · cases h
  · rename_i hroom
    have hlt : d.quartet.length < 4 := Nat.lt_of_not_le fun hc => hroom (.inr hc)
    split at h
    · cases h
      exact ⟨hlt, by simp, rfl⟩
    · split at h
      · cases h
      · split at h
        · cases h
        · cases h
          exact ⟨hlt, by simp, rfl⟩

theorem Workspace.write_append (w : Workspace) (id : BufferId) (offset : Nat) (first second : Bytes) :
    (w.write id offset first).write id (offset + first.length) second = w.write id offset (first ++ second) := by
  funext other i
  unfold Workspace.write
  by_cases hid : other = id
  · subst hid
    simp only [Function.update_self, List.length_append]
    by_cases h₂ : offset + first.length ≤ i ∧ i < offset + first.length + second.length
    · rw [if_pos h₂, if_pos (by omega), List.getD_append_right _ _ _ _ (by omega)]
      congr 1
      omega
    · rw [if_neg h₂]
      by_cases h₁ : offset ≤ i ∧ i < offset + first.length
      · rw [if_pos h₁, if_pos (by omega), List.getD_append _ _ _ _ (by omega)]
      · rw [if_neg h₁, if_neg (by omega)]
  · simp only [Function.update_of_ne hid]

theorem Workspace.bytes_take {w : Workspace} {content : Bytes} {region : Region} {n : Nat} (h : n ≤ region.size) :
    w.bytes content ⟨region.source, n⟩ = (w.bytes content region).take n := by
  unfold Workspace.bytes
  rw [← List.map_take, List.take_range, Nat.min_eq_left h]

/-- The bytes of a region after the beginning of a buffer was written, which may be the region's own. -/
def overlay (aliased : Bool) (q front : Bytes) : Bytes := if aliased then front ++ q.drop front.length else q

/-- Only one buffer has changed. -/
def Frame (scratch : BufferId) (w w' : Workspace) : Prop := ∀ id, id ≠ scratch → w' id = w id

theorem Frame.refl (scratch : BufferId) (w : Workspace) : Frame scratch w w := fun _ _ => rfl

theorem Frame.trans {scratch : BufferId} {w w' w'' : Workspace} (h : Frame scratch w w') (h' : Frame scratch w' w'') :
    Frame scratch w w'' :=
  fun id hid => (h' id hid).trans (h id hid)

theorem Frame.bytes {scratch : BufferId} {w w' : Workspace} (h : Frame scratch w w') {content : Bytes} {region : Region}
    (hsource : region.source ≠ .buffer scratch) : w'.bytes content region = w.bytes content region := by
  unfold Workspace.bytes
  refine List.map_congr_left fun i _ => ?_
  cases hs : region.source with
  | content => rfl
  | buffer id =>
    have hid : id ≠ scratch := fun hc => hsource (by rw [hs, hc])
    exact congrFun (h id hid) i

/-! ### Runs of the pieces -/

/-- A run ends with `out`, and leaves the buffers in a state with `post` if it goes on. -/
def Runs (m : Inspect Unit) (env : Env) (w : Workspace) (out : Except Stop Unit) (post : Workspace → Prop) : Prop :=
  match (m env w).2 with
  | .error stop => out = .error stop
  | .ok (_, w') => out = .ok () ∧ post w'

section Rules
variable {m n : Inspect Unit} {env : Env} {w : Workspace} {out out' : Except Stop Unit} {mid post : Workspace → Prop}

theorem Runs.mono (h : Runs m env w out mid) (hpost : ∀ w', mid w' → post w') : Runs m env w out post := by
  unfold Runs at h ⊢
  split
  · rename_i hr
    rw [hr] at h
    exact h
  · rename_i hr
    rw [hr] at h
    exact ⟨h.1, hpost _ h.2⟩

theorem Runs.bind (hm : Runs m env w out mid) (hn : ∀ w', mid w' → Runs n env w' out' post) :
    Runs (m >>= fun _ => n) env w (do out; out') post := by
  have hbind : ((m >>= fun _ => n) env w).2 = match (m env w).2 with
      | .error stop => .error stop
      | .ok (_, w') => (n env w').2 := by
    show (Inspect.andThen m (fun _ => n) env w).2 = _
    unfold Inspect.andThen
    rcases m env w with ⟨views, _ | ⟨_, w'⟩⟩ <;> rfl
  unfold Runs at hm
  unfold Runs
  rw [hbind]
  cases hr : (m env w).2 with
  | error stop =>
    rw [hr] at hm
    dsimp only at hm
    rw [hm]
    rfl
  | ok p =>
    obtain ⟨_, w'⟩ := p
    rw [hr] at hm
    obtain ⟨hout, hmid⟩ := hm
    rw [hout]
    exact hn w' hmid

end Rules

/-! ### What the pieces do to bytes

The functions of this part are over byte strings alone: how each piece of an inspection ends, and what it
leaves at the beginning of the scratch buffer. -/

section Outcomes
variable (classify : View → Option Match)

/-- The token at `cursor`, and whether it is long enough and not the whole. -/
def tokenAt (q : Bytes) (cursor : Nat) : Bytes × Bool :=
  let token := nextToken q cursor
  let size := token.2 - token.1
  (slice q token.1 size, 16 ≤ size && size ≠ q.length)

end Outcomes

section Pieces
variable {inner : Inspector} {env : Env} {w : Workspace} {scratch : BufferId} {alternate : Option BufferId}
  {region : Region} {q : Bytes}

end Pieces

/-! ### The scratch buffer beside the data and over it -/

end ZenovOS.Security.Inspection
