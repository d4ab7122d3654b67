import ZenovOS.Lib.Merkle
import ZenovOS.Security.VerifiedReads
import ZenovOS.Theorems.Security.AuditChain
import ZenovOS.Theorems.Tools.AuditFormat

/-! # The Merkle root of a file

The root that the kernel computes in place is that of the recursive definition, and so is the host's. It binds the path
and the content: with one root for two files the hash has a collision among what was hashed. -/

namespace ZenovOS.Security.Zvrt
open Bytes Merkle Storage

/-! ### The recursive definition -/

/-- A file cut into chunks. -/
def chunks (data : Bytes) : List Bytes :=
  if data = [] then [] else data.take chunkBytes :: chunks (data.drop chunkBytes)
termination_by data.length
decreasing_by
  have hpos : 0 < data.length := List.length_pos_iff.mpr ‹_›
  rw [List.length_drop]
  exact Nat.sub_lt hpos (by decide)

def leafInput (path : Bytes) (fileSize index : Nat) (chunk : Bytes) : Bytes :=
  0 :: UInt8.ofNat path.length :: (path ++ (le 4 fileSize ++ (le 4 index ++ (le 4 chunk.length ++ chunk))))

def parentInput (left right : Bytes) : Bytes := 1 :: (left ++ right)

/-- The tree over the chunks. -/
def merkleTree (path data : Bytes) : Option (Merkle.Tree Bytes) :=
  root Merkle.Tree.node ((chunks data).mapIdx fun index chunk => Merkle.Tree.leaf (leafInput path data.length index chunk))

/-- The leaves are the digests of the chunks, and each level pairs neighbours. -/
def merkleRoot (path data : Bytes) : Option Bytes :=
  root (fun left right => sha256 (parentInput left right))
    ((chunks data).mapIdx fun index chunk => sha256 (leafInput path data.length index chunk))

/-- The byte strings that are hashed for a root. -/
def hashed (path data : Bytes) : List Bytes := (merkleTree path data).elim [] (Merkle.Tree.inputs sha256 parentInput)

/-- What both programs demand of the number of leaves. -/
def Admitted (data : Bytes) (leaves : Nat) : Prop :=
  data ≠ [] ∧ 0 < leaves ∧ leaves ≤ maxLeaves ∧ leaves = (data.length + chunkBytes - 1) / chunkBytes

section Definition
variable {path data : Bytes} {leaves : Nat}

theorem chunks_eq (data : Bytes) :
    chunks data = (List.range ((data.length + 4095) / 4096)).map fun i => slice data (i * 4096) 4096 := by
  induction data using chunks.induct with
  | case1 =>
    rw [chunks, if_pos rfl]
    rfl
  | case2 data hne ih =>
    have hpos : 0 < data.length := List.length_pos_iff.mpr hne
    have hcount : (data.length + 4095) / 4096 = ((data.drop 4096).length + 4095) / 4096 + 1 := by
      rw [List.length_drop]
      omega
    rw [chunks, if_neg hne, ih, hcount, List.range_succ_eq_map, List.map_cons, List.map_map]
    refine congrArg₂ List.cons ?_ (List.map_congr_left fun i _ => ?_)
    · rfl
    · show slice (data.drop 4096) (i * 4096) 4096 = slice data ((i + 1) * 4096) 4096
      rw [slice, slice, List.drop_drop, Nat.succ_mul, Nat.add_comm]

theorem mapIdx_chunks {α : Type} (f : Nat → Bytes → α) (h : leaves = (data.length + chunkBytes - 1) / chunkBytes) :
    (chunks data).mapIdx f = (List.range leaves).map fun i => f i (slice data (i * 4096) 4096) := by
  have hleaves : leaves = (data.length + 4095) / 4096 := h
  rw [chunks_eq, ← hleaves]
  apply List.ext_getElem
  · simp
  · intro i hi hi'
    simp

end Definition

/-! ### The two programs -/

section Programs
variable {path data : Bytes} {leaves : Nat}

theorem parentDigest_eq (left right : Bytes) : parentDigest left right = sha256 (parentInput left right) := by
  have hpieces : [[1], left, right].flatten = parentInput left right := by simp [parentInput]
  rw [parentDigest, Audit.foldl_sha256Update, hpieces, sha256]

theorem leafDigest_eq (hpath : path.length < 256) (fileSize index : Nat) (chunk : Bytes) :
    leafDigest path fileSize index chunk = sha256 (leafInput path fileSize index chunk) := by
  have hlength : path.length % 256 = path.length := Nat.mod_eq_of_lt hpath
  have hpieces : [[0], [UInt8.ofNat path.length], path, le 4 fileSize, le 4 index, le 4 chunk.length, chunk].flatten =
      leafInput path fileSize index chunk := by simp [leafInput]
  rw [leafDigest, hlength, List.take_length, Audit.foldl_sha256Update, hpieces, sha256]

theorem mergeLevels_eq (rounds count : Nat) (nodes : List Bytes) :
    mergeLevels rounds count nodes = levelsInPlace parentDigest [] rounds count nodes := by
  induction rounds generalizing count nodes with
  | zero => rfl
  | succ rounds ih =>
    rw [mergeLevels, levelsInPlace, ih]
    rfl

theorem admitted_iff : Admitted data leaves ↔
    ¬(data = [] ∨ leaves = 0 ∨ maxLeaves < leaves ∨ leaves ≠ (data.length + chunkBytes - 1) / chunkBytes) := by
  rw [not_or, not_or, not_or, Decidable.not_not, Nat.not_lt, Admitted, Nat.pos_iff_ne_zero]

theorem computeRoot_eq (hpath : path.length < 256) (h : Admitted data leaves) : computeRoot path data leaves = merkleRoot path data := by
  have hchecks := admitted_iff.mp h
  obtain ⟨hdata, hpos, hfew, hleaves⟩ := h
  have hlength : ((List.range leaves).map fun i => leafDigest path data.length i (slice data (i * chunkBytes) chunkBytes)).length = leaves := by
    rw [List.length_map, List.length_range]
  have hnodes : ((List.range leaves).map fun i => leafDigest path data.length i (slice data (i * chunkBytes) chunkBytes)) =
      (List.range leaves).map fun i => sha256 (leafInput path data.length i (slice data (i * 4096) 4096)) :=
    List.map_congr_left fun i _ => leafDigest_eq hpath _ _ _
  have hjoin : parentDigest = fun left right => sha256 (parentInput left right) := by
    funext left right
    exact parentDigest_eq left right
  rw [computeRoot, if_neg hchecks]
  dsimp only
  rw [mergeLevels_eq, head?_levelsInPlace hpos (Nat.le_of_eq hlength.symm) hfew, List.take_of_length_le (Nat.le_of_eq hlength), merkleRoot,
    mapIdx_chunks _ hleaves, hjoin, hnodes]

theorem host_parentDigest_eq (left right : Block 32) :
    (ZvrtVerify.parentDigest left right).bytes = sha256 (parentInput left.bytes right.bytes) := by
  have hbuffer : (List.replicate 65 (0 : UInt8)).set 0 1 = [1] ++ List.replicate 32 0 ++ List.replicate 32 0 := by decide
  have hleft : overwrite ([1] ++ List.replicate 32 0 ++ List.replicate 32 0) 1 left.bytes = [1] ++ left.bytes ++ List.replicate 32 0 :=
    overwrite_field rfl (by rw [List.length_replicate, left.length_eq])
  have hright : overwrite ([1] ++ left.bytes ++ List.replicate 32 0) 33 right.bytes = [1] ++ left.bytes ++ right.bytes := by
    have hfield : overwrite ([1] ++ left.bytes ++ List.replicate 32 0 ++ []) 33 right.bytes = [1] ++ left.bytes ++ right.bytes ++ [] :=
      overwrite_field (by simp) (by rw [List.length_replicate, right.length_eq])
    rwa [List.append_nil, List.append_nil] at hfield
  have hinput : [1] ++ left.bytes ++ right.bytes = parentInput left.bytes right.bytes := by simp [parentInput]
  rw [ZvrtVerify.parentDigest, AuditHost.sha256_eq, hbuffer, hleft, hright, hinput]

theorem host_leafDigest_eq (path : Bytes) (fileSize index : Nat) (chunk : Bytes) :
    (ZvrtVerify.leafDigest path fileSize index chunk).bytes = sha256 (leafInput path fileSize index chunk) := by
  have hinput : [0] ++ [UInt8.ofNat path.length] ++ path ++ le 4 fileSize ++ le 4 index ++ le 4 chunk.length ++ chunk =
      leafInput path fileSize index chunk := by simp [leafInput]
  rw [ZvrtVerify.leafDigest, AuditHost.sha256_eq, hinput]

theorem host_mergeLevels_eq (rounds count : Nat) (nodes : List (Block 32)) :
    ZvrtVerify.mergeLevels rounds count nodes = levelsInPlace ZvrtVerify.parentDigest (Block.of []) rounds count nodes := by
  induction rounds generalizing count nodes with
  | zero => rfl
  | succ rounds ih =>
    rw [ZvrtVerify.mergeLevels, levelsInPlace, ih]
    rfl

theorem foldl_set_range {α : Type} (f : Nat → α) (d : α) {k n : Nat} (h : k ≤ n) :
    (List.range k).foldl (fun nodes i => nodes.set i (f i)) (List.replicate n d) = (List.range k).map f ++ List.replicate (n - k) d := by
  induction k with
  | zero => rfl
  | succ k ih =>
    have hrest : List.replicate (n - k) d = d :: List.replicate (n - (k + 1)) d := by
      rw [show n - k = n - (k + 1) + 1 by omega]
      rfl
    rw [List.range_succ, List.foldl_append, ih (by omega), List.foldl_cons, List.foldl_nil, List.set_append_right _ _ (by simp), hrest]
    simp

theorem leafNodes_eq (path data : Bytes) {leaves : Nat} (h : leaves ≤ 16) :
    (ZvrtVerify.leafNodes path data leaves).take leaves =
      (List.range leaves).map fun i => ZvrtVerify.leafDigest path data.length i (slice data (i * 4096) 4096) := by
  have hslice : ∀ i, slice data (i * 4096) (if data.length - i * 4096 < 4096 then data.length - i * 4096 else 4096) =
      slice data (i * 4096) 4096 := by
    intro i
    split
    · have hshort : (data.drop (i * 4096)).length ≤ 4096 := by
        rw [List.length_drop]
        omega
      rw [slice, slice, ← List.length_drop, List.take_length, List.take_of_length_le hshort]
    · rfl
  have hloop := foldl_set_range (fun i => ZvrtVerify.leafDigest path data.length i
    (slice data (i * 4096) (if data.length - i * 4096 < 4096 then data.length - i * 4096 else 4096))) (Block.of []) h
  have hnodes : ZvrtVerify.leafNodes path data leaves = _ := hloop
  rw [hnodes, List.take_append_of_le_length (by simp), List.take_of_length_le (by simp)]
  exact List.map_congr_left fun i _ => by rw [hslice]

theorem host_merkleRoot_eq (h : Admitted data leaves) : (ZvrtVerify.merkleRoot path data leaves).map Block.bytes = merkleRoot path data := by
  have hchecks := admitted_iff.mp h
  obtain ⟨hdata, hpos, hfew, hleaves⟩ := h
  have hlength : leaves ≤ (ZvrtVerify.leafNodes path data leaves).length := by
    have htake := congrArg List.length (leafNodes_eq path data hfew)
    rw [List.length_take, List.length_map, List.length_range] at htake
    omega
  have hroot : ∀ nodes : List (Block 32), (root ZvrtVerify.parentDigest nodes).map Block.bytes =
      root (fun left right => sha256 (parentInput left right)) (nodes.map Block.bytes) :=
    fun nodes => (root_map host_parentDigest_eq nodes).symm
  have hnodes : ((List.range leaves).map fun i => ZvrtVerify.leafDigest path data.length i (slice data (i * 4096) 4096)).map Block.bytes =
      (List.range leaves).map fun i => sha256 (leafInput path data.length i (slice data (i * 4096) 4096)) := by
    rw [List.map_map]
    exact List.map_congr_left fun i _ => host_leafDigest_eq _ _ _ _
  rw [ZvrtVerify.merkleRoot, if_neg hchecks, host_mergeLevels_eq, head?_levelsInPlace hpos hlength hfew, leafNodes_eq path data hfew,
    merkleRoot, mapIdx_chunks _ hleaves, hroot, hnodes]

/-- Both programs compute the recursive root, though they write each level over the one it is read from. -/
theorem roots_recursive (hpath : path.length < 256) (h : Admitted data leaves) :
    ∃ root, merkleRoot path data = some root ∧ computeRoot path data leaves = some root ∧
      (ZvrtVerify.merkleRoot path data leaves).map Block.bytes = some root := by
  have hne : ((chunks data).mapIdx fun index chunk => sha256 (leafInput path data.length index chunk)) ≠ [] := by
    rw [mapIdx_chunks _ h.2.2.2]
    intro hnil
    have hlength := congrArg List.length hnil
    rw [List.length_map, List.length_range] at hlength
    exact absurd h.2.1 (Nat.not_lt.mpr (Nat.le_of_eq hlength))
  obtain ⟨root, hroot⟩ := root_ne_none hne
  exact ⟨root, hroot, (computeRoot_eq hpath h).trans hroot, (host_merkleRoot_eq h).trans hroot⟩

theorem roots_recursive_sample :
    ∃ root, merkleRoot (ascii "/a") (List.replicate 9000 7) = some root ∧ computeRoot (ascii "/a") (List.replicate 9000 7) 3 = some root ∧
      (ZvrtVerify.merkleRoot (ascii "/a") (List.replicate 9000 7) 3).map Block.bytes = some root :=
  have hlength : (List.replicate 9000 (7 : UInt8)).length = 9000 := List.length_replicate
  roots_recursive (by decide) ⟨fun h => (by rw [h] at hlength; cases hlength), by decide, by decide, by rw [hlength]; decide⟩

end Programs

/-! ### Binding -/

section Binding
variable {path path' data data' : Bytes} {leaves leaves' : Nat}

theorem admitted_of_computeRoot {digest : Bytes} (h : computeRoot path data leaves = some digest) : Admitted data leaves := by
  rw [admitted_iff]
  intro hrefused
  rw [computeRoot, if_pos hrefused] at h
  cases h

theorem merkleRoot_eq_tree (path data : Bytes) :
    merkleRoot path data = (merkleTree path data).map fun t => sha256 (t.input sha256 parentInput) := by
  have hjoin : ∀ t u : Merkle.Tree Bytes, sha256 ((Merkle.Tree.node t u).input sha256 parentInput) =
      (fun left right => sha256 (parentInput left right)) (sha256 (t.input sha256 parentInput)) (sha256 (u.input sha256 parentInput)) :=
    fun _ _ => rfl
  have hleaf : ((chunks data).mapIdx fun index chunk => Merkle.Tree.leaf (leafInput path data.length index chunk)).map
      (fun t => sha256 (t.input sha256 parentInput)) = (chunks data).mapIdx fun index chunk => sha256 (leafInput path data.length index chunk) := by
    apply List.ext_getElem
    · simp
    · intro i hi hi'
      rw [List.getElem_map, List.getElem_mapIdx, List.getElem_mapIdx]
      rfl
  have hmap : ∀ nodes : List (Merkle.Tree Bytes), root (fun left right => sha256 (parentInput left right))
      (nodes.map fun t => sha256 (t.input sha256 parentInput)) = (root Merkle.Tree.node nodes).map fun t => sha256 (t.input sha256 parentInput) :=
    root_map hjoin
  rw [merkleTree, ← hmap, hleaf, merkleRoot]

theorem leafInput_inj {size size' i j : Nat} {chunk chunk' : Bytes} (hpath : path.length < 48) (hpath' : path'.length < 48)
    (hsize : size < 2 ^ 32) (hsize' : size' < 2 ^ 32) (hi : i < 2 ^ 32) (hj : j < 2 ^ 32)
    (h : leafInput path size i chunk = leafInput path' size' j chunk') : path = path' ∧ size = size' ∧ i = j ∧ chunk = chunk' := by
  have hbyte : UInt8.ofNat path.length = UInt8.ofNat path'.length := (List.cons.inj (List.cons.inj h).2).1
  have hrest := (List.cons.inj (List.cons.inj h).2).2
  have hlength : path.length = path'.length := by
    have hnat := congrArg UInt8.toNat hbyte
    have hmod : ∀ n, (UInt8.ofNat n).toNat = n % 256 := fun n => rfl
    rw [hmod, hmod] at hnat
    omega
  obtain ⟨hpaths, hrest⟩ := List.append_inj hrest hlength
  obtain ⟨hsizes, hrest⟩ := List.append_inj hrest (by rw [length_le, length_le])
  obtain ⟨hindices, hrest⟩ := List.append_inj hrest (by rw [length_le, length_le])
  obtain ⟨-, hchunks⟩ := List.append_inj hrest (by rw [length_le, length_le])
  have hnumber : ∀ m n, m < 2 ^ 32 → n < 2 ^ 32 → le 4 m = le 4 n → m = n := by
    intro m n hm hn hle
    rw [← toNat_le_of_lt (show m < 256 ^ 4 by omega), hle, toNat_le_of_lt (show n < 256 ^ 4 by omega)]
  exact ⟨hpaths, hnumber _ _ hsize hsize' hsizes, hnumber _ _ hi hj hindices, hchunks⟩

theorem parentInput_inj (a b c d : Bytes) (h : parentInput (sha256 a) (sha256 b) = parentInput (sha256 c) (sha256 d)) :
    sha256 a = sha256 c ∧ sha256 b = sha256 d :=
  List.append_inj (List.cons.inj h).2 (by rw [length_sha256, length_sha256])

theorem leafInput_ne_parentInput (size i : Nat) (chunk left right : Bytes) : leafInput path size i chunk ≠ parentInput left right :=
  fun h => absurd (List.cons.inj h).1 (by decide)

theorem mem_leaves_merkleTree {t : Merkle.Tree Bytes} (ht : merkleTree path data = some t) (h : Admitted data leaves) {a : Bytes} :
    a ∈ t.leaves ↔ ∃ i < leaves, a = leafInput path data.length i (slice data (i * 4096) 4096) := by
  rw [Merkle.Tree.mem_leaves_root ht, mapIdx_chunks _ h.2.2.2]
  constructor
  · rintro ⟨u, hu, ha⟩
    obtain ⟨i, hi, rfl⟩ := List.mem_map.mp hu
    exact ⟨i, List.mem_range.mp hi, List.mem_singleton.mp ha⟩
  · rintro ⟨i, hi, rfl⟩
    exact ⟨_, List.mem_map.mpr ⟨i, List.mem_range.mpr hi, rfl⟩, List.mem_singleton.mpr rfl⟩

theorem eq_of_chunks (hlength : data.length = data'.length)
    (h : ∀ i, i * 4096 < data.length → slice data (i * 4096) 4096 = slice data' (i * 4096) 4096) : data = data' := by
  apply List.ext_getElem hlength
  intro k hk hk'
  have hslice := h (k / 4096) (by omega)
  have hposition : k / 4096 * 4096 + k % 4096 = k := by omega
  have hbyte : data.getD (k / 4096 * 4096 + k % 4096) 0 = data'.getD (k / 4096 * 4096 + k % 4096) 0 := by
    rw [← getD_slice (Nat.mod_lt k (by omega)), hslice, getD_slice (Nat.mod_lt k (by omega))]
  rw [hposition] at hbyte
  rw [List.getElem_eq_getD 0, List.getElem_eq_getD 0, hbyte]

/-- Two files with one root are one file, or among what was hashed for them are two byte strings with one digest. -/
theorem computeRoot_binds {digest : Bytes} (hpath : path.length < 48) (hpath' : path'.length < 48)
    (h : computeRoot path data leaves = some digest) (h' : computeRoot path' data' leaves' = some digest) :
    path = path' ∧ data = data' ∨ ∃ a ∈ hashed path data, ∃ b ∈ hashed path' data', a ≠ b ∧ sha256 a = sha256 b := by
  have hadmitted := admitted_of_computeRoot h
  have hadmitted' := admitted_of_computeRoot h'
  rw [computeRoot_eq (by omega) hadmitted, merkleRoot_eq_tree] at h
  rw [computeRoot_eq (by omega) hadmitted', merkleRoot_eq_tree] at h'
  obtain ⟨t, ht, htop⟩ := Option.map_eq_some_iff.mp h
  obtain ⟨t', ht', htop'⟩ := Option.map_eq_some_iff.mp h'
  have hleaves := fun a => mem_leaves_merkleTree ht hadmitted (a := a)
  have hleaves' := fun a => mem_leaves_merkleTree ht' hadmitted' (a := a)
  have hseparate : ∀ a ∈ t.leaves, ∀ x y, a ≠ parentInput x y := by
    intro a ha x y
    obtain ⟨i, -, rfl⟩ := (hleaves a).mp ha
    exact leafInput_ne_parentInput _ _ _ _ _
  have hseparate' : ∀ a ∈ t'.leaves, ∀ x y, a ≠ parentInput x y := by
    intro a ha x y
    obtain ⟨i, -, rfl⟩ := (hleaves' a).mp ha
    exact leafInput_ne_parentInput _ _ _ _ _
  rcases Merkle.Tree.leaves_eq_or_collide parentInput_inj hseparate hseparate' (htop.trans htop'.symm) with hsame | hcollide
  · left
    obtain ⟨-, hpos, hfew, hcount⟩ : data ≠ [] ∧ 0 < leaves ∧ leaves ≤ 16 ∧ leaves = (data.length + 4095) / 4096 := hadmitted
    obtain ⟨-, -, hfew', hcount'⟩ : data' ≠ [] ∧ 0 < leaves' ∧ leaves' ≤ 16 ∧ leaves' = (data'.length + 4095) / 4096 := hadmitted'
    -- every chunk of one file is a leaf of the other file's tree
    have hchunk : ∀ i < leaves, path = path' ∧ data.length = data'.length ∧
        slice data (i * 4096) 4096 = slice data' (i * 4096) 4096 := by
      intro i hi
      have hmem := (hleaves _).mpr ⟨i, hi, rfl⟩
      rw [hsame] at hmem
      obtain ⟨j, hj, hinput⟩ := (hleaves' _).mp hmem
      obtain ⟨hpaths, hsizes, rfl, hslices⟩ := leafInput_inj hpath hpath' (by omega) (by omega) (by omega) (by omega) hinput
      exact ⟨hpaths, hsizes, hslices⟩
    obtain ⟨hpaths, hsizes, -⟩ := hchunk 0 hpos
    refine ⟨hpaths, eq_of_chunks hsizes fun i hi => (hchunk i (by omega)).2.2⟩
  · right
    have hhashed : hashed path data = t.inputs sha256 parentInput := by rw [hashed, ht]; rfl
    have hhashed' : hashed path' data' = t'.inputs sha256 parentInput := by rw [hashed, ht']; rfl
    rw [hhashed, hhashed']
    exact hcollide

theorem computeRoot_binds_sample :
    ∃ digest, computeRoot (ascii "/a") [7] 1 = some digest ∧
      (ascii "/a" = ascii "/a" ∧ ([7] : Bytes) = [7] ∨
        ∃ a ∈ hashed (ascii "/a") [7], ∃ b ∈ hashed (ascii "/a") [7], a ≠ b ∧ sha256 a = sha256 b) := by
  have hroot : computeRoot (ascii "/a") [7] 1 = some (leafDigest (ascii "/a") 1 0 [7]) := by
    rw [computeRoot, if_neg (by decide)]
    rfl
  exact ⟨_, hroot, computeRoot_binds (by decide) (by decide) hroot hroot⟩

end Binding

end ZenovOS.Security.Zvrt
