import ZenovOS.Theorems.Tools.Zenpkg.Kernel

/-! # Entrypoints of packages

The kernel joins name and version of a package with a hyphen, which both may contain. Two manifests have one
entrypoint without being of one package and version exactly when a part of the version can be moved to the name. -/

namespace ZenovOS.Package
open Bytes Zenpkg

/-- The name of `m'` is that of `m` with a part of its version, up to a hyphen. -/
def Extends (m m' : Manifest) : Prop :=
  ∃ part, m'.name = m.name ++ ascii "-" ++ part ∧ m.version = part ++ ascii "-" ++ m'.version

/-- Two manifests of one payload type whose names and versions are joined to one text at different hyphens. -/
def Shifted (m m' : Manifest) : Prop := m.payloadType = m'.payloadType ∧ (Extends m m' ∨ Extends m' m)

theorem join_eq {name version name' version' : Bytes} (h : name ++ ascii "-" ++ version = name' ++ ascii "-" ++ version') :
    (name = name' ∧ version = version') ∨ (∃ part, name' = name ++ ascii "-" ++ part ∧ version = part ++ ascii "-" ++ version') ∨
      ∃ part, name = name' ++ ascii "-" ++ part ∧ version' = part ++ ascii "-" ++ version := by
  have hyphen : ascii "-" = [45] := by decide
  simp only [hyphen, List.append_assoc, List.singleton_append] at h ⊢
  rcases List.append_eq_append_iff.mp h with ⟨part, hname, hversion⟩ | ⟨part, hname, hversion⟩
  · cases part with
    | nil =>
      rw [List.append_nil] at hname
      rw [List.nil_append, List.cons_inj_right] at hversion
      exact Or.inl ⟨hname.symm, hversion⟩
    | cons b part =>
      rw [List.cons_append, List.cons_eq_cons] at hversion
      obtain ⟨rfl, hversion⟩ := hversion
      exact Or.inr (Or.inl ⟨part, hname, hversion⟩)
  · cases part with
    | nil =>
      rw [List.append_nil] at hname
      rw [List.nil_append, List.cons_inj_right] at hversion
      exact Or.inl ⟨hname, hversion.symm⟩
    | cons b part =>
      rw [List.cons_append, List.cons_eq_cons] at hversion
      obtain ⟨rfl, hversion⟩ := hversion
      exact Or.inr (Or.inr ⟨part, hname, hversion⟩)

theorem Extends.join {m m' : Manifest} (h : Extends m m') : m.name ++ ascii "-" ++ m.version = m'.name ++ ascii "-" ++ m'.version := by
  obtain ⟨part, hname, hversion⟩ := h
  rw [hname, hversion]
  simp only [List.append_assoc]

theorem Extends.name_ne {m m' : Manifest} (h : Extends m m') : m.name ≠ m'.name := by
  obtain ⟨part, hname, -⟩ := h
  intro heq
  have hlen := congrArg List.length (heq.trans hname)
  have hyphen : (ascii "-").length = 1 := by decide
  rw [List.length_append, List.length_append] at hlen
  omega

/-- The extension of the payload file. -/
def extension (payloadType : UInt8) : Bytes := if payloadType = payloadZex1 then ascii ".zex" else ascii ".elf"

theorem parseManifest_entrypoint {text : Bytes} {m : Manifest} (h : parseManifest text = .ok m) :
    m.entrypoint = ascii "/data/apps/" ++ (ascii "pkg-" ++ (m.name ++ ascii "-" ++ m.version) ++ extension m.payloadType) ∧
      (m.payloadType = payloadZex1 ∨ m.payloadType = payloadElf32) := by
  obtain ⟨es, haccepted⟩ := parseManifest_accepted h
  obtain ⟨file, hfile, rfl⟩ := expectedEntrypoint_some haccepted.entrypoint
  obtain ⟨v, hv⟩ := haccepted.complete 7 (by decide)
  refine ⟨?_, ?_⟩
  · rw [hfile]
    simp only [extension, List.append_assoc]
  · rw [haccepted.kept.payloadType v hv]
    unfold payloadTypeOf
    split
    · exact Or.inl rfl
    · exact Or.inr rfl

theorem extension_injective {a b : UInt8} (ha : a = payloadZex1 ∨ a = payloadElf32) (hb : b = payloadZex1 ∨ b = payloadElf32)
    (h : extension a = extension b) : a = b := by
  rcases ha with rfl | rfl <;> rcases hb with rfl | rfl
  · rfl
  · exact absurd h (by decide)
  · exact absurd h (by decide)
  · rfl

theorem length_extension (a : UInt8) : (extension a).length = 4 := by
  unfold extension
  split <;> decide

/-- One entrypoint means one package, version and payload type, exactly if no part of a version can be moved to the
    name. -/
theorem entrypoint_unique_iff {text text' : Bytes} {m m' : Manifest} (h : parseManifest text = .ok m)
    (h' : parseManifest text' = .ok m') :
    (m.entrypoint = m'.entrypoint → m.name = m'.name ∧ m.version = m'.version ∧ m.payloadType = m'.payloadType) ↔
      ¬Shifted m m' := by
  obtain ⟨hentry, htype⟩ := parseManifest_entrypoint h
  obtain ⟨hentry', htype'⟩ := parseManifest_entrypoint h'
  constructor
  · rintro hunique ⟨hpayload, hextends⟩
    have hjoin : m.name ++ ascii "-" ++ m.version = m'.name ++ ascii "-" ++ m'.version := by
      rcases hextends with hextends | hextends
      · exact hextends.join
      · exact hextends.join.symm
    have hsame := hunique (by rw [hentry, hentry', hjoin, hpayload])
    rcases hextends with hextends | hextends
    · exact hextends.name_ne hsame.1
    · exact hextends.name_ne hsame.1.symm
  · intro hshifted hsame
    rw [hentry, hentry'] at hsame
    have hfile := List.append_cancel_left hsame
    obtain ⟨hstem, hextension⟩ := List.append_inj' hfile (by rw [length_extension, length_extension])
    have hpayload := extension_injective htype htype' hextension
    rcases join_eq (List.append_cancel_left hstem) with ⟨hname, hversion⟩ | hextends | hextends
    · exact ⟨hname, hversion, hpayload⟩
    · exact absurd ⟨hpayload, Or.inl hextends⟩ hshifted
    · exact absurd ⟨hpayload, Or.inr hextends⟩ hshifted

/-- A manifest with the given name and version, and the entrypoint that joins them. -/
def joinedText (name version : String) : Bytes :=
  textOf ["format=zenpkg-manifest-1"] ++ ascii "name=" ++ ascii name ++ [10] ++ ascii "version=" ++ ascii version ++ [10] ++
    textOf ["architecture=i686", "target=i686-zenov-none", "kind=native"] ++ ascii "entrypoint=/data/apps/pkg-" ++ ascii name ++
    ascii "-" ++ ascii version ++ textOf [".zex", "payload_type=zex1", "runtime=native", "min_os=0.1.1", "license=MIT",
      "source=local", "asset_policy=redistributable", "capability=abi.zex1.v1", "capability=kernel.ring3",
      "capability=storage.zenovfs1"]

def joinedManifest (name version : String) : Manifest :=
  ⟨ascii name, ascii version, ascii "/data/apps/pkg-" ++ ascii name ++ ascii "-" ++ ascii version ++ ascii ".zex", payloadZex1, [], []⟩

theorem parse_joinedText :
    parseManifest (joinedText "a" "1.0.0") = .ok (joinedManifest "a" "1.0.0") ∧
      parseManifest (joinedText "a" "1-2") = .ok (joinedManifest "a" "1-2") ∧
      parseManifest (joinedText "a-1" "2") = .ok (joinedManifest "a-1" "2") := by
  decide +kernel

theorem entrypoint_unique_sample :
    ((joinedManifest "a" "1.0.0").entrypoint = (joinedManifest "a" "1.0.0").entrypoint →
      (joinedManifest "a" "1.0.0").name = (joinedManifest "a" "1.0.0").name ∧
        (joinedManifest "a" "1.0.0").version = (joinedManifest "a" "1.0.0").version ∧
          (joinedManifest "a" "1.0.0").payloadType = (joinedManifest "a" "1.0.0").payloadType) ↔
      ¬Shifted (joinedManifest "a" "1.0.0") (joinedManifest "a" "1.0.0") :=
  entrypoint_unique_iff parse_joinedText.1 parse_joinedText.1

/-- Version `1-2` of `a` and version `2` of `a-1` have one entrypoint. -/
theorem entrypoint_shared :
    parseManifest (joinedText "a" "1-2") = .ok (joinedManifest "a" "1-2") ∧
      parseManifest (joinedText "a-1" "2") = .ok (joinedManifest "a-1" "2") ∧
      (joinedManifest "a" "1-2").entrypoint = (joinedManifest "a-1" "2").entrypoint ∧
      (joinedManifest "a" "1-2").name ≠ (joinedManifest "a-1" "2").name := by
  exact ⟨parse_joinedText.2.1, parse_joinedText.2.2, by decide, by decide⟩

end ZenovOS.Package
