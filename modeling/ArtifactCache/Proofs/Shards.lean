import ArtifactCache.Proofs.Entry.Place
import ArtifactCache.Shards

/-! # The names of shards

A shard is named by two hexadecimal digits.  The shard of a digest is among them, and each
of them is a plain name.
-/

namespace ArtifactCache

open DiskPath

namespace Shard

theorem mem_names_iff {text : String} : text ∈ names ↔
    ∃ high ∈ hexDigits, ∃ low ∈ hexDigits, String.ofList [high, low] = text := by
  simp only [names, List.mem_flatMap, List.mem_map]

theorem isName_iff {text : String} : isName text = true ↔ text ∈ names := by
  simp only [isName, Bool.and_eq_true, beq_iff_eq, List.all_eq_true, List.contains_iff_mem,
    mem_names_iff]
  constructor
  · rintro ⟨length, hex⟩
    obtain ⟨high, low, split⟩ := List.length_eq_two.mp length
    rw [split] at hex
    refine ⟨high, hex high (by simp), low, hex low (by simp), ?_⟩
    rw [← split, String.ofList_toList]
  · rintro ⟨high, isHigh, low, isLow, rfl⟩
    simp [isHigh, isLow]

theorem isNodeName_iff {name : Name} :
    isNodeName name = true ↔ ∃ shard ∈ names, nameOf shard = name := by
  simp only [isNodeName, Option.any_eq_true, isName_iff]
  constructor
  · rintro ⟨shard, spelled, isShard⟩
    exact ⟨shard, isShard, nameOf_of_textOf? spelled⟩
  · rintro ⟨shard, isShard, rfl⟩
    exact ⟨shard, textOf?_nameOf shard, isShard⟩

theorem mem_hexDigits {c : Char} (hex : isHexDigit c = true) : c ∈ hexDigits := by
  have all : ∀ value : Fin 103, (0x30 ≤ value.val ∧ value.val ≤ 0x39) ∨
      (0x61 ≤ value.val ∧ value.val ≤ 0x66) → Char.ofNat value.val ∈ hexDigits := by decide
  have range := isHexDigit_iff.mp hex
  have member := all ⟨c.toNat, by omega⟩ range
  rwa [Char.ofNat_toNat] at member

theorem shard_mem_names (digest : Digest) : digest.shard ∈ names := by
  obtain ⟨first, second, rest, text, hexFirst, hexSecond⟩ := digest.exists_text
  refine mem_names_iff.mpr ⟨first, mem_hexDigits hexFirst, second, mem_hexDigits hexSecond, ?_⟩
  rw [Digest.shard, text]
  rfl

end Shard

theorem Shard.isPlain_nameOf {shard : String} (member : shard ∈ names) :
    IsPlain (nameOf shard) := by
  have all : ∀ shard ∈ names, isPlainName (nameOf shard) = true := by decide +kernel
  exact isPlainName_iff.mp (all shard member)

end ArtifactCache
