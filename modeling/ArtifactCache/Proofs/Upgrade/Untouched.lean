import ArtifactCache.Proofs.Upgrade.OldFiles

/-! # What an upgrade does not touch

All that an upgrade moves has a long name, before the move and after it, because a digest is part
of the name.  So whatever the root looks like, with links or without, nodes with short names are
left as they are, except in the former directories.
-/

namespace ArtifactCache.Upgrade

open DiskPath

variable {root source target : DiskPath} {top place : Location} {kind : Kind} {digest : Digest}
  {token : String} {name : Name}

theorem length_nameOf_digest (digest : Digest) : (nameOf digest.text).length = digestLength := by
  rw [nameOf, Utf8.encode_of_ascii fun c member =>
      toNat_lt_of_isHexDigit (Digest.isHexDigit_of_mem member), List.length_map,
    digest.length_text]

theorem length_le_newName (kind : Kind) (digest : Digest) (token : String) :
    digestLength ≤
      (nameOf (digest.text ++ "-" ++ token ++ if kind = .content then ".v1" else "")).length := by
  rw [← length_nameOf_digest digest]
  simp only [nameOf, String.toList_append, Utf8.encode_append, List.append_assoc,
    List.length_append]
  exact Nat.le_add_right _ _

theorem MayMove.exists_long (may : MayMove root kind source target) :
    (∃ long, source.steps.getLast? = some (.into long) ∧ digestLength ≤ long.length) ∧
      ∃ long, target.steps.getLast? = some (.into long) ∧ digestLength ≤ long.length := by
  obtain ⟨directory, name, digest, token, named, known, rfl, rfl⟩ := may
  obtain rfl := digest?_eq_some_iff.mp named
  have isPlain : IsPlain (nameOf digest.text) := by
    refine DiskPath.isPlain_nameOf (fun c member => .inl ?_) ?_ ?_
    · exact isAlphanum_of_isHexDigit (Digest.isHexDigit_of_mem member)
    · rw [digest.length_text]
      decide
    · rw [digest.length_text]
      decide
  refine ⟨⟨_, ?_, Nat.le_of_eq (length_nameOf_digest digest).symm⟩,
    _, ?_, length_le_newName kind digest token⟩
  · rw [isPlain.steps_child, List.getLast?_concat]
  · have moves : ∃ source, MovesTo kind source (newNames kind digest token) := by
      rcases known with rfl | rfl
      · exact ⟨_, .flat digest⟩
      · rw [tokenInShard_eq]
        exact ⟨_, .sharded [] digest⟩
    obtain ⟨_, moves⟩ := moves
    obtain ⟨_, last, plain, same⟩ := moves.exists_target
    have plainNames : ∀ name ∈ newNames kind digest token, IsPlain name := by
      rw [same]
      simpa using ⟨kind.isPlain_directoryName, Shard.isPlain_nameOf (Shard.shard_mem_names _), plain⟩
    rw [target_eq_below, steps_below root plainNames, newNames]
    simp

/-- Nodes with short names outlast an upgrade wherever they are, unless they lie in a former
directory. -/
theorem outlasts_short (node : Option Node) (short : name.length < digestLength)
    (apart : ∀ kind, ¬ oldPlace top kind <+: place ++ [name]) :
    Outlasts (ofLocation top) fun disk => disk.node? top = some .directory ∧
      disk.node? (place ++ [name]) = node where
  move may moved := by
    rintro ⟨directory, held⟩
    obtain ⟨⟨old, oldLast, oldLong⟩, new, newLast, newLong⟩ := may.exists_long
    refine ⟨Disk.directory_moveFile moved directory, ?_⟩
    rw [Disk.node?_moveFile moved oldLast _ newLast _, held]
    · rintro rfl
      exact absurd oldLong (Nat.not_le.mpr short)
    · rintro rfl
      exact absurd newLong (Nat.not_le.mpr short)
  remove {kind _ _} removed := by
    rintro ⟨directory, held⟩
    rw [oldDirectory_ofLocation] at removed
    refine ⟨Disk.directory_removeTree directory (isPlain_formerName kind) removed, ?_⟩
    rw [Disk.node?_removeTree directory (isPlain_formerName kind) removed (apart kind), held]

/-- An upgrade leaves the directories of the kinds and the shards as they are. -/
theorem node?_upgrade_of_short (host : Host) (workers : Nat) {disk : Disk}
    (held : disk.node? top = some .directory) (short : name.length < digestLength)
    (apart : ∀ kind, ¬ oldPlace top kind <+: place ++ [name]) :
    (upgrade host workers (ofLocation top) disk).2.disk.node? (place ++ [name]) =
      disk.node? (place ++ [name]) :=
  ((outlasts_short _ short apart).upgrade host workers ⟨held, rfl⟩).2

end ArtifactCache.Upgrade
