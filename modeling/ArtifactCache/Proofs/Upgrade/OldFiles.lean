import ArtifactCache.Proofs.Disk.Moves
import ArtifactCache.Proofs.Entry.Reading
import ArtifactCache.Proofs.Store.Upgrade

/-! # The files of older layouts

An old file lies under the former directory of its kind, either directly or one directory
deeper, and is named by its digest alone.  Where it belongs in the current layout depends on
its kind, its digest and on which of the two it is, but not on the name of the directory
that it lies in.
-/

namespace ArtifactCache

open DiskPath

/-! ## Names that are plain -/

/-- A long enough text of letters, digits, dashes and dots can be the name of a node. -/
theorem DiskPath.isPlain_nameOf {text : String}
    (characters : ∀ c ∈ text.toList, c.isAlphanum = true ∨ c = '-' ∨ c = '.')
    (long : dotDot.length < text.toList.length) (short : text.toList.length ≤ longestName) :
    IsPlain (nameOf text) := by
  have ascii : ∀ c ∈ text.toList, c.toNat < 0x80 ∧ c ≠ '/' := by
    intro c member
    rcases characters c member with alphanumeric | rfl | rfl
    · exact ascii_of_isAlphanum alphanumeric
    · decide
    · decide
  have encoded : nameOf text = text.toList.map fun c => UInt8.ofNat c.toNat :=
    Utf8.encode_of_ascii fun c member => (ascii c member).1
  have length : (nameOf text).length = text.toList.length := by rw [encoded, List.length_map]
  refine ⟨?_, ?_, ?_, slash_notMem_nameOf ascii, ?_, length ▸ short⟩
  · intro empty
    rw [← length, empty] at long
    cases long
  · intro same
    rw [← length, same] at long
    cases long
    contradiction
  · intro same
    rw [← length, same] at long
    exact Nat.lt_irrefl _ long
  · rw [encoded]
    intro present
    obtain ⟨c, member, byte⟩ := List.mem_map.mp present
    have small := (ascii c member).1
    have number := congrArg UInt8.toNat byte
    rw [UInt8.toNat_ofNat_of_lt' (Nat.lt_trans small (by decide))] at number
    rcases characters c member with alphanumeric | rfl | rfl
    · obtain rfl : c = Char.ofNat 0 := Char.toNat_inj.mp number
      cases alphanumeric
    · cases number
    · cases number

namespace Upgrade

variable {disk : Disk} {root : DiskPath} {top : Location} {kind : Kind} {digest : Digest}
  {token : String} {name : Name} {node : Node} {source target place : List Name} {move : Move}

/-! ## Where old files belong -/

def oldPlace (top : Location) (kind : Kind) : Location :=
  top ++ [nameOf kind.formerDirectory]

/-- Where a file belongs in the current layout, below the root. -/
def newNames (kind : Kind) (digest : Digest) (token : String) : List Name :=
  [nameOf kind.directory, nameOf digest.shard,
    nameOf (digest.text ++ "-" ++ token ++ (if kind = .content then ".v1" else ""))]

/-- Where a place in an older layout has its match in the current one, both below the root. -/
inductive MovesTo (kind : Kind) : (source target : List Name) → Prop
  | flat (digest : Digest) : MovesTo kind [nameOf kind.formerDirectory, nameOf digest.text]
      (newNames kind digest "222444666")
  | sharded (directory : Name) (digest : Digest) :
    MovesTo kind [nameOf kind.formerDirectory, directory, nameOf digest.text]
      (newNames kind digest (if kind = .content then "556677" else "112233"))

/-- Whether there is a file of an older layout, with the place where it belongs today. -/
structure IsOldFile (disk : Disk) (top : Location) (kind : Kind) (source target : List Name) :
    Prop where
  moves : MovesTo kind source target
  held : ∃ size accessed, disk.node? (top ++ source) = some (.file size accessed)

theorem oldPlace_append (top : Location) (kind : Kind) (names : List Name) :
    oldPlace top kind ++ names = top ++ nameOf kind.formerDirectory :: names :=
  List.append_assoc _ _ _

theorem digest?_eq_some_iff : digest? name = some digest ↔ name = nameOf digest.text := by
  simp only [digest?, bind, Option.bind_eq_some_iff]
  constructor
  · rintro ⟨text, spelled, parsed⟩
    cases result : Digest.parse text with
    | error error => rw [result] at parsed; cases parsed
    | ok other =>
      rw [result] at parsed
      obtain rfl := Option.some.inj parsed
      rw [Digest.parse_eq_ok_iff.mp result, nameOf_of_textOf? spelled]
  · rintro rfl
    refine ⟨digest.text, textOf?_nameOf digest.text, ?_⟩
    rw [Digest.parse_eq_ok_iff.mpr rfl]
    rfl

theorem nameOf_text_injective {other : Digest} (same : nameOf digest.text = nameOf other.text) :
    digest = other :=
  Digest.ext (nameOf_injective same)

theorem MovesTo.target_eq {other : List Name} (moves : MovesTo kind source target)
    (moves' : MovesTo kind source other) : target = other := by
  cases moves with
  | flat digest =>
    generalize same : [nameOf kind.formerDirectory, nameOf digest.text] = source at moves'
    cases moves' with
    | flat digest' =>
      simp only [List.cons.injEq, and_true, true_and] at same
      rw [nameOf_text_injective same]
    | sharded directory digest' => simp at same
  | sharded directory digest =>
    generalize same : [nameOf kind.formerDirectory, directory, nameOf digest.text] = source
      at moves'
    cases moves' with
    | flat digest' => simp at same
    | sharded directory' digest' =>
      simp only [List.cons.injEq, and_true, true_and] at same
      rw [nameOf_text_injective same.2]

theorem newNames_injective {other : Digest} {token' : String}
    (same : newNames kind digest token = newNames kind other token') :
    digest = other ∧ token = token' := by
  simp only [newNames, List.cons.injEq, and_true, true_and] at same
  have texts := congrArg String.toList (nameOf_injective same.2)
  simp only [String.toList_append, List.append_assoc] at texts
  -- All digests have the same length, so the texts agree part by part.
  obtain ⟨digests, rest⟩ := List.append_inj texts
    (digest.length_text.trans other.length_text.symm)
  have tokens := List.append_cancel_right (List.append_cancel_left rest)
  exact ⟨Digest.ext (String.toList_inj.mp digests), String.toList_inj.mp tokens⟩

theorem MovesTo.exists_source (moves : MovesTo kind source target) :
    ∃ rest, source = nameOf kind.formerDirectory :: rest ∧ rest ≠ [] := by
  cases moves with
  | flat digest => exact ⟨_, rfl, List.cons_ne_nil _ _⟩
  | sharded directory digest => exact ⟨_, rfl, List.cons_ne_nil _ _⟩

theorem MovesTo.source_ne_nil (moves : MovesTo kind source target) : source ≠ [] := by
  obtain ⟨rest, rfl, -⟩ := moves.exists_source
  exact List.cons_ne_nil _ _

theorem isPlain_newName (kind : Kind) (digest : Digest)
    (alphanumeric : ∀ c ∈ token.toList, c.isAlphanum = true) (short : token.toList.length ≤ 9) :
    IsPlain (nameOf (digest.text ++ "-" ++ token ++ (if kind = .content then ".v1" else ""))) := by
  have length := digest.length_text
  rw [digestLength] at length
  apply isPlain_nameOf
  · intro c member
    simp only [String.toList_append, List.mem_append] at member
    rcases member with ((inDigest | inDash) | inToken) | inMark
    · exact .inl (isAlphanum_of_isHexDigit (Digest.isHexDigit_of_mem inDigest))
    · exact .inr (.inl (List.mem_singleton.mp inDash))
    · exact .inl (alphanumeric c inToken)
    · split at inMark
      · have among : c ∈ ['.', 'v', '1'] := inMark
        simp only [List.mem_cons, List.not_mem_nil, or_false] at among
        rcases among with rfl | rfl | rfl
        · exact .inr (.inr rfl)
        · exact .inl rfl
        · exact .inl rfl
      · cases inMark
  · simp only [String.toList_append, List.length_append, length, dotDot, List.length_cons,
      List.length_nil]
    omega
  · have mark : (if kind = .content then ".v1" else "").toList.length ≤ 3 := by
      split <;> decide
    have dash : "-".toList.length = 1 := rfl
    simp only [String.toList_append, List.length_append, length, dash, longestName]
    omega

/-- An old file belongs into the shard of its digest, where it gets a plain name. -/
theorem MovesTo.exists_target (moves : MovesTo kind source target) : ∃ digest : Digest, ∃ name,
    IsPlain name ∧ target = [kind.directoryName, nameOf digest.shard] ++ [name] := by
  cases moves with
  | flat digest =>
    have alphanumeric := List.all_eq_true.mp (show "222444666".toList.all Char.isAlphanum by decide)
    exact ⟨digest, _, isPlain_newName kind digest alphanumeric (by decide), rfl⟩
  | sharded directory digest =>
    refine ⟨digest, _, isPlain_newName kind digest ?_ ?_, rfl⟩
    · exact List.all_eq_true.mp (by split <;> decide)
    · split <;> decide

/-! ## Old and new places lie apart -/

theorem MovesTo.oldPlace_prefix (moves : MovesTo kind source target) (top : Location) :
    oldPlace top kind <+: top ++ source := by
  obtain ⟨rest, rfl, -⟩ := moves.exists_source
  exact ⟨rest, by simp [oldPlace]⟩

theorem MovesTo.not_prefix (moves : MovesTo kind source target) (top : Location) (other : Kind) :
    ¬ oldPlace top other <+: top ++ target := by
  obtain ⟨digest, name, -, rfl⟩ := moves.exists_target
  rintro ⟨rest, same⟩
  simp only [oldPlace, List.append_assoc, List.append_cancel_left_eq, List.cons_append,
    List.nil_append, List.cons.injEq] at same
  exact ne_formerName kind other same.1.symm

theorem MovesTo.target_ne_source {other : Kind} {source' target' : List Name}
    (moves : MovesTo kind source target) (moves' : MovesTo other source' target')
    (top : Location) : top ++ target ≠ top ++ source' := by
  intro same
  exact moves.not_prefix top other (same ▸ moves'.oldPlace_prefix top)

theorem MovesTo.kind_eq {other : Kind} {source' : List Name} (moves : MovesTo kind source target)
    (moves' : MovesTo other source' target) : kind = other := by
  obtain ⟨digest, name, -, rfl⟩ := moves.exists_target
  obtain ⟨digest', name', -, same⟩ := moves'.exists_target
  exact Kind.directory_injective (nameOf_injective (List.cons.inj same).1)

theorem kind_eq_of_above {other : Kind} {location : Location}
    (above : oldPlace top kind <+: location) (above' : oldPlace top other <+: location) :
    kind = other := by
  have same := List.prefix_of_prefix_length_le above above' (by simp [oldPlace])
  have names := same.eq_of_length (by simp [oldPlace])
  exact formerName_injective (List.cons.inj (List.append_cancel_left names)).1

theorem target_eq_below (root : DiskPath) (kind : Kind) (digest : Digest) (token : String) :
    Upgrade.target root kind digest token = root.below (newNames kind digest token) := by
  have render : EntryName.render
      { digest, logicalSize := none, token, legacy := isMarked kind } =
        digest.text ++ "-" ++ token ++ (if kind = .content then ".v1" else "") := by
    simp [EntryName.render, isMarked, legacySuffix]
  rw [Upgrade.target]
  simp only [render]
  rfl

theorem tokenInShard_eq (kind : Kind) :
    tokenInShard kind = if kind = .content then "556677" else "112233" := by
  cases kind <;> rfl

theorem isOldFile_flat {size : UInt64} {accessed : Instant}
    (held : disk.node? (oldPlace top kind ++ [nameOf digest.text]) = some (.file size accessed)) :
    IsOldFile disk top kind [nameOf kind.formerDirectory, nameOf digest.text]
      (newNames kind digest flatToken) := by
  rw [oldPlace_append] at held
  exact ⟨.flat digest, size, accessed, held⟩

theorem isOldFile_sharded {size : UInt64} {accessed : Instant}
    (held : disk.node? (oldPlace top kind ++ [name, nameOf digest.text]) =
      some (.file size accessed)) :
    IsOldFile disk top kind [nameOf kind.formerDirectory, name, nameOf digest.text]
      (newNames kind digest (tokenInShard kind)) := by
  rw [oldPlace_append] at held
  rw [tokenInShard_eq]
  exact ⟨.sharded name digest, size, accessed, held⟩

/-! ## The moves of an upgrade -/

/-- Whether the old files of a kind find their places in the current layout free, and no two
of them belong to the same place. -/
structure HasRoom (disk : Disk) (top : Location) (kind : Kind) : Prop where
  free : ∀ {source target}, IsOldFile disk top kind source target →
    disk.node? (top ++ target) = none
  distinct : ∀ {source source' target}, IsOldFile disk top kind source target →
    IsOldFile disk top kind source' target → source = source'

/-- The move of a node in some directory below the root, if it is an old file. -/
def moveIn (top : Location) (kind : Kind) (place : List Name) (token : String) :
    Name × Node → Option Move
  | (name, .file _ _) => (digest? name).map fun digest =>
    { source := top ++ (place ++ [name]), target := top ++ newNames kind digest token }
  | _ => none

/-- The moves that a node directly inside the former directory calls for. -/
def movesOf (disk : Disk) (top : Location) (kind : Kind) : Name × Node → List Move
  | (name, .directory) => (disk.entries (oldPlace top kind ++ [name])).filterMap
      (moveIn top kind [nameOf kind.formerDirectory, name] (tokenInShard kind))
  | (name, node) => (moveIn top kind [nameOf kind.formerDirectory] flatToken (name, node)).toList

theorem moveIn_eq_some_iff : moveIn top kind place token (name, node) = some move ↔
    ∃ digest, name = nameOf digest.text ∧ (∃ size accessed, node = .file size accessed) ∧
      move = { source := top ++ (place ++ [name])
               target := top ++ newNames kind digest token } := by
  cases node with
  | file size accessed =>
    simp only [moveIn, Option.map_eq_some_iff, digest?_eq_some_iff]
    constructor
    · rintro ⟨digest, named, rfl⟩
      exact ⟨digest, named, ⟨size, accessed, rfl⟩, rfl⟩
    · rintro ⟨digest, named, -, rfl⟩
      exact ⟨digest, named, rfl⟩
  | _ => simp [moveIn]

theorem movesOf_of_plain (plain : node ≠ .directory) : movesOf disk top kind (name, node) =
    (moveIn top kind [nameOf kind.formerDirectory] flatToken (name, node)).toList := by
  cases node with
  | directory => exact absurd rfl plain
  | _ => rfl

theorem mem_movesOf (held : disk.node? (oldPlace top kind ++ [name]) = some node) :
    move ∈ movesOf disk top kind (name, node) ↔ ∃ rest target,
      IsOldFile disk top kind (nameOf kind.formerDirectory :: name :: rest) target ∧
        move = { source := top ++ nameOf kind.formerDirectory :: name :: rest
                 target := top ++ target } := by
  rw [oldPlace, List.append_assoc, List.singleton_append] at held
  by_cases directory : node = .directory
  · subst directory
    simp only [movesOf, List.mem_filterMap, Prod.exists, moveIn_eq_some_iff, Disk.mem_entries,
      oldPlace, List.append_assoc, List.cons_append, List.nil_append]
    constructor
    · rintro ⟨_, _, found, digest, rfl, ⟨size, accessed, rfl⟩, rfl⟩
      rw [tokenInShard_eq]
      exact ⟨_, _, ⟨.sharded name digest, size, accessed, found⟩, rfl⟩
    · rintro ⟨rest, target, ⟨moves, size, accessed, found⟩, rfl⟩
      cases moves with
      | flat digest => rw [held] at found; cases found
      | sharded directory digest =>
        refine ⟨_, _, found, digest, rfl, ⟨size, accessed, rfl⟩, ?_⟩
        rw [tokenInShard_eq]
  · rw [movesOf_of_plain directory, Option.mem_toList, moveIn_eq_some_iff]
    constructor
    · rintro ⟨digest, rfl, ⟨size, accessed, rfl⟩, rfl⟩
      exact ⟨_, _, ⟨.flat digest, size, accessed, held⟩, rfl⟩
    · rintro ⟨rest, target, ⟨moves, size, accessed, found⟩, rfl⟩
      cases moves with
      | flat digest =>
        rw [held] at found
        exact ⟨digest, rfl, ⟨size, accessed, Option.some.inj found⟩, rfl⟩
      | sharded above digest =>
        have inside : disk.node? (top ++ [nameOf kind.formerDirectory, name]) = some .directory :=
          Disk.directory_of_prefix found (by simp) (by simp)
        rw [held] at inside
        exact absurd (Option.some.inj inside) directory

theorem mem_flatMap_movesOf {nodes : List (Name × Node)}
    (listed : nodes.Perm (disk.entries (oldPlace top kind))) :
    move ∈ nodes.flatMap (movesOf disk top kind) ↔ ∃ source target,
      IsOldFile disk top kind source target ∧
        move = { source := top ++ source, target := top ++ target } := by
  rw [List.mem_flatMap]
  constructor
  · rintro ⟨⟨name, node⟩, member, moves⟩
    have held := Disk.mem_entries.mp (listed.mem_iff.mp member)
    obtain ⟨rest, target, old, same⟩ := (mem_movesOf held).mp moves
    exact ⟨_, target, old, same⟩
  · rintro ⟨source, target, old, same⟩
    obtain ⟨rest, rfl, nonempty⟩ := old.moves.exists_source
    obtain ⟨name, rest, rfl⟩ := List.exists_cons_of_ne_nil nonempty
    obtain ⟨size, accessed, found⟩ := old.held
    have present : ∃ node, disk.node? (oldPlace top kind ++ [name]) = some node := by
      by_cases last : rest = []
      · subst last
        exact ⟨_, by simpa [oldPlace] using found⟩
      · refine ⟨.directory, Disk.directory_of_prefix found ?_ ?_⟩
        · simp [oldPlace]
        · simpa [oldPlace] using Ne.symm last
    obtain ⟨node, held⟩ := present
    refine ⟨(name, node), listed.mem_iff.mpr (Disk.mem_entries.mpr held), ?_⟩
    exact (mem_movesOf held).mpr ⟨rest, target, old, same⟩

theorem pairwise_movesOf {nodes : List (Name × Node)}
    (listed : nodes.Perm (disk.entries (oldPlace top kind))) :
    (nodes.flatMap (movesOf disk top kind)).Pairwise fun first second =>
      first.source ≠ second.source := by
  have names : nodes.Pairwise fun first second => first.1 ≠ second.1 :=
    (listed.pairwise_iff fun differ => differ.symm).mpr (disk.pairwise_entries _)
  rw [List.pairwise_flatMap]
  constructor
  · rintro ⟨name, node⟩ member
    have held := Disk.mem_entries.mp (listed.mem_iff.mp member)
    by_cases directory : node = .directory
    · subst directory
      refine List.Pairwise.filterMap _ ?_ (disk.pairwise_entries _)
      rintro ⟨first, node⟩ ⟨second, node'⟩ differ move moves move' moves'
      obtain ⟨-, -, -, rfl⟩ := moveIn_eq_some_iff.mp moves
      obtain ⟨-, -, -, rfl⟩ := moveIn_eq_some_iff.mp moves'
      simpa using differ
    · rw [movesOf_of_plain directory]
      cases moveIn top kind [nameOf kind.formerDirectory] flatToken (name, node) with
      | none => exact .nil
      | some move => exact List.pairwise_singleton _ _
  · refine names.imp_of_mem ?_
    rintro ⟨name, node⟩ ⟨name', node'⟩ member member' differ move moves move' moves'
    have held := Disk.mem_entries.mp (listed.mem_iff.mp member)
    have held' := Disk.mem_entries.mp (listed.mem_iff.mp member')
    obtain ⟨rest, target, -, rfl⟩ := (mem_movesOf held).mp moves
    obtain ⟨rest', target', -, rfl⟩ := (mem_movesOf held').mp moves'
    intro same
    simp only [List.append_cancel_left_eq, List.cons.injEq, true_and] at same
    exact differ same.1

/-- Where the old files of a kind have room, they can all be moved. -/
theorem canMove_movesOf {nodes : List (Name × Node)} (room : HasRoom disk top kind)
    (listed : nodes.Perm (disk.entries (oldPlace top kind))) :
    disk.CanMove (nodes.flatMap (movesOf disk top kind)) := by
  have apart := pairwise_movesOf listed
  refine ⟨?_, ?_, List.pairwise_map.mpr apart, List.pairwise_map.mpr (apart.imp_of_mem ?_)⟩
  · intro move member
    obtain ⟨source, target, old, rfl⟩ := (mem_flatMap_movesOf listed).mp member
    exact old.held
  · intro move member
    obtain ⟨source, target, old, rfl⟩ := (mem_flatMap_movesOf listed).mp member
    exact room.free old
  · intro first second member member' differ same
    obtain ⟨source, target, old, rfl⟩ := (mem_flatMap_movesOf listed).mp member
    obtain ⟨source', target', old', rfl⟩ := (mem_flatMap_movesOf listed).mp member'
    obtain rfl : target = target' := List.append_cancel_left same
    exact differ (by rw [room.distinct old old'])

end Upgrade

end ArtifactCache
