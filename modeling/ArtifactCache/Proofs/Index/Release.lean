import ArtifactCache.Proofs.Entry.Place
import ArtifactCache.Proofs.Index.Tally

/-! # What leaves an index is released

Whoever listens to an index removes the files of the entries that it releases.  So an
index must release each file that it stops to name, and no file that it still names.
It does, in every state that operations can lead to, and under every budget: a place
is released exactly where it belonged to an entry before and belongs to none after.

Two entries with different keys never share a place, so only the entry that is replaced
may share its place with another one, and this is checked.
-/

namespace ArtifactCache.Index

def places (index : Index) : List DiskPath :=
  index.entries.map Entry.place

/-- Whether an operation is an insertion that the index admits. -/
def admits (index : Index) : Operation → Bool
  | .insert key file => (index.insert key file).admitted
  | .touch _ | .peek _ | .contains _ | .remove _ => false

theorem find?_of_mem {entries : List Entry} {entry : Entry}
    (distinct : (entries.map Prod.fst).Nodup) (member : entry ∈ entries) :
    find? entries entry.1 = some entry := by
  cases found : find? entries entry.1 with
  | none => exact absurd (List.mem_map_of_mem member) (find?_eq_none_iff.mp found)
  | some other =>
    obtain ⟨otherMember, same⟩ := mem_of_find? found
    rw [List.inj_on_of_nodup_map distinct otherMember member same]

theorem mem_replaced_iff {entries : List Entry} {key : Key} {file : StoredFile} {entry : Entry}
    (distinct : (entries.map Prod.fst).Nodup) :
    entry ∈ replaced entries key file ↔
      entry ∈ entries ∧ entry.1 = key ∧ entry.fileName ≠ Entry.fileName (key, file) := by
  simp only [replaced, List.mem_filter, Option.mem_toList, decide_eq_true_eq]
  constructor
  · rintro ⟨found, other⟩
    exact ⟨(mem_of_find? found).1, (mem_of_find? found).2, other⟩
  · rintro ⟨member, rfl, other⟩
    exact ⟨find?_of_mem distinct member, other⟩

theorem nodup_replaced (entries : List Entry) (key : Key) (file : StoredFile) :
    ((replaced entries key file).map Prod.fst).Nodup := by
  apply List.Nodup.sublist (List.filter_sublist.map _)
  cases find? entries key <;> simp

theorem nodup_map_place {entries : List Entry} (distinct : (entries.map Prod.fst).Nodup) :
    (entries.map Entry.place).Nodup := by
  rw [List.Nodup, List.pairwise_map] at distinct ⊢
  exact distinct.imp fun other same => other (Entry.place_eq_place_iff.mp same).1

/-- What an admitted insertion does, entry by entry: the old entry of the key goes unless
its file name is kept, and of the other entries the first ones go and the last ones stay. -/
theorem exists_split_insert {index : Index} (sound : index.Sound) {key : Key} {file : StoredFile}
    (small : file.diskSize ≤ index.budget) :
    ∃ gone between, gone ++ between = without index.entries key ∧
      (index.insert key file).released = replaced index.entries key file ++ gone ∧
      (index.insert key file).index.entries = between ++ [(key, file)] := by
  obtain ⟨gone, kept, split, longest, inserted⟩ := insert_of_le sound small
  obtain ⟨between, rfl, -⟩ := longest.exists_append small
  refine ⟨gone, between, ?_, by rw [inserted], by rw [inserted]⟩
  rw [renewed, ← List.append_assoc] at split
  exact List.append_cancel_right split

theorem nodup_released {index : Index} (sound : index.Sound) {key : Key} {file : StoredFile}
    (small : file.diskSize ≤ index.budget) :
    ((index.insert key file).released.map Entry.place).Nodup := by
  obtain ⟨gone, between, others, released, -⟩ := exists_split_insert sound small
  apply nodup_map_place
  have part : gone.Sublist (without index.entries key) := others ▸ List.sublist_append_left _ _
  rw [released, List.map_append]
  refine List.nodup_append'.mpr ⟨nodup_replaced _ _ _,
    (nodup_without key sound.distinct).sublist (part.map _), ?_⟩
  intro shared fromReplaced fromGone
  obtain ⟨old, member, rfl⟩ := List.mem_map.mp fromReplaced
  rw [((mem_replaced_iff sound.distinct).mp member).2.1] at fromGone
  exact notMem_without index.entries key ((part.map _).subset fromGone)

/-- An admitted insertion releases a place exactly where the place was taken before and is
free after. -/
theorem mem_released_iff {index : Index} (sound : index.Sound) {key : Key} {file : StoredFile}
    (small : file.diskSize ≤ index.budget) (place : DiskPath) :
    place ∈ (index.insert key file).released.map Entry.place ↔
      place ∈ index.places ∧ place ∉ (index.insert key file).index.places := by
  obtain ⟨gone, between, others, released, kept⟩ := exists_split_insert sound small
  have distinct : ((gone ++ between).map Prod.fst).Nodup :=
    others ▸ nodup_without key sound.distinct
  have ofOthers : ∀ {entry}, entry ∈ gone ++ between ↔ entry ∈ index.entries ∧ entry.1 ≠ key := by
    intro entry
    rw [others, mem_without]
  rw [released, places, places, kept]
  simp only [List.mem_map, List.mem_append, List.mem_singleton]
  constructor
  · rintro ⟨entry, fromReplaced | fromGone, rfl⟩
    · obtain ⟨member, rfl, renamed⟩ := (mem_replaced_iff sound.distinct).mp fromReplaced
      refine ⟨⟨entry, member, rfl⟩, ?_⟩
      rintro ⟨other, inBetween | rfl, same⟩
      · have otherKey := (ofOthers.mp (List.mem_append_right gone inBetween)).2
        exact otherKey (Entry.place_eq_place_iff.mp same).1
      · exact renamed (Entry.place_eq_place_iff.mp same).2.symm
    · have member := ofOthers.mp (List.mem_append_left between fromGone)
      refine ⟨⟨entry, member.1, rfl⟩, ?_⟩
      rintro ⟨other, inBetween | rfl, same⟩
      · rw [List.map_append] at distinct
        have keys := (Entry.place_eq_place_iff.mp same).1
        exact (List.nodup_append'.mp distinct).2.2 (List.mem_map_of_mem fromGone)
          (keys ▸ List.mem_map_of_mem inBetween)
      · exact member.2 (Entry.place_eq_place_iff.mp same).1.symm
  · rintro ⟨⟨entry, member, rfl⟩, free⟩
    refine ⟨entry, ?_, rfl⟩
    by_cases own : entry.1 = key
    · refine .inl ((mem_replaced_iff sound.distinct).mpr ⟨member, own, fun sameName => free ?_⟩)
      exact ⟨(key, file), .inr rfl, Entry.place_eq_place_iff.mpr ⟨own.symm, sameName.symm⟩⟩
    · rcases List.mem_append.mp (ofOthers.mpr ⟨member, own⟩) with inGone | inBetween
      · exact .inr inGone
      · exact absurd ⟨entry, .inl inBetween, rfl⟩ free

/-- In every state that operations lead to, an admitted insertion releases the places that
it makes free, each once, and nothing else is ever released. -/
theorem run_releases_freed_places (budget : UInt64) (operations : List Operation)
    (operation : Operation) :
    let before := (empty budget).performAll operations
    let after := before.perform operation
    let released := (before.releasedBy operation).map Entry.place
    if before.admits operation then
      released.Nodup ∧ ∀ place, place ∈ released ↔ place ∈ before.places ∧ place ∉ after.places
    else released = [] := by
  intro before after released
  have sound : before.Sound := (sound_empty budget).performAll operations
  cases operation with
  | insert key file =>
    split
    next admitted =>
      have small := admitted_insert.mp admitted
      exact ⟨nodup_released sound small, mem_released_iff sound small⟩
    next refused =>
      have large : before.budget < file.diskSize :=
        UInt64.not_le.mp (mt admitted_insert.mpr refused)
      simp only [released, releasedBy, insert_of_lt large, List.map_nil]
  | touch key => exact rfl
  | peek key => exact rfl
  | contains key => exact rfl
  | remove key => exact rfl

end ArtifactCache.Index
