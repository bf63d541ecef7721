import ArtifactCache.Index.Operation
import Mathlib.Data.List.Nodup

/-! # What insertions and removals do to an index

The byte count of an index is a word, so it agrees with the bytes of the entries only
as far as a word can tell.  This much is kept by every operation under every budget,
and it is enough to say what an insertion sheds: the entries in front of the longest
end of the renewed list that fits the budget.  The new entry alone fits, so an
insertion never sheds it.
-/

namespace ArtifactCache.Index

/-! ## Words that count bytes -/

/-- The bytes of entries as a word, which wraps around where they do not fit into one. -/
def tally (entries : List Entry) : UInt64 :=
  UInt64.ofNat (weight entries)

@[simp]
theorem tally_nil : tally [] = 0 := rfl

@[simp]
theorem tally_cons (entry : Entry) (rest : List Entry) :
    tally (entry :: rest) = entry.2.diskSize + tally rest := by
  simp [tally, weight, UInt64.ofNat_add]

theorem tally_append (first second : List Entry) :
    tally (first ++ second) = tally first + tally second := by
  simp [tally, weight_append, UInt64.ofNat_add]

theorem tally_singleton (entry : Entry) : tally [entry] = entry.2.diskSize := by
  simp

theorem toNat_tally {entries : List Entry} (small : weight entries < UInt64.size) :
    (tally entries).toNat = weight entries :=
  UInt64.toNat_ofNat_of_lt' small

theorem weight_le_of_sublist {fewer entries : List Entry} (sublist : fewer.Sublist entries) :
    weight fewer ≤ weight entries := by
  induction sublist with
  | slnil => exact Nat.le_refl _
  | cons entry _ ih => exact Nat.le_trans ih (Nat.le_add_left _ _)
  | cons_cons entry _ ih => exact Nat.add_le_add_left ih _

theorem weight_perm {entries others : List Entry} (perm : entries.Perm others) :
    weight entries = weight others := by
  induction perm with
  | nil => rfl
  | cons entry _ ih => rw [weight, weight, ih]
  | swap first second rest => simp only [weight]; omega
  | trans _ _ ih ih' => exact ih.trans ih'

theorem diskSize_le_weight {entries : List Entry} {entry : Entry} (member : entry ∈ entries) :
    entry.2.diskSize.toNat ≤ weight entries := by
  induction entries with
  | nil => cases member
  | cons first rest ih =>
    rw [weight]
    cases member with
    | head => exact Nat.le_add_right _ _
    | tail _ member => exact Nat.le_trans (ih member) (Nat.le_add_left _ _)

/-! ## The entry of a key and the entries of the others -/

theorem mem_of_find? {entries : List Entry} {key : Key} {entry : Entry}
    (found : find? entries key = some entry) : entry ∈ entries ∧ entry.1 = key :=
  ⟨List.mem_of_find?_eq_some found, by simpa using List.find?_some found⟩

theorem find?_eq_none_iff {entries : List Entry} {key : Key} :
    find? entries key = none ↔ key ∉ entries.map Prod.fst := by
  simp only [find?, List.find?_eq_none, decide_eq_true_eq, List.mem_map, not_exists, not_and]

@[simp]
theorem mem_without {entries : List Entry} {key : Key} {entry : Entry} :
    entry ∈ without entries key ↔ entry ∈ entries ∧ entry.1 ≠ key := by
  simp [without]

theorem without_of_notMem {entries : List Entry} {key : Key}
    (missing : key ∉ entries.map Prod.fst) : without entries key = entries := by
  rw [without, List.filter_eq_self]
  intro entry member
  have other : entry.1 ≠ key := fun same => missing (same ▸ List.mem_map_of_mem member)
  simpa using other

theorem nodup_without {entries : List Entry} (key : Key)
    (distinct : (entries.map Prod.fst).Nodup) : ((without entries key).map Prod.fst).Nodup :=
  distinct.sublist (List.filter_sublist.map _)

theorem notMem_without (entries : List Entry) (key : Key) :
    key ∉ (without entries key).map Prod.fst := by
  simp [without]

theorem weight_without {entries : List Entry} {key : Key} {entry : Entry}
    (distinct : (entries.map Prod.fst).Nodup) (found : find? entries key = some entry) :
    weight entries = entry.2.diskSize.toNat + weight (without entries key) := by
  induction entries with
  | nil => simp [find?] at found
  | cons first rest ih =>
    obtain ⟨fresh, distinct⟩ := List.nodup_cons.mp distinct
    by_cases same : first.1 = key
    · obtain rfl : first = entry := by simpa [find?, same] using found
      subst same
      have alone : without (first :: rest) first.1 = rest := by
        rw [← without_of_notMem fresh]
        simp [without]
      rw [alone, weight]
    · have later : find? rest key = some entry := by simpa [find?, same] using found
      have kept : without (first :: rest) key = first :: without rest key := by
        simp [without, same]
      rw [kept, weight, weight, ih distinct later]
      omega

theorem tally_without {entries : List Entry} {key : Key} {entry : Entry}
    (distinct : (entries.map Prod.fst).Nodup) (found : find? entries key = some entry) :
    tally (without entries key) = tally entries - entry.2.diskSize := by
  rw [tally, tally, weight_without distinct found, UInt64.ofNat_add, UInt64.ofNat_toNat,
    UInt64.add_comm, UInt64.add_sub_cancel]

/-! ## Shedding -/

/-- Whether a list is the longest end of another one whose bytes, as a word counts them,
fit a budget. -/
structure IsLongestFit (budget : UInt64) (entries kept : List Entry) : Prop where
  suffix : kept <:+ entries
  fits : tally kept ≤ budget
  longest : ∀ other, other <:+ entries → tally other ≤ budget → other.length ≤ kept.length

theorem isLongestFit_self {budget : UInt64} {entries : List Entry}
    (fits : tally entries ≤ budget) : IsLongestFit budget entries entries :=
  ⟨List.suffix_rfl, fits, fun _ suffix _ => suffix.length_le⟩

/-- What is kept of entries that do not fit is kept of the entries behind the first. -/
theorem IsLongestFit.cons {budget : UInt64} {entry : Entry} {rest kept : List Entry}
    (exceeds : budget < tally (entry :: rest)) (longest : IsLongestFit budget rest kept) :
    IsLongestFit budget (entry :: rest) kept where
  suffix := longest.suffix.trans (List.suffix_cons _ _)
  fits := longest.fits
  longest other suffix fits := by
    rcases List.suffix_cons_iff.mp suffix with same | inside
    · subst same
      exact absurd fits (UInt64.not_le.mpr exceeds)
    · exact longest.longest other inside fits

theorem shed_of_le {budget used : UInt64} (entries : List Entry) (fits : used ≤ budget) :
    shed budget used entries = ([], entries, used) := by
  cases entries with
  | nil => rfl
  | cons oldest rest => rw [shed, if_neg (UInt64.not_lt.mpr fits)]

theorem shed_of_lt {budget used : UInt64} (oldest : Entry) (rest : List Entry)
    (exceeds : budget < used) :
    shed budget used (oldest :: rest) =
      let (gone, kept, left) := shed budget (used - oldest.2.diskSize) rest
      (oldest :: gone, kept, left) := by
  rw [shed, if_pos exceeds]

/-- With the right count at the start, shedding keeps the longest end that fits, and the
count is right again. -/
theorem shed_tally (budget : UInt64) (entries : List Entry) :
    ∃ gone kept, shed budget (tally entries) entries = (gone, kept, tally kept) ∧
      gone ++ kept = entries ∧ IsLongestFit budget entries kept := by
  induction entries with
  | nil => exact ⟨[], [], rfl, rfl, isLongestFit_self (UInt64.le_iff_toNat_le.mpr (Nat.zero_le _))⟩
  | cons oldest rest ih =>
    by_cases exceeds : budget < tally (oldest :: rest)
    · obtain ⟨gone, kept, shedRest, split, longest⟩ := ih
      refine ⟨oldest :: gone, kept, ?_, by rw [List.cons_append, split], longest.cons exceeds⟩
      have left : tally (oldest :: rest) - oldest.2.diskSize = tally rest := by
        rw [tally_cons, UInt64.add_comm, UInt64.add_sub_cancel]
      rw [shed_of_lt oldest rest exceeds, left, shedRest]
    · have fits : tally (oldest :: rest) ≤ budget := UInt64.not_lt.mp exceeds
      exact ⟨[], oldest :: rest, shed_of_le _ fits, rfl, isLongestFit_self fits⟩

theorem IsLongestFit.exists_append {budget : UInt64} {before kept : List Entry} {last : Entry}
    (longest : IsLongestFit budget (before ++ [last]) kept)
    (alone : last.2.diskSize ≤ budget) :
    ∃ between, kept = between ++ [last] ∧ between <:+ before := by
  have holds : [last].length ≤ kept.length :=
    longest.longest [last] (List.suffix_append _ _) (by rwa [tally_singleton])
  have ends : [last] <:+ kept :=
    List.suffix_of_suffix_length_le (List.suffix_append _ _) longest.suffix holds
  obtain ⟨between, rfl⟩ := ends
  obtain ⟨gone, split⟩ := longest.suffix
  refine ⟨between, rfl, gone, ?_⟩
  rw [← List.append_assoc] at split
  exact List.append_cancel_right split

/-! ## Operations -/

/-- The entries once a key has been given a new file, before anything is shed. -/
def renewed (entries : List Entry) (key : Key) (file : StoredFile) : List Entry :=
  without entries key ++ [(key, file)]

/-- The entry whose file an insertion puts out of use.  There is none where the new file
bears the name of the old one. -/
def replaced (entries : List Entry) (key : Key) (file : StoredFile) : List Entry :=
  (find? entries key).toList.filter fun old => old.fileName ≠ Entry.fileName (key, file)

theorem nodup_renewed {entries : List Entry} (key : Key) (file : StoredFile)
    (distinct : (entries.map Prod.fst).Nodup) :
    ((renewed entries key file).map Prod.fst).Nodup := by
  simp only [renewed, List.map_append, List.map_cons, List.map_nil]
  refine List.nodup_append'.mpr ⟨nodup_without key distinct, List.nodup_singleton _, ?_⟩
  exact List.disjoint_singleton.mpr (notMem_without entries key)

/-- What holds of an index under every budget: a key has at most one entry, and the count
of bytes is right as far as a word can tell. -/
structure Sound (index : Index) : Prop where
  distinct : (index.entries.map Prod.fst).Nodup
  used_eq : index.used = tally index.entries

theorem sound_empty (budget : UInt64) : (empty budget).Sound where
  distinct := List.nodup_nil
  used_eq := rfl

/-- An index is known by its budget and its entries. -/
theorem Sound.eq_of_entries {index other : Index} (sound : index.Sound) (sound' : other.Sound)
    (budget : index.budget = other.budget) (entries : index.entries = other.entries) :
    index = other := by
  have used := sound.used_eq
  have used' := sound'.used_eq
  cases index
  cases other
  simp_all

theorem insert_of_lt {index : Index} {key : Key} {file : StoredFile}
    (large : index.budget < file.diskSize) :
    index.insert key file = { index, admitted := false, released := [] } :=
  if_pos large

/-- The count of bytes before anything is shed is that of the renewed entries. -/
theorem tally_renewed {entries : List Entry} (key : Key) (file : StoredFile)
    (distinct : (entries.map Prod.fst).Nodup) :
    tally (renewed entries key file) =
      match find? entries key with
      | none => tally entries + file.diskSize
      | some old => tally entries + file.diskSize - old.2.diskSize := by
  rw [renewed, tally_append, tally_singleton]
  cases found : find? entries key with
  | none => rw [without_of_notMem (find?_eq_none_iff.mp found)]
  | some old =>
    simp only [tally_without distinct found, UInt64.sub_eq_add_neg]
    rw [UInt64.add_assoc, UInt64.add_assoc, UInt64.add_comm (-_)]

theorem insert_eq_shed {index : Index} (sound : index.Sound) {key : Key} {file : StoredFile}
    (small : file.diskSize ≤ index.budget) :
    index.insert key file =
      let (gone, kept, used) := shed index.budget (tally (renewed index.entries key file))
        (renewed index.entries key file)
      { index := { index with entries := kept, used }
        admitted := true
        released := replaced index.entries key file ++ gone } := by
  rw [insert, if_neg (UInt64.not_lt.mpr small), tally_renewed key file sound.distinct,
    ← sound.used_eq]
  cases found : find? index.entries key with
  | none => simp only [replaced, found, renewed, Option.toList_none, List.filter_nil]
  | some old =>
    simp only [replaced, found, renewed, Option.toList_some, List.filter_cons, List.filter_nil]
    split <;> simp_all

/-- An insertion that is not refused replaces the old entry of its key and then sheds what
stands in front of the longest end that fits. -/
theorem insert_of_le {index : Index} (sound : index.Sound) {key : Key} {file : StoredFile}
    (small : file.diskSize ≤ index.budget) :
    ∃ gone kept, gone ++ kept = renewed index.entries key file ∧
      IsLongestFit index.budget (renewed index.entries key file) kept ∧
      index.insert key file =
        { index := { index with entries := kept, used := tally kept }
          admitted := true
          released := replaced index.entries key file ++ gone } := by
  obtain ⟨gone, kept, shedAll, split, longest⟩ :=
    shed_tally index.budget (renewed index.entries key file)
  refine ⟨gone, kept, split, longest, ?_⟩
  rw [insert_eq_shed sound small, shedAll]

theorem admitted_insert {index : Index} {key : Key} {file : StoredFile} :
    (index.insert key file).admitted = true ↔ file.diskSize ≤ index.budget := by
  unfold insert
  split
  next large => simpa using large
  next small => simpa using small

theorem Sound.insert {index : Index} (sound : index.Sound) (key : Key) (file : StoredFile) :
    (index.insert key file).index.Sound := by
  by_cases small : file.diskSize ≤ index.budget
  · obtain ⟨gone, kept, -, longest, inserted⟩ := insert_of_le sound small
    rw [inserted]
    have sublist : kept.Sublist (renewed index.entries key file) := longest.suffix.sublist
    exact ⟨(nodup_renewed key file sound.distinct).sublist (sublist.map _), rfl⟩
  · rw [insert_of_lt (UInt64.not_le.mp small)]
    exact sound

theorem touch_of_found {index : Index} {key : Key} {entry : Entry}
    (found : find? index.entries key = some entry) :
    index.touch key =
      (some entry.2, { index with entries := renewed index.entries key entry.2 }) := by
  obtain ⟨-, rfl⟩ := mem_of_find? found
  simp only [touch, found, renewed]

theorem Sound.touch {index : Index} (sound : index.Sound) (key : Key) :
    (index.touch key).2.Sound := by
  cases found : find? index.entries key with
  | none => simpa only [Index.touch, found] using sound
  | some entry =>
    rw [touch_of_found found]
    refine ⟨nodup_renewed key entry.2 sound.distinct, ?_⟩
    simp only [tally_renewed key entry.2 sound.distinct, found, sound.used_eq,
      UInt64.add_sub_cancel]

theorem Sound.remove {index : Index} (sound : index.Sound) (key : Key) :
    (index.remove key).2.Sound := by
  cases found : find? index.entries key with
  | none => simpa only [Index.remove, found] using sound
  | some entry =>
    simp only [Index.remove, found]
    refine ⟨nodup_without key sound.distinct, ?_⟩
    simp only [tally_without sound.distinct found, sound.used_eq]

theorem Sound.perform {index : Index} (sound : index.Sound) (operation : Operation) :
    (index.perform operation).Sound := by
  cases operation with
  | insert key file => exact sound.insert key file
  | touch key => exact sound.touch key
  | peek key => exact sound
  | contains key => exact sound
  | remove key => exact sound.remove key

theorem Sound.performAll {index : Index} (sound : index.Sound) (operations : List Operation) :
    (index.performAll operations).Sound := by
  induction operations generalizing index with
  | nil => exact sound
  | cons operation rest ih => exact ih (sound.perform operation)

@[simp]
theorem budget_perform (index : Index) (operation : Operation) :
    (index.perform operation).budget = index.budget := by
  cases operation with
  | insert key file =>
    simp only [perform, insert]
    split <;> rfl
  | touch key =>
    simp only [perform, touch]
    split <;> rfl
  | peek key => rfl
  | contains key => rfl
  | remove key =>
    simp only [perform, remove]
    split <;> rfl

@[simp]
theorem budget_performAll (index : Index) (operations : List Operation) :
    (index.performAll operations).budget = index.budget := by
  induction operations generalizing index with
  | nil => rfl
  | cons operation rest ih =>
    exact (ih (index.perform operation)).trans (budget_perform index operation)

end ArtifactCache.Index
