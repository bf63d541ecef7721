import ArtifactCache.Proofs.Entry.Place
import ArtifactCache.Proofs.Index.Tally

/-! # How much an insertion sheds

Where the bytes of its entries are a word, an index can be told in terms of numbers.  Of the
renewed entries an insertion keeps the longest end whose bytes stay within the budget, which
is to say that it drops the shortest front part that has to go.  The entry of the key that is
renewed stands at the end by then, so it is never in the way of another one, and the new entry
is never dropped itself.
-/

namespace ArtifactCache.Index

/-- Whether a list is the longest end of another one whose bytes stay within a limit. -/
structure IsLongestWithin (limit : Nat) (entries kept : List Entry) : Prop where
  suffix : kept <:+ entries
  fits : weight kept ≤ limit
  longest : ∀ other, other <:+ entries → weight other ≤ limit → other.length ≤ kept.length

/-- Where the bytes are a word, the count of a word tells what fits. -/
theorem IsLongestFit.within {budget : UInt64} {entries kept : List Entry}
    (longest : IsLongestFit budget entries kept) (small : weight entries < UInt64.size) :
    IsLongestWithin budget.toNat entries kept := by
  have exact : ∀ {part}, part <:+ entries → (tally part).toNat = weight part := fun suffix =>
    toNat_tally (Nat.lt_of_le_of_lt (weight_le_of_sublist suffix.sublist) small)
  refine ⟨longest.suffix, ?_, fun other suffix fits => longest.longest other suffix ?_⟩
  · rw [← exact longest.suffix]
    exact UInt64.le_iff_toNat_le.mp longest.fits
  · rw [UInt64.le_iff_toNat_le, exact suffix]
    exact fits

/-- The longest end can be found step by step: behind a further entry only the former
longest end matters. -/
theorem IsLongestWithin.concat {limit : Nat} {entries kept kept' : List Entry} {entry : Entry}
    (former : IsLongestWithin limit entries kept)
    (latter : IsLongestWithin limit (kept ++ [entry]) kept') :
    IsLongestWithin limit (entries ++ [entry]) kept' where
  suffix := latter.suffix.trans (List.suffix_append_self_iff.mpr former.suffix)
  fits := latter.fits
  longest other suffix fits := by
    refine latter.longest other ?_ fits
    rcases List.suffix_concat_iff.mp suffix with rfl | ⟨before, rfl, part⟩
    · exact List.nil_suffix
    · rw [List.suffix_append_self_iff]
      refine List.suffix_of_suffix_length_le part former.suffix (former.longest before part ?_)
      rw [weight_append] at fits
      exact Nat.le_trans (Nat.le_add_right _ _) fits

/-- Whether a list is divided behind the shortest front part that has to go so that the bytes
of the rest stay within a limit. -/
structure IsShortestDrop (limit : Nat) (entries gone kept : List Entry) : Prop where
  split : gone ++ kept = entries
  fits : weight kept ≤ limit
  shortest : ∀ gone' kept', gone' ++ kept' = entries → weight kept' ≤ limit →
    gone.length ≤ gone'.length

theorem IsLongestWithin.isShortestDrop {limit : Nat} {entries gone kept : List Entry}
    (longest : IsLongestWithin limit entries kept) (split : gone ++ kept = entries) :
    IsShortestDrop limit entries gone kept where
  split := split
  fits := longest.fits
  shortest gone' kept' split' fits := by
    have shorter := longest.longest kept' ⟨gone', split'⟩ fits
    have whole := congrArg List.length (split.trans split'.symm)
    rw [List.length_append, List.length_append] at whole
    omega

/-- An insertion that is not refused drops the shortest front part of the renewed entries. -/
theorem Sound.exists_drop {index : Index} (sound : index.Sound) {key : Key} {file : StoredFile}
    (fits : file.diskSize ≤ index.budget)
    (small : weight (renewed index.entries key file) < UInt64.size) :
    ∃ gone between, IsShortestDrop index.budget.toNat (renewed index.entries key file) gone
        (between ++ [(key, file)]) ∧
      index.insert key file =
        { index := { index with
            entries := between ++ [(key, file)]
            used := tally (between ++ [(key, file)]) }
          admitted := true
          released := replaced index.entries key file ++ gone } := by
  obtain ⟨gone, kept, split, longest, inserted⟩ := insert_of_le sound fits
  obtain ⟨between, rfl, -⟩ := longest.exists_append fits
  exact ⟨gone, between, (longest.within small).isShortestDrop split, inserted⟩

theorem toList_find? {entries : List Entry} {key : Key}
    (distinct : (entries.map Prod.fst).Nodup) :
    (find? entries key).toList = entries.filter fun entry => entry.1 = key := by
  induction entries with
  | nil => rfl
  | cons first rest ih =>
    obtain ⟨fresh, distinct⟩ := List.nodup_cons.mp distinct
    by_cases same : first.1 = key
    · subst same
      have others : (rest.filter fun entry => entry.1 = first.1) = [] := by
        rw [← ih distinct, find?_eq_none_iff.mpr fresh, Option.toList_none]
      rw [List.filter_cons_of_pos (by simp), others, find?, List.find?_cons_of_pos (by simp),
        Option.toList_some]
    · rw [List.filter_cons_of_neg (by simpa using same), ← ih distinct, find?,
        List.find?_cons_of_neg (by simpa using same), find?]

theorem replaced_eq_filter {entries : List Entry} {key : Key} {file : StoredFile}
    (distinct : (entries.map Prod.fst).Nodup) :
    replaced entries key file = entries.filter fun entry =>
      entry.1 = key ∧ entry.fileName ≠ Entry.fileName (key, file) := by
  rw [replaced, toList_find? distinct, List.filter_filter]
  simp only [← Bool.decide_and, and_comm]

theorem length_replaced_le (entries : List Entry) (key : Key) (file : StoredFile) :
    (replaced entries key file).length ≤ 1 :=
  Nat.le_trans (List.length_filter_le _ _) (by cases find? entries key <;> simp)

/-- In every state that operations lead to, an insertion is refused, and changes nothing, if
its file exceeds the budget alone.  Otherwise the new entry becomes the most recent one, the
shortest front part of the entries is dropped that brings their bytes within the budget, and
what is released is the old entry of the key, if its file has another name, and then what has
been dropped. -/
theorem run_drops_shortest_front (budget : UInt64) (operations : List Operation) (key : Key)
    (file : StoredFile) :
    let before := (empty budget).performAll operations
    let renewed := before.entries.filter (fun entry => entry.1 ≠ key) ++ [(key, file)]
    let replaced := before.entries.filter fun entry =>
      entry.1 = key ∧ entry.fileName ≠ Entry.fileName (key, file)
    (budget < file.diskSize →
      before.insert key file = { index := before, admitted := false, released := [] }) ∧
    (file.diskSize ≤ budget → weight renewed < UInt64.size →
      ∃ gone between used, IsShortestDrop budget.toNat renewed gone (between ++ [(key, file)]) ∧
        used.toNat = weight (between ++ [(key, file)]) ∧ replaced.length ≤ 1 ∧
        before.insert key file =
          { index := { budget, entries := between ++ [(key, file)], used }
            admitted := true
            released := replaced ++ gone }) := by
  intro before renewed replaced
  have sound : before.Sound := (sound_empty budget).performAll operations
  have limit : before.budget = budget := budget_performAll _ operations
  constructor
  · intro large
    exact insert_of_lt (limit ▸ large)
  · intro fits small
    obtain ⟨gone, between, drop, inserted⟩ := sound.exists_drop (limit ▸ fits) small
    have old : Index.replaced before.entries key file = replaced :=
      replaced_eq_filter sound.distinct
    have lighter : weight (between ++ [(key, file)]) < UInt64.size :=
      Nat.lt_of_le_of_lt drop.fits before.budget.toNat_lt
    rw [old, limit] at inserted
    rw [limit] at drop
    exact ⟨gone, between, _, drop, toNat_tally lighter, old ▸ length_replaced_le _ _ _, inserted⟩

/-- Under a budget of ten bytes that are all in use, giving seven bytes to a key that had
three takes the four of the oldest entry, and the three of the other entry stay. -/
theorem run_drops_shortest_front_ten_bytes :
    let oldest : Key := { kind := .raw, digest := .uniform 'a' rfl }
    let renewed : Key := { kind := .raw, digest := .uniform 'b' rfl }
    let other : Key := { kind := .raw, digest := .uniform 'c' rfl }
    let file (diskSize : UInt64) (token : String) : StoredFile :=
      { logicalSize := diskSize, diskSize, legacy := false, token, sizedName := false }
    let before := (empty 10).performAll
      [.insert oldest (file 4 "1"), .insert renewed (file 3 "1"), .insert other (file 3 "1")]
    before.insert renewed (file 11 "2") =
        { index := before, admitted := false, released := [] } ∧
      IsShortestDrop 10 [(oldest, file 4 "1"), (other, file 3 "1"), (renewed, file 7 "2")]
        [(oldest, file 4 "1")] [(other, file 3 "1"), (renewed, file 7 "2")] ∧
      before.insert renewed (file 7 "2") =
        { index :=
            { budget := 10
              entries := [(other, file 3 "1"), (renewed, file 7 "2")]
              used := 10 }
          admitted := true
          released := [(renewed, file 3 "1"), (oldest, file 4 "1")] } := by
  intro oldest renewed other file before
  have run : before.insert renewed (file 7 "2") =
      { index :=
          { budget := 10
            entries := [(other, file 3 "1"), (renewed, file 7 "2")]
            used := 10 }
        admitted := true
        released := [(renewed, file 3 "1"), (oldest, file 4 "1")] } := by decide +kernel
  have others : (before.entries.filter fun entry => entry.1 ≠ renewed) =
      [(oldest, file 4 "1"), (other, file 3 "1")] := by decide +kernel
  have old : (before.entries.filter fun entry => entry.1 = renewed ∧
      entry.fileName ≠ Entry.fileName (renewed, file 7 "2")) = [(renewed, file 3 "1")] := by
    decide +kernel
  obtain ⟨refuses, -⟩ := run_drops_shortest_front 10
    [.insert oldest (file 4 "1"), .insert renewed (file 3 "1"), .insert other (file 3 "1")]
    renewed (file 11 "2")
  obtain ⟨-, drops⟩ := run_drops_shortest_front 10
    [.insert oldest (file 4 "1"), .insert renewed (file 3 "1"), .insert other (file 3 "1")]
    renewed (file 7 "2")
  obtain ⟨gone, between, used, drop, -, -, inserted⟩ := drops (by decide) (by decide +kernel)
  rw [run, old] at inserted
  obtain ⟨index, -, released⟩ := Insertion.mk.inj inserted
  obtain rfl := (List.cons.inj released).2
  rw [others, ← (Index.mk.inj index).2.1] at drop
  exact ⟨refuses (by decide), drop, run⟩

end ArtifactCache.Index
