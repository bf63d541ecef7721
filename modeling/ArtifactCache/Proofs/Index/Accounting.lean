import ArtifactCache.Proofs.Entry.Place
import ArtifactCache.Proofs.Index.Tally
import Mathlib.Algebra.Group.Nat.Defs

/-! # The byte count of an index is exact

An insertion first adds the new bytes and then takes others away, so in between the
count exceeds the budget, and words wrap around silently.  To see that this never
matters, each operation is done a second time under supervision: a sum that is no
word, a difference below zero, an index that is empty while it is over its budget, and
a round too many each make the supervised operation fail.

Under every budget below half the range of a word the supervised operations never fail
and agree with the plain ones, and the count is the sum of the bytes of all entries.
-/

namespace ArtifactCache.Index

/-! ## Operations under supervision -/

/-- The sum of two words, if it is a word. -/
def sum? (first second : UInt64) : Option UInt64 :=
  if first.toNat + second.toNat < UInt64.size then some (first + second) else none

/-- The difference of two words, if it is not negative. -/
def difference? (first second : UInt64) : Option UInt64 :=
  if second ≤ first then some (first - second) else none

/-- Shedding under supervision, in at most the given number of rounds. -/
def shedWatched (budget : UInt64) (rounds : Nat) (used : UInt64) (entries : List Entry) :
    Option (List Entry × List Entry × UInt64) :=
  if used ≤ budget then some ([], entries, used)
  else match rounds, entries with
    | rounds + 1, oldest :: rest => do
      let left ← difference? used oldest.2.diskSize
      let (gone, kept, used) ← shedWatched budget rounds left rest
      return (oldest :: gone, kept, used)
    | 0, _ | _, [] => none

theorem shedWatched_of_le {budget used : UInt64} (rounds : Nat) (entries : List Entry)
    (fits : used ≤ budget) : shedWatched budget rounds used entries = some ([], entries, used) := by
  rw [shedWatched.eq_def, if_pos fits]

theorem shedWatched_of_lt {budget used : UInt64} (rounds : Nat) (oldest : Entry)
    (rest : List Entry) (exceeds : budget < used) :
    shedWatched budget (rounds + 1) used (oldest :: rest) = (do
      let left ← difference? used oldest.2.diskSize
      let (gone, kept, used) ← shedWatched budget rounds left rest
      return (oldest :: gone, kept, used)) := by
  rw [shedWatched.eq_def, if_neg (UInt64.not_le.mpr exceeds)]

/-- A count of bytes without those of the old entry of a key, under supervision. -/
def takeOff? (entries : List Entry) (key : Key) (used : UInt64) : Option UInt64 :=
  match find? entries key with
  | none => some used
  | some old => difference? used old.2.diskSize

/-- An insertion under supervision.  It may shed as many entries as there were before. -/
def insertWatched (index : Index) (key : Key) (file : StoredFile) : Option Index :=
  if index.budget < file.diskSize then some index
  else do
    let grown ← sum? index.used file.diskSize
    let used ← takeOff? index.entries key grown
    let (_, kept, used) ← shedWatched index.budget index.size used
      (without index.entries key ++ [(key, file)])
    return { index with entries := kept, used }

def removeWatched (index : Index) (key : Key) : Option Index :=
  match find? index.entries key with
  | none => some index
  | some entry => do
    let used ← difference? index.used entry.2.diskSize
    return { index with entries := without index.entries key, used }

def performWatched (index : Index) : Operation → Option Index
  | .insert key file => index.insertWatched key file
  | .touch key => some (index.touch key).2
  | .peek _ | .contains _ => some index
  | .remove key => index.removeWatched key

/-- Several operations under supervision, up to the first that fails. -/
def performAllWatched (index : Index) (operations : List Operation) : Option Index :=
  operations.foldlM performWatched index

theorem sum?_eq_some {first second : UInt64}
    (small : first.toNat + second.toNat < UInt64.size) :
    sum? first second = some (first + second) :=
  if_pos small

theorem difference?_eq_some {first second : UInt64} (covered : second ≤ first) :
    difference? first second = some (first - second) :=
  if_pos covered

theorem diskSize_le_tally {entries : List Entry} {entry : Entry}
    (small : weight entries < UInt64.size) (member : entry ∈ entries) :
    entry.2.diskSize ≤ tally entries := by
  rw [UInt64.le_iff_toNat_le, toNat_tally small]
  exact diskSize_le_weight member

/-- Shedding passes supervision if the bytes of all entries are a word and the last entry
fits alone: no round is needed for the last entry. -/
theorem shedWatched_eq {budget : UInt64} {last : Entry} (alone : last.2.diskSize ≤ budget)
    (before : List Entry) (rounds : Nat) (enough : before.length ≤ rounds)
    (small : weight (before ++ [last]) < UInt64.size) :
    shedWatched budget rounds (tally (before ++ [last])) (before ++ [last]) =
      some (shed budget (tally (before ++ [last])) (before ++ [last])) := by
  induction before generalizing rounds with
  | nil =>
    have fits : tally ([] ++ [last]) ≤ budget := by rwa [List.nil_append, tally_singleton]
    rw [shedWatched_of_le _ _ fits, shed_of_le _ fits]
  | cons oldest before ih =>
    by_cases fits : tally (oldest :: before ++ [last]) ≤ budget
    · rw [shedWatched_of_le _ _ fits, shed_of_le _ fits]
    · obtain ⟨rounds, rfl⟩ : ∃ fewer, rounds = fewer + 1 :=
        Nat.exists_eq_add_of_le' (Nat.le_trans (Nat.succ_pos _) enough)
      have covered : oldest.2.diskSize ≤ tally (oldest :: before ++ [last]) :=
        diskSize_le_tally small (by simp)
      have left : tally (oldest :: before ++ [last]) - oldest.2.diskSize =
          tally (before ++ [last]) := by
        rw [List.cons_append, tally_cons, UInt64.add_comm, UInt64.add_sub_cancel]
      have smaller : weight (before ++ [last]) < UInt64.size :=
        Nat.lt_of_le_of_lt (weight_le_of_sublist (List.sublist_cons_self oldest _)) small
      have rest := ih rounds (Nat.le_of_succ_le_succ enough) smaller
      have exceeds : budget < tally (oldest :: before ++ [last]) := UInt64.not_le.mp fits
      rw [List.cons_append] at covered left exceeds ⊢
      rw [shedWatched_of_lt rounds oldest _ exceeds, difference?_eq_some covered,
        shed_of_lt oldest _ exceeds, left]
      simp only [rest, Option.bind_eq_bind, Option.bind_some, Option.pure_def]

/-! ## The count of bytes -/

/-- Whether an index counts its bytes exactly and keeps to its budget. -/
structure Balanced (index : Index) : Prop where
  distinct : (index.entries.map Prod.fst).Nodup
  used_eq : index.used.toNat = weight index.entries
  fits : index.used ≤ index.budget

theorem balanced_empty (budget : UInt64) : (empty budget).Balanced where
  distinct := List.nodup_nil
  used_eq := rfl
  fits := UInt64.le_iff_toNat_le.mpr (Nat.zero_le _)

theorem Balanced.small {index : Index} (balanced : index.Balanced) :
    weight index.entries < UInt64.size :=
  balanced.used_eq ▸ index.used.toNat_lt

theorem Balanced.sound {index : Index} (balanced : index.Balanced) : index.Sound where
  distinct := balanced.distinct
  used_eq := UInt64.toNat.inj (balanced.used_eq.trans (toNat_tally balanced.small).symm)

theorem weight_renewed_le (entries : List Entry) (key : Key) (file : StoredFile) :
    weight (renewed entries key file) ≤ weight entries + file.diskSize.toNat := by
  rw [renewed, weight_append]
  exact Nat.add_le_add_right (weight_le_of_sublist List.filter_sublist) _

/-- Below half the range of a word the renewed entries never exceed it. -/
theorem Balanced.renewed_small {index : Index} (balanced : index.Balanced)
    (bounded : index.budget.toNat ≤ 2 ^ 63 - 1) (key : Key) {file : StoredFile}
    (small : file.diskSize ≤ index.budget) :
    weight (renewed index.entries key file) < UInt64.size := by
  have grows := weight_renewed_le index.entries key file
  have fits := UInt64.le_iff_toNat_le.mp balanced.fits
  have alone := UInt64.le_iff_toNat_le.mp small
  have exact := balanced.used_eq
  have range : UInt64.size = 2 * 2 ^ 63 := rfl
  omega

/-! ## One operation -/

theorem insertWatched_eq {index : Index} (balanced : index.Balanced)
    (bounded : index.budget.toNat ≤ 2 ^ 63 - 1) (key : Key) (file : StoredFile) :
    index.insertWatched key file = some (index.insert key file).index := by
  by_cases large : index.budget < file.diskSize
  · rw [insertWatched, if_pos large, insert_of_lt large]
  have small : file.diskSize ≤ index.budget := UInt64.not_lt.mp large
  have fits := UInt64.le_iff_toNat_le.mp balanced.fits
  have alone := UInt64.le_iff_toNat_le.mp small
  have range : UInt64.size = 2 * 2 ^ 63 := rfl
  have noWrap : index.used.toNat + file.diskSize.toNat < UInt64.size := by omega
  have takingOff : takeOff? index.entries key (index.used + file.diskSize) =
      some (tally (renewed index.entries key file)) := by
    rw [tally_renewed key file balanced.distinct, ← balanced.sound.used_eq, takeOff?]
    cases found : find? index.entries key with
    | none => rfl
    | some old =>
      refine difference?_eq_some (UInt64.le_iff_toNat_le.mpr ?_)
      have part := diskSize_le_weight (mem_of_find? found).1
      rw [UInt64.toNat_add, Nat.mod_eq_of_lt noWrap, balanced.used_eq]
      omega
  have shedding := shedWatched_eq small (without index.entries key)
    index.size (List.length_filter_le _ _) (balanced.renewed_small bounded key small)
  rw [insertWatched, if_neg large, sum?_eq_some noWrap, insert_eq_shed balanced.sound small]
  simp only [renewed] at takingOff ⊢
  simp only [Option.bind_eq_bind, Option.bind_some, takingOff, shedding, Option.pure_def]

theorem removeWatched_eq {index : Index} (balanced : index.Balanced) (key : Key) :
    index.removeWatched key = some (index.remove key).2 := by
  cases found : find? index.entries key with
  | none => simp only [removeWatched, remove, found]
  | some entry =>
    have covered : entry.2.diskSize ≤ index.used := by
      rw [balanced.sound.used_eq]
      exact diskSize_le_tally balanced.small (mem_of_find? found).1
    simp only [removeWatched, remove, found, difference?_eq_some covered,
      Option.bind_eq_bind, Option.bind_some, Option.pure_def]

theorem performWatched_eq {index : Index} (balanced : index.Balanced)
    (bounded : index.budget.toNat ≤ 2 ^ 63 - 1) (operation : Operation) :
    index.performWatched operation = some (index.perform operation) := by
  cases operation with
  | insert key file => exact insertWatched_eq balanced bounded key file
  | touch key => rfl
  | peek key => rfl
  | contains key => rfl
  | remove key => exact removeWatched_eq balanced key

theorem Sound.balanced {index : Index} (sound : index.Sound)
    (small : weight index.entries < UInt64.size) (fits : index.used ≤ index.budget) :
    index.Balanced where
  distinct := sound.distinct
  used_eq := by rw [sound.used_eq, toNat_tally small]
  fits := fits

theorem Balanced.insert {index : Index} (balanced : index.Balanced)
    (bounded : index.budget.toNat ≤ 2 ^ 63 - 1) (key : Key) (file : StoredFile) :
    (index.insert key file).index.Balanced := by
  by_cases large : index.budget < file.diskSize
  · rw [insert_of_lt large]
    exact balanced
  have small : file.diskSize ≤ index.budget := UInt64.not_lt.mp large
  have sound := balanced.sound.insert key file
  obtain ⟨gone, kept, -, longest, inserted⟩ := insert_of_le balanced.sound small
  rw [inserted] at sound ⊢
  have lighter := weight_le_of_sublist longest.suffix.sublist
  exact sound.balanced (Nat.lt_of_le_of_lt lighter (balanced.renewed_small bounded key small))
    longest.fits

theorem Balanced.touch {index : Index} (balanced : index.Balanced) (key : Key) :
    (index.touch key).2.Balanced := by
  have sound := balanced.sound.touch key
  cases found : find? index.entries key with
  | none => simpa only [Index.touch, found] using balanced
  | some entry =>
    rw [touch_of_found found] at sound ⊢
    refine sound.balanced ?_ balanced.fits
    rw [renewed, weight_append, Nat.add_comm]
    exact weight_without balanced.distinct found ▸ balanced.small

theorem Balanced.remove {index : Index} (balanced : index.Balanced) (key : Key) :
    (index.remove key).2.Balanced := by
  have sound := balanced.sound.remove key
  cases found : find? index.entries key with
  | none => simpa only [Index.remove, found] using balanced
  | some entry =>
    have lighter : weight (without index.entries key) ≤ weight index.entries :=
      weight_le_of_sublist List.filter_sublist
    have covered : entry.2.diskSize ≤ index.used := by
      rw [balanced.sound.used_eq]
      exact diskSize_le_tally balanced.small (mem_of_find? found).1
    simp only [Index.remove, found] at sound ⊢
    apply sound.balanced (Nat.lt_of_le_of_lt lighter balanced.small)
    exact UInt64.le_trans (UInt64.sub_le covered) balanced.fits

theorem Balanced.perform {index : Index} (balanced : index.Balanced)
    (bounded : index.budget.toNat ≤ 2 ^ 63 - 1) (operation : Operation) :
    (index.perform operation).Balanced := by
  cases operation with
  | insert key file => exact balanced.insert bounded key file
  | touch key => exact balanced.touch key
  | peek key => exact balanced
  | contains key => exact balanced
  | remove key => exact balanced.remove key

/-! ## Runs -/

/-- A run that starts from a balanced index passes supervision and ends in a balanced one. -/
theorem Balanced.performAll {index : Index} (balanced : index.Balanced)
    (bounded : index.budget.toNat ≤ 2 ^ 63 - 1) (operations : List Operation) :
    index.performAllWatched operations = some (index.performAll operations) ∧
      (index.performAll operations).Balanced := by
  induction operations generalizing index with
  | nil => exact ⟨rfl, balanced⟩
  | cons operation rest ih =>
    have next := ih (balanced.perform bounded operation) (by rwa [budget_perform])
    refine ⟨?_, next.2⟩
    rw [performAllWatched, List.foldlM_cons, performWatched_eq balanced bounded]
    exact next.1

/-- In every run of an index with a budget below half the range of a word, no sum wraps
around, no difference is negative, no insertion runs out of entries to shed or sheds more
than there were, and after every operation the keys are distinct and the byte count is
exact and within the budget. -/
theorem run_accounts_exactly (budget : UInt64) (bounded : budget.toNat ≤ 2 ^ 63 - 1)
    (operations : List Operation) :
    (empty budget).performAllWatched operations = some ((empty budget).performAll operations) ∧
      ((empty budget).performAll operations).Balanced :=
  (balanced_empty budget).performAll bounded operations

/-- Under a budget of ten bytes, four bytes have to go for seven, these are replaced by
three, eleven are refused, and five are forgotten again. -/
theorem run_accounts_exactly_ten_bytes :
    let first : Key := { kind := .raw, digest := .uniform 'a' rfl }
    let second : Key := { kind := .content, digest := .uniform 'b' rfl }
    let file (diskSize : UInt64) : StoredFile :=
      { logicalSize := diskSize, diskSize, legacy := false, token := "t", sizedName := true }
    let operations : List Operation :=
      [.insert first (file 4), .insert second (file 7), .touch second, .insert second (file 3),
        .insert first (file 11), .insert first (file 5), .remove first]
    (empty 10).performAllWatched operations = some ((empty 10).performAll operations) ∧
      ((empty 10).performAll operations).Balanced ∧
        (empty 10).performAll operations =
          { budget := 10, entries := [(second, file 3)], used := 3 } := by
  intro first second file operations
  have run := run_accounts_exactly 10 (by decide) operations
  exact ⟨run.1, run.2, by decide +kernel⟩

end ArtifactCache.Index
