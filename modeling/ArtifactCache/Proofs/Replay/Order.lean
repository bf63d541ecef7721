import ArtifactCache.Replay
import Mathlib.Data.List.Basic

/-! # The order of a replay

The files of an inventory are taken in the order of their last access, and files of
equal access keep the order that the inventory has them in.  There is just one such
order, so nothing else has to be known of the way in which the files are sorted.
-/

namespace ArtifactCache.Replay

/-- Whether a list has the files of another one in the order of their last access, and
files of equal access in the order that they have there. -/
structure IsStablySorted (files sorted : List FoundFile) : Prop where
  ordered : sorted.Pairwise fun first second => first.accessed ≤ second.accessed
  stable : ∀ instant : Instant, (sorted.filter fun file => file.accessed = instant) =
    files.filter fun file => file.accessed = instant

namespace IsStablySorted

variable {files sorted sorted' : List FoundFile}

theorem mem_iff (isSorted : IsStablySorted files sorted) {file : FoundFile} :
    file ∈ sorted ↔ file ∈ files := by
  have agree : file ∈ (sorted.filter fun other => other.accessed = file.accessed) ↔
      file ∈ files.filter fun other => other.accessed = file.accessed := by
    rw [isSorted.stable file.accessed]
  simpa only [List.mem_filter, decide_true, and_true] using agree

theorem unique (first : IsStablySorted files sorted) (second : IsStablySorted files sorted') :
    sorted = sorted' := by
  induction sorted generalizing files sorted' with
  | nil =>
    cases sorted' with
    | nil => rfl
    | cons file rest => cases first.mem_iff.mpr (second.mem_iff.mp List.mem_cons_self)
  | cons file rest ih =>
    cases sorted' with
    | nil => cases second.mem_iff.mpr (first.mem_iff.mp List.mem_cons_self)
    | cons file' rest' =>
      obtain ⟨earliest, orderedRest⟩ := List.pairwise_cons.mp first.ordered
      obtain ⟨earliest', orderedRest'⟩ := List.pairwise_cons.mp second.ordered
      -- Both heads have the earliest access of all files.
      have agree : file.accessed = file'.accessed := by
        have member : file' ∈ file :: rest :=
          first.mem_iff.mpr (second.mem_iff.mp List.mem_cons_self)
        have member' : file ∈ file' :: rest' :=
          second.mem_iff.mpr (first.mem_iff.mp List.mem_cons_self)
        refine Int.le_antisymm ?_ ?_
        · rcases List.mem_cons.mp member with rfl | later
          · exact Int.le_refl _
          · exact earliest file' later
        · rcases List.mem_cons.mp member' with rfl | later
          · exact Int.le_refl _
          · exact earliest' file later
      have same : ∀ instant : Instant,
          ((file :: rest).filter fun other => other.accessed = instant) =
            (file' :: rest').filter fun other => other.accessed = instant :=
        fun instant => (first.stable instant).trans (second.stable instant).symm
      have heads := same file.accessed
      rw [List.filter_cons_of_pos (by simp), List.filter_cons_of_pos (by simp [agree])] at heads
      obtain ⟨rfl, -⟩ := List.cons.inj heads
      have tails : ∀ instant : Instant, (rest.filter fun other => other.accessed = instant) =
          rest'.filter fun other => other.accessed = instant := by
        intro instant
        have whole := same instant
        rw [List.filter_cons, List.filter_cons] at whole
        split at whole
        · exact (List.cons.inj whole).2
        · exact whole
      rw [ih ⟨orderedRest, fun _ => rfl⟩ ⟨orderedRest', fun instant => (tails instant).symm⟩]

end IsStablySorted

theorem isStablySorted_of_perm {files sorted : List FoundFile} (perm : files.Perm sorted)
    (increasing : sorted.Pairwise fun first second => first.accessed < second.accessed) :
    IsStablySorted files sorted where
  ordered := increasing.imp Int.le_of_lt
  stable instant := by
    have same := (perm.filter fun file => file.accessed = instant).symm
    have strict := increasing.filter fun file => file.accessed = instant
    have equal : ∀ file ∈ sorted.filter fun file => file.accessed = instant,
        file.accessed = instant := by simp
    match chosen : sorted.filter fun file => file.accessed = instant with
    | [] =>
      rw [chosen] at same
      exact chosen.trans (List.nil_perm.mp same).symm
    | [file] =>
      rw [chosen] at same
      exact chosen.trans (List.singleton_perm.mp same)
    | first :: second :: rest =>
      rw [chosen] at strict equal
      have less := List.rel_of_pairwise_cons strict List.mem_cons_self
      rw [equal first (by simp), equal second (by simp)] at less
      exact absurd less (Int.lt_irrefl _)

theorem perm_byAccess {files files' : List FoundFile} (perm : files.Perm files') :
    (byAccess files).Perm files' :=
  (List.mergeSort_perm files _).trans perm

theorem isStablySorted_byAccess (files : List FoundFile) :
    IsStablySorted files (byAccess files) := by
  have total : ∀ first second : FoundFile,
      (decide (first.accessed ≤ second.accessed) || decide (second.accessed ≤ first.accessed)) =
        true := by
    intro first second
    simpa using Int.le_total first.accessed second.accessed
  have transitive : ∀ first second third : FoundFile,
      decide (first.accessed ≤ second.accessed) = true →
        decide (second.accessed ≤ third.accessed) = true →
          decide (first.accessed ≤ third.accessed) = true := by
    intro first second third le le'
    simpa using Int.le_trans (by simpa using le) (by simpa using le')
  refine ⟨?_, fun instant => ?_⟩
  · apply (List.pairwise_mergeSort transitive total files).imp
    intro first second le
    simpa using le
  · have chosen : ((files.filter fun file => file.accessed = instant).filter fun file =>
        file.accessed = instant).Sublist
          ((byAccess files).filter fun file => file.accessed = instant) := by
      refine List.Sublist.filter _ (List.sublist_mergeSort transitive total ?_ List.filter_sublist)
      apply List.pairwise_of_forall_mem_list
      intro first firstMember second secondMember
      simp only [List.mem_filter, decide_eq_true_eq] at firstMember secondMember
      simp [firstMember.2, secondMember.2]
    rw [List.filter_filter] at chosen
    simp only [Bool.and_self] at chosen
    refine (chosen.eq_of_length ?_).symm
    exact ((List.mergeSort_perm files _).filter _).length_eq.symm

/-- Where no two files have the same access, a replay takes them in the order of their access
however they are listed. -/
theorem byAccess_eq_of_perm {files files' : List FoundFile} (perm : files.Perm files')
    (distinct : (files.map FoundFile.accessed).Nodup) : byAccess files = byAccess files' := by
  have sorted : (byAccess files').Perm files' := perm_byAccess (.refl _)
  have apart : (byAccess files').Pairwise fun first second => first.accessed ≠ second.accessed :=
    List.pairwise_map.mp (((perm.trans sorted.symm).map _).nodup_iff.mp distinct)
  refine (isStablySorted_byAccess files).unique (isStablySorted_of_perm (perm.trans sorted.symm) ?_)
  refine ((isStablySorted_byAccess files').ordered.and apart).imp fun ⟨le, differ⟩ => ?_
  exact Int.lt_iff_le_and_ne.mpr ⟨le, differ⟩

theorem replay_eq_of_perm (root : DiskPath) {files files' : List FoundFile} (index : Index)
    (disk : Disk) (perm : files.Perm files') (distinct : (files.map FoundFile.accessed).Nodup) :
    replay root files index disk = replay root files' index disk := by
  unfold replay
  rw [byAccess_eq_of_perm perm distinct, perm.length_eq]

end ArtifactCache.Replay
