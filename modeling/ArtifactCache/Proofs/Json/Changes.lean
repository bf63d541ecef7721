import ArtifactCache.Json.Record
import ArtifactCache.Proofs.Json.Values

/-! # Records that are read over any value

A record is read over a value that already stands for the fields that are missing.  Which fields
are there, and whether the text is well-formed, does not depend on this value: either the text is
refused over every value, in the same manner, or there is one change that it makes to all of them.

The change is composed of those that the fields read.  So it lies in every family of changes that
contains these and is closed under composition.
-/

namespace ArtifactCache.Json

open Reader

variable {α β σ : Type}

theorem bind_of_error {reader : Reader α} {next : α → Reader β} {cursor after : Cursor}
    {fault : Fault} (ended : reader cursor = (.error fault, after)) :
    (reader >>= next) cursor = (.error fault, after) := by
  simp only [bind, ExceptT.bind, ExceptT.mk, StateT.bind, ended]
  rfl

/-! ## What a reader can give -/

/-- Whether every value that a reader gives has a property. -/
def Yields (property : α → Prop) (reader : Reader α) : Prop :=
  ∀ cursor value after, reader cursor = (.ok value, after) → property value

/-- Whether a reader refuses every text. -/
abbrev Refuses (reader : Reader α) : Prop :=
  Yields (fun _ => False) reader

section Yields

variable {property : α → Prop} {reader : Reader α}

theorem Yields.pure {value : α} (holds : property value) : Yields property (pure value) := by
  rintro _ _ _ ⟨⟩
  exact holds

theorem Yields.bind {first : Reader β} {next : β → Reader α}
    (later : ∀ value, Yields property (next value)) : Yields property (first >>= next) := by
  intro cursor value after ended
  rcases read : first cursor with ⟨_ | middle, reached⟩
  · rw [bind_of_error read] at ended
    cases ended
  · rw [bind_of_ok read] at ended
    exact later middle _ _ _ ended

theorem Yields.placing (inside : Yields property reader) :
    Yields property (Reader.placing reader) := by
  intro cursor value after ended
  rcases read : reader cursor with ⟨⟨cause, _ | position⟩ | found, reached⟩
  all_goals
    rw [Reader.placing, read] at ended
    cases ended
  exact inside _ _ _ read

theorem refuses_fail (cause : Cause) : Refuses (fail cause : Reader α) := nofun

theorem refuses_failAhead (cause : Cause) : Refuses (failAhead cause : Reader α) := nofun

theorem refuses_failUnplaced (cause : Cause) : Refuses (failUnplaced cause : Reader α) := nofun

/-- A value of another type is refused, whatever it is. -/
theorem refuses_wrongType (expected : String) : Refuses (wrongType expected : Reader α) := by
  have mismatch (found : Found) :
      Refuses (failUnplaced (.wrongType found expected) : Reader α) := refuses_failUnplaced _
  refine Yields.placing (.bind fun next => ?_)
  split
  · exact .bind fun _ => .bind fun _ => mismatch _
  · exact .bind fun _ => .bind fun _ => mismatch _
  · exact .bind fun _ => .bind fun _ => mismatch _
  · exact .bind fun _ => .bind fun _ => mismatch _
  · exact .bind fun _ => .bind fun _ => mismatch _
  · exact mismatch _
  · exact mismatch _
  · split
    · exact .bind fun _ => mismatch _
    · exact refuses_failAhead _
  · exact refuses_failAhead _

end Yields

/-! ## Changes that do not depend on the value -/

/-- Whether readers over all values refuse a text alike or make the same change, which belongs
to a family. -/
def ChangesAlike (family : (σ → σ) → Prop) (readers : σ → Reader σ) : Prop :=
  ∀ cursor, (∃ fault after, ∀ value, readers value cursor = (.error fault, after)) ∨
    ∃ change after, family change ∧ ∀ value, readers value cursor = (.ok (change value), after)

/-- Whether a family of changes is closed under composition. -/
structure IsClosed (family : (σ → σ) → Prop) : Prop where
  id : family id
  comp : ∀ {first second}, family first → family second → family (second ∘ first)

namespace ChangesAlike

variable {family : (σ → σ) → Prop} {readers : σ → Reader σ}

theorem of_eq {readers' : σ → Reader σ} (same : ∀ value, readers value = readers' value)
    (alike : ChangesAlike family readers') : ChangesAlike family readers :=
  funext same ▸ alike

theorem pure (closed : IsClosed family) : ChangesAlike family fun value => pure value :=
  fun cursor => .inr ⟨id, cursor, closed.id, fun _ => rfl⟩

theorem refuse {reader : Reader σ} (refuses : Refuses reader) :
    ChangesAlike family fun _ => reader := by
  intro cursor
  rcases read : reader cursor with ⟨fault | value, after⟩
  · exact .inl ⟨fault, after, fun _ => read⟩
  · exact (refuses _ _ _ read).elim

/-- Nothing that is read on the way depends on the value. -/
theorem bind {reader : Reader α} {next : α → σ → Reader σ}
    (later : ∀ found, ChangesAlike family (next found)) :
    ChangesAlike family fun value => reader >>= fun found => next found value := by
  intro cursor
  rcases read : reader cursor with ⟨fault | found, middle⟩
  · exact .inl ⟨fault, middle, fun _ => bind_of_error read⟩
  · rcases later found middle with ⟨fault, after, ended⟩ | ⟨change, after, member, ended⟩
    · exact .inl ⟨fault, after, fun value => (bind_of_ok read).trans (ended value)⟩
    · exact .inr ⟨change, after, member, fun value => (bind_of_ok read).trans (ended value)⟩

theorem comp (closed : IsClosed family) {next : σ → Reader σ} (first : ChangesAlike family readers)
    (second : ChangesAlike family next) :
    ChangesAlike family fun value => readers value >>= next := by
  intro cursor
  rcases first cursor with ⟨fault, middle, read⟩ | ⟨change, middle, member, read⟩
  · exact .inl ⟨fault, middle, fun value => bind_of_error (read value)⟩
  · rcases second middle with ⟨fault, after, ended⟩ | ⟨change', after, member', ended⟩
    · exact .inl ⟨fault, after, fun value => (bind_of_ok (read value)).trans (ended _)⟩
    · exact .inr ⟨change' ∘ change, after, closed.comp member member',
        fun value => (bind_of_ok (read value)).trans (ended _)⟩

/-- A change that was read is made before the rest is read. -/
theorem change (closed : IsClosed family) {reader : Reader (σ → σ)} {next : σ → Reader σ}
    (reads : Yields family reader) (later : ChangesAlike family next) :
    ChangesAlike family fun value => reader >>= fun change => next (change value) := by
  intro cursor
  rcases read : reader cursor with ⟨fault | change, middle⟩
  · exact .inl ⟨fault, middle, fun _ => bind_of_error read⟩
  · rcases later middle with ⟨fault, after, ended⟩ | ⟨change', after, member, ended⟩
    · exact .inl ⟨fault, after, fun value => (bind_of_ok read).trans (ended _)⟩
    · exact .inr ⟨change' ∘ change, after, closed.comp (reads _ _ _ read) member,
        fun value => (bind_of_ok read).trans (ended _)⟩

theorem placing (inside : ChangesAlike family readers) :
    ChangesAlike family fun value => Reader.placing (readers value) := by
  intro cursor
  rcases inside cursor with ⟨⟨cause, _ | position⟩, after, read⟩ | ⟨change, after, member, read⟩
  · exact .inl ⟨{ cause, position := some after.position }, after,
      fun value => by simp only [Reader.placing, read]⟩
  · exact .inl ⟨{ cause, position := some position }, after,
      fun value => by simp only [Reader.placing, read]⟩
  · exact .inr ⟨change, after, member, fun value => by simp only [Reader.placing, read]⟩

theorem closing (inside : ChangesAlike family readers) (close : Reader Unit) :
    ChangesAlike family fun value => Reader.closing (readers value) close := by
  intro cursor
  rcases inside cursor with ⟨fault, middle, read⟩ | ⟨change, middle, member, read⟩
  · exact .inl ⟨fault, (close middle).2, fun value => by simp only [Reader.closing, read]⟩
  · rcases closed : close middle with ⟨fault | _, after⟩
    · exact .inl ⟨fault, after, fun value => by simp only [Reader.closing, read, closed]⟩
    · exact .inr ⟨change, after, member, fun value => by simp only [Reader.closing, read, closed]⟩

end ChangesAlike

/-! ## Records -/

section Records

variable {family : (σ → σ) → Prop} {fields : List (FieldReader σ)}

theorem elements_alike (closed : IsClosed family)
    (reads : ∀ field ∈ fields, Yields family field.read) (expected : String) (index : Nat)
    (first : Bool) : ChangesAlike family (elements expected index first fields) := by
  induction fields generalizing index first with
  | nil => exact .pure closed
  | cons field fields ih =>
    obtain ⟨read, others⟩ := List.forall_mem_cons.mp reads
    refine .of_eq (fun value => by rw [elements]) (.bind fun another => ?_)
    split
    · exact .change closed read (ih others _ _)
    · split
      · exact .refuse (refuses_failUnplaced _)
      · exact ih others _ _

theorem members_alike (closed : IsClosed family)
    (reads : ∀ field ∈ fields, Yields family field.read) (bound : Nat) (first : Bool)
    (seen : List String) : ChangesAlike family (members fields bound first seen) := by
  -- The names that were seen come from the text, so they are the same over every value.
  induction bound generalizing first seen with
  | zero => exact .refuse (refuses_fail _)
  | succ bound ih =>
    refine .of_eq (fun value => by rw [members]) (.bind fun another => ?_)
    split
    · refine .bind fun _ => .bind fun name => ?_
      split
      · exact .bind fun _ => .bind fun _ => ih _ _
      · rename_i field found
        split
        · exact .refuse (refuses_failUnplaced _)
        · have member := List.mem_of_find?_eq_some found
          exact .bind fun _ => .change closed (reads field member) (ih _ _)
    · split
      · exact .refuse (refuses_failUnplaced _)
      · exact .pure closed

/-- A record makes the same change to every value, if it is read at all. -/
theorem record_alike (closed : IsClosed family)
    (reads : ∀ field ∈ fields, Yields family field.read) (title : String) :
    ChangesAlike family (record title fields) := by
  unfold record
  refine .bind fun next => ?_
  split
  · exact .placing (.bind fun _ => .closing (elements_alike closed reads _ _ _) _)
  · exact .placing (.bind fun _ => .bind fun _ => .closing (members_alike closed reads _ _ _) _)
  · exact .refuse (refuses_wrongType _)

theorem ChangesAlike.document {readers : σ → Reader σ} (closed : IsClosed family)
    (alike : ChangesAlike family readers) :
    ChangesAlike family fun value => Reader.document (readers value) := by
  unfold Reader.document
  refine alike.comp closed (.bind fun next => ?_)
  split
  · exact .refuse (refuses_failAhead _)
  · exact .pure closed

/-- A whole text is refused over every value, or it makes the same change to all of them. -/
theorem ChangesAlike.run {readers : σ → Reader σ} (closed : IsClosed family)
    (alike : ChangesAlike family readers) (bytes : List UInt8) :
    (∃ fault, ∀ value, Reader.run (readers value) bytes = .error fault) ∨
      ∃ change, family change ∧ ∀ value, Reader.run (readers value) bytes = .ok (change value) := by
  rcases alike.document closed (Cursor.start bytes) with
    ⟨fault, after, read⟩ | ⟨change, after, member, read⟩
  · exact .inl ⟨fault, fun value => congrArg Prod.fst (read value)⟩
  · exact .inr ⟨change, member, fun value => congrArg Prod.fst (read value)⟩

end Records

end ArtifactCache.Json
