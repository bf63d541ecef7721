import ArtifactCache.Index.Operation
import ArtifactCache.Proofs.Index.Release
import Mathlib.Data.List.Induction

/-! # The order of an index is that of the last touches

An index keeps no times.  The order of its entries nevertheless tells in which order their
keys were touched for the last time, where a key is touched by an insertion that is admitted
and by a look-up that finds it.  Each other request leaves the order as it is, and at most
takes out the entry of a key that is removed.
-/

namespace ArtifactCache.Index

/-! ## Requests and what happens in a run of them -/

/-- Something that a user asks of an index: an operation, or a look at its order. -/
inductive Request where
  | operate (operation : Operation)
  | oldest
  | snapshot
  deriving DecidableEq, Repr

def serve (index : Index) : Request → Index
  | .operate operation => index.perform operation
  | .oldest | .snapshot => index

def serveAll (index : Index) (requests : List Request) : Index :=
  requests.foldl serve index

def Admits (key : Key) (index : Index) : Request → Prop
  | .operate (.insert other file) => other = key ∧ (index.insert other file).admitted = true
  | _ => False

def Touches (key : Key) (index : Index) : Request → Prop
  | .operate (.insert other file) => other = key ∧ (index.insert other file).admitted = true
  | .operate (.touch other) => other = key ∧ (index.touch other).1.isSome = true
  | _ => False

section Happens

variable (budget : UInt64) (requests : List Request) (event : Index → Request → Prop)

/-- Whether something happens at a step of a run that starts from an empty index. -/
def HappensAt (step : Nat) : Prop :=
  ∃ request, requests[step]? = some request ∧
    event ((empty budget).serveAll (requests.take step)) request

/-- Whether something happens at a step of a run, and at no later one. -/
structure HappensLastAt (step : Nat) : Prop where
  happens : HappensAt budget requests event step
  last : ∀ later, step < later → ¬ HappensAt budget requests event later

end Happens

section Append

variable {budget : UInt64} {requests : List Request} {event : Index → Request → Prop}
  {request : Request} {step : Nat}

theorem serveAll_concat (index : Index) (requests : List Request) (request : Request) :
    index.serveAll (requests ++ [request]) = (index.serveAll requests).serve request := by
  rw [serveAll, List.foldl_append]
  rfl

theorem HappensAt.lt_length (happens : HappensAt budget requests event step) :
    step < requests.length := by
  obtain ⟨request, found, -⟩ := happens
  exact (List.getElem?_eq_some_iff.mp found).1

theorem happensAt_concat_of_lt (earlier : step < requests.length) :
    HappensAt budget (requests ++ [request]) event step ↔ HappensAt budget requests event step := by
  rw [HappensAt, HappensAt, List.getElem?_append_left earlier,
    List.take_append_of_le_length (Nat.le_of_lt earlier)]

theorem happensAt_concat_length :
    HappensAt budget (requests ++ [request]) event requests.length ↔
      event ((empty budget).serveAll requests) request := by
  simp [HappensAt]

theorem happensLastAt_concat (now : event ((empty budget).serveAll requests) request) :
    HappensLastAt budget (requests ++ [request]) event requests.length where
  happens := happensAt_concat_length.mpr now
  last later beyond happens := by
    have inside := happens.lt_length
    rw [List.length_append, List.length_singleton] at inside
    omega

theorem HappensLastAt.concat (before : HappensLastAt budget requests event step)
    (other : ¬ event ((empty budget).serveAll requests) request) :
    HappensLastAt budget (requests ++ [request]) event step where
  happens := (happensAt_concat_of_lt before.happens.lt_length).mpr before.happens
  last later beyond happens := by
    have inside := happens.lt_length
    rw [List.length_append, List.length_singleton] at inside
    rcases Nat.lt_or_eq_of_le (Nat.le_of_lt_succ inside) with earlier | rfl
    · exact before.last later beyond ((happensAt_concat_of_lt earlier).mp happens)
    · exact other (happensAt_concat_length.mp happens)

end Append

/-! ## One request -/

section Request

variable {index : Index} {key : Key} {request : Request}

theorem Touches.of_admits (admits : index.Admits key request) : index.Touches key request := by
  cases request with
  | operate operation =>
    cases operation with
    | insert other file => exact admits
    | _ => exact admits.elim
  | _ => exact admits.elim

theorem Sound.serve (sound : index.Sound) (request : Request) : (index.serve request).Sound := by
  cases request with
  | operate operation => exact sound.perform operation
  | oldest => exact sound
  | snapshot => exact sound

theorem Sound.serveAll (sound : index.Sound) (requests : List Request) :
    (index.serveAll requests).Sound := by
  induction requests generalizing index with
  | nil => exact sound
  | cons request rest ih => exact ih (sound.serve request)

/-- The entries without that of the key that a request removes, if it removes one. -/
def leftBy (entries : List Entry) : Request → List Entry
  | .operate (.remove key) => without entries key
  | _ => entries

theorem sublist_leftBy (entries : List Entry) (request : Request) :
    (leftBy entries request).Sublist entries := by
  unfold leftBy
  split
  · exact List.filter_sublist
  · exact .refl _

/-- A request that touches no key leaves the order of the entries.  It takes an entry out only
if it is the removal of its key. -/
theorem entries_serve_of_untouched (untouched : ∀ key, ¬ index.Touches key request) :
    (index.serve request).entries = leftBy index.entries request := by
  cases request with
  | oldest => rfl
  | snapshot => rfl
  | operate operation =>
    cases operation with
    | peek key => rfl
    | contains key => rfl
    | insert key file =>
      have large : index.budget < file.diskSize :=
        UInt64.not_le.mp fun small => untouched key ⟨rfl, admitted_insert.mpr small⟩
      simp only [serve, perform, insert_of_lt large, leftBy]
    | touch key =>
      cases found : find? index.entries key with
      | none => simp only [serve, perform, touch, found, leftBy]
      | some entry => exact absurd ⟨rfl, by simp [touch, found]⟩ (untouched key)
    | remove key =>
      cases found : find? index.entries key with
      | none =>
        simp only [serve, perform, remove, found]
        exact (without_of_notMem (find?_eq_none_iff.mp found)).symm
      | some entry => simp only [serve, perform, remove, found, leftBy]

/-- A request that touches a key puts its entry to the end.  Of the entries of other keys it
takes out some, and it leaves the order of the rest. -/
theorem exists_of_touches (sound : index.Sound) (touches : index.Touches key request) :
    ∃ between file, (index.serve request).entries = between ++ [(key, file)] ∧
      between.Sublist (without index.entries key) ∧
      (request = .operate (.insert key file) ∨
        request = .operate (.touch key) ∧ (key, file) ∈ index.entries) := by
  cases request with
  | oldest => exact touches.elim
  | snapshot => exact touches.elim
  | operate operation =>
    cases operation with
    | peek key => exact touches.elim
    | contains key => exact touches.elim
    | remove key => exact touches.elim
    | insert other file =>
      obtain ⟨rfl, admitted⟩ := touches
      obtain ⟨gone, between, split, -, entries⟩ :=
        exists_split_insert sound (admitted_insert.mp admitted)
      exact ⟨between, file, entries, split ▸ List.sublist_append_right _ _, .inl rfl⟩
    | touch other =>
      obtain ⟨rfl, hit⟩ := touches
      cases found : find? index.entries other with
      | none => simp [touch, found] at hit
      | some entry =>
        obtain ⟨member, rfl⟩ := mem_of_find? found
        refine ⟨without index.entries entry.1, entry.2, ?_, .refl _, .inr ⟨rfl, member⟩⟩
        rw [serve, perform, touch_of_found found, renewed]

end Request

/-! ## Runs -/

/-- Whether entries stand in the order in which their keys were touched for the last time in a
run, each with the file that was admitted last for its key. -/
structure InOrderOfTouch (budget : UInt64) (requests : List Request) (entries : List Entry) :
    Prop where
  touched : ∀ entry ∈ entries, ∃ step, HappensLastAt budget requests (Touches entry.1) step
  ordered : entries.Pairwise fun first second => ∀ step step',
    HappensLastAt budget requests (Touches first.1) step →
      HappensLastAt budget requests (Touches second.1) step' → step < step'
  admitted : ∀ entry ∈ entries, ∃ step, HappensLastAt budget requests (Admits entry.1) step ∧
    requests[step]? = some (.operate (.insert entry.1 entry.2))

section Run

variable {budget : UInt64} {requests : List Request} {request : Request}
  {entries fewer : List Entry}

theorem HappensLastAt.unique {event : Index → Request → Prop} {step step' : Nat}
    (first : HappensLastAt budget requests event step)
    (second : HappensLastAt budget requests event step') : step = step' := by
  rcases Nat.lt_trichotomy step step' with less | same | greater
  · exact absurd second.happens (first.last step' less)
  · exact same
  · exact absurd first.happens (second.last step greater)

theorem InOrderOfTouch.sublist (inOrder : InOrderOfTouch budget requests entries)
    (part : fewer.Sublist entries) : InOrderOfTouch budget requests fewer where
  touched entry member := inOrder.touched entry (part.mem member)
  ordered := inOrder.ordered.sublist part
  admitted entry member := inOrder.admitted entry (part.mem member)

theorem InOrderOfTouch.concat (inOrder : InOrderOfTouch budget requests entries)
    (others : ∀ entry ∈ entries, ¬ Touches entry.1 ((empty budget).serveAll requests) request) :
    InOrderOfTouch budget (requests ++ [request]) entries where
  touched entry member := by
    obtain ⟨step, last⟩ := inOrder.touched entry member
    exact ⟨step, last.concat (others entry member)⟩
  ordered := by
    refine inOrder.ordered.imp_of_mem fun {first second} member member' less => ?_
    intro step step' last last'
    obtain ⟨before, lastBefore⟩ := inOrder.touched first member
    obtain ⟨before', lastBefore'⟩ := inOrder.touched second member'
    rw [last.unique (lastBefore.concat (others first member)),
      last'.unique (lastBefore'.concat (others second member'))]
    exact less before before' lastBefore lastBefore'
  admitted entry member := by
    obtain ⟨step, last, file⟩ := inOrder.admitted entry member
    refine ⟨step, last.concat (mt Touches.of_admits (others entry member)), ?_⟩
    rw [List.getElem?_append_left last.happens.lt_length, file]

theorem InOrderOfTouch.concat_touched {key : Key} {file : StoredFile}
    (inOrder : InOrderOfTouch budget (requests ++ [request]) entries)
    (others : ∀ entry ∈ entries, ¬ Touches entry.1 ((empty budget).serveAll requests) request)
    (now : Touches key ((empty budget).serveAll requests) request)
    (admitted : ∃ step, HappensLastAt budget (requests ++ [request]) (Admits key) step ∧
      (requests ++ [request])[step]? = some (.operate (.insert key file))) :
    InOrderOfTouch budget (requests ++ [request]) (entries ++ [(key, file)]) where
  touched := List.forall_mem_append.mpr
    ⟨inOrder.touched, by simpa using ⟨_, happensLastAt_concat now⟩⟩
  ordered := by
    refine List.pairwise_append.mpr ⟨inOrder.ordered, List.pairwise_singleton _ _, ?_⟩
    intro first member second isNew step step' last last'
    obtain rfl := List.mem_singleton.mp isNew
    obtain rfl := last'.unique (happensLastAt_concat now)
    have inside := last.happens.lt_length
    rw [List.length_append, List.length_singleton] at inside
    refine Nat.lt_of_le_of_ne (Nat.le_of_lt_succ inside) ?_
    rintro rfl
    exact others first member (happensAt_concat_length.mp last.happens)
  admitted := List.forall_mem_append.mpr ⟨inOrder.admitted, by simpa using admitted⟩

/-- The entries of an index are in the order of touch after every run. -/
theorem inOrderOfTouch_entries (budget : UInt64) (requests : List Request) :
    InOrderOfTouch budget requests ((empty budget).serveAll requests).entries := by
  induction requests using List.reverseRecOn with
  | nil => exact ⟨by simp [serveAll, empty], .nil, by simp [serveAll, empty]⟩
  | append_singleton requests request ih =>
    have sound : ((empty budget).serveAll requests).Sound := (sound_empty budget).serveAll requests
    rw [serveAll_concat]
    by_cases touched : ∃ key, Touches key ((empty budget).serveAll requests) request
    · obtain ⟨key, touches⟩ := touched
      obtain ⟨between, file, entries, part, cause⟩ := exists_of_touches sound touches
      have only : ∀ other, Touches other ((empty budget).serveAll requests) request →
          other = key := by
        intro other touchesOther
        rcases cause with rfl | ⟨rfl, -⟩
        · exact touchesOther.1.symm
        · exact touchesOther.1.symm
      have others : ∀ entry ∈ between,
          ¬ Touches entry.1 ((empty budget).serveAll requests) request := by
        intro entry member touchesOther
        exact (mem_without.mp (part.mem member)).2 (only _ touchesOther)
      have rest := (ih.sublist (part.trans List.filter_sublist)).concat others
      rw [entries]
      refine rest.concat_touched others touches ?_
      rcases cause with rfl | ⟨rfl, present⟩
      · exact ⟨_, happensLastAt_concat touches, by simp⟩
      · obtain ⟨step, last, stored⟩ := ih.admitted _ present
        refine ⟨step, last.concat id, ?_⟩
        rw [List.getElem?_append_left last.happens.lt_length, stored]
    · have untouched := not_exists.mp touched
      have part : (((empty budget).serveAll requests).serve request).entries.Sublist
          ((empty budget).serveAll requests).entries := by
        rw [entries_serve_of_untouched untouched]
        exact sublist_leftBy _ request
      exact (ih.sublist part).concat fun entry _ => untouched entry.1

end Run

/-- After every run of an index its entries, of which the oldest is the first, are in the order
in which their keys were touched for the last time, and each holds the file that was admitted
last for its key.  A request that touches no key leaves them in this order, and all of them
there, but for the entry of a key that is removed. -/
theorem run_orders_by_last_touch (budget : UInt64) (requests : List Request) :
    let index := (empty budget).serveAll requests
    InOrderOfTouch budget requests index.entries ∧
      (∀ key, index.contains key = true ↔ key ∈ index.entries.map Prod.fst) ∧
      index.oldest = index.entries.head? ∧
      ∀ request, (∀ key, ¬ index.Touches key request) →
        (index.serve request).entries = leftBy index.entries request := by
  intro index
  refine ⟨inOrderOfTouch_entries budget requests, fun key => ?_, rfl, fun request untouched => ?_⟩
  · rw [contains, Option.isSome_iff_ne_none, ne_eq, find?_eq_none_iff, not_not]
  · exact entries_serve_of_untouched untouched

/-- A look-up and a refused insertion: of four keys, the first was looked up again, the second
had to make room, and the third kept its place and its file when eleven bytes were refused. -/
example :
    let key (digit : Char) (hex : isHexDigit digit = true) : Key :=
      { kind := .raw, digest := .uniform digit hex }
    let file (diskSize : UInt64) : StoredFile :=
      { logicalSize := diskSize, diskSize, legacy := false, token := "t", sizedName := true }
    ((empty 10).serveAll
      [.operate (.insert (key 'a' rfl) (file 3)), .operate (.insert (key 'b' rfl) (file 4)),
        .operate (.insert (key 'c' rfl) (file 2)), .operate (.touch (key 'a' rfl)), .snapshot,
        .operate (.insert (key 'c' rfl) (file 11)),
        .operate (.insert (key 'd' rfl) (file 5))]).entries =
      [(key 'c' rfl, file 2), (key 'a' rfl, file 3), (key 'd' rfl, file 5)] := by
  decide +kernel

end ArtifactCache.Index
