import Mathlib.Data.List.Forall2

/-! # Outcomes of several steps

Where steps that may fail are taken one after the other, the whole succeeds exactly if
every step does.
-/

namespace ArtifactCache

variable {Error First Last : Type}

theorem bind_eq_ok_iff {result : Except Error First} {next : First → Except Error Last}
    {last : Last} : (result >>= next) = .ok last ↔
      ∃ value, result = .ok value ∧ next value = .ok last := by
  cases result with
  | error error => simp [bind, Except.bind]
  | ok value => simp [bind, Except.bind]

theorem mapM_eq_ok_iff {step : First → Except Error Last} {items : List First}
    {values : List Last} : items.mapM step = .ok values ↔
      List.Forall₂ (fun item value => step item = .ok value) items values := by
  induction items generalizing values with
  | nil => simp [pure, Except.pure, eq_comm]
  | cons item items ih =>
    rw [List.mapM_cons, List.forall₂_cons_left_iff]
    constructor
    · intro done
      obtain ⟨value, first, done⟩ := bind_eq_ok_iff.mp done
      obtain ⟨rest, others, done⟩ := bind_eq_ok_iff.mp done
      exact ⟨value, rest, first, ih.mp others, (Except.ok.inj done).symm⟩
    · rintro ⟨value, rest, first, others, rfl⟩
      rw [first, ih.mpr others]
      rfl

theorem exists_of_mapM_eq_ok {step : First → Except Error Last} {items : List First}
    {values : List Last} (done : items.mapM step = .ok values) {item : First}
    (member : item ∈ items) : ∃ value ∈ values, step item = .ok value := by
  have pairs := mapM_eq_ok_iff.mp done
  clear done
  induction pairs with
  | nil => cases member
  | cons first _ ih =>
    rcases List.mem_cons.mp member with rfl | later
    · exact ⟨_, List.mem_cons_self, first⟩
    · obtain ⟨value, among, dealt⟩ := ih later
      exact ⟨value, List.mem_cons_of_mem _ among, dealt⟩

theorem exists_mapM_eq_ok {step : First → Except Error Last} {items : List First}
    (each : ∀ item ∈ items, ∃ value, step item = .ok value) :
    ∃ values, items.mapM step = .ok values := by
  induction items with
  | nil => exact ⟨[], rfl⟩
  | cons item items ih =>
    obtain ⟨⟨value, first⟩, others⟩ := List.forall_mem_cons.mp each
    obtain ⟨values, rest⟩ := ih others
    exact ⟨value :: values, mapM_eq_ok_iff.mpr (.cons first (mapM_eq_ok_iff.mp rest))⟩

theorem exists_item_of_mapM_eq_ok {step : First → Except Error Last} {items : List First}
    {values : List Last} (done : items.mapM step = .ok values) {value : Last}
    (member : value ∈ values) : ∃ item ∈ items, step item = .ok value := by
  have pairs := mapM_eq_ok_iff.mp done
  clear done
  induction pairs with
  | nil => cases member
  | cons first _ ih =>
    rcases List.mem_cons.mp member with rfl | later
    · exact ⟨_, List.mem_cons_self, first⟩
    · obtain ⟨item, among, dealt⟩ := ih later
      exact ⟨item, List.mem_cons_of_mem _ among, dealt⟩

/-- The error is that of the first item whose step fails. -/
theorem exists_first_of_mapM_eq_error {step : First → Except Error Last} {items : List First}
    {error : Error} (stopped : items.mapM step = .error error) :
    ∃ before item after values, items = before ++ item :: after ∧
      before.mapM step = .ok values ∧ step item = .error error := by
  induction items with
  | nil => cases stopped
  | cons item items ih =>
    rw [List.mapM_cons] at stopped
    cases first : step item with
    | error refused =>
      rw [first] at stopped
      obtain rfl := Except.error.inj stopped
      exact ⟨[], item, items, [], rfl, rfl, first⟩
    | ok value =>
      cases rest : items.mapM step with
      | error later =>
        rw [first, rest] at stopped
        obtain rfl := Except.error.inj stopped
        obtain ⟨before, other, after, values, rfl, done, refused⟩ := ih rest
        exact ⟨item :: before, other, after, value :: values, rfl,
          mapM_eq_ok_iff.mpr (.cons first (mapM_eq_ok_iff.mp done)), refused⟩
      | ok values =>
        rw [first, rest] at stopped
        cases stopped

theorem exists_item_of_mapM_eq_error {step : First → Except Error Last} {items : List First}
    {error : Error} (stopped : items.mapM step = .error error) :
    ∃ item ∈ items, step item = .error error := by
  obtain ⟨before, item, after, -, rfl, -, refused⟩ := exists_first_of_mapM_eq_error stopped
  exact ⟨item, List.mem_append_right _ List.mem_cons_self, refused⟩

/-- Some of the values are those of some of the items, in the same order. -/
theorem exists_sublist_of_mapM {step : First → Except Error Last} {items : List First}
    {values part : List Last} (done : items.mapM step = .ok values) (sublist : part.Sublist values) :
    ∃ chosen : List First, chosen.Sublist items ∧ chosen.mapM step = .ok part := by
  have pairs := mapM_eq_ok_iff.mp done
  clear done
  induction pairs generalizing part with
  | nil =>
    obtain rfl := List.sublist_nil.mp sublist
    exact ⟨[], .refl _, rfl⟩
  | cons first _ ih =>
    cases sublist with
    | cons _ rest =>
      obtain ⟨chosen, among, done⟩ := ih rest
      exact ⟨chosen, among.cons _, done⟩
    | cons_cons _ rest =>
      obtain ⟨chosen, among, done⟩ := ih rest
      exact ⟨_ :: chosen, among.cons_cons _, mapM_eq_ok_iff.mpr (.cons first (mapM_eq_ok_iff.mp done))⟩

/-- What all values have in common with their items they have in common in this order. -/
theorem map_eq_map_of_mapM {Shared : Type} {step : First → Except Error Last}
    {items : List First} {values : List Last} (done : items.mapM step = .ok values)
    {ofItem : First → Shared} {ofValue : Last → Shared}
    (agree : ∀ item value, step item = .ok value → ofValue value = ofItem item) :
    values.map ofValue = items.map ofItem := by
  have pairs := mapM_eq_ok_iff.mp done
  clear done
  induction pairs with
  | nil => rfl
  | cons first _ ih => rw [List.map_cons, List.map_cons, agree _ _ first, ih]

theorem perm_flatten_of_mapM {step : First → Except Error (List Last)} {items : List First}
    {lists : List (List Last)} (done : items.mapM step = .ok lists) {part : First → List Last}
    (parts : ∀ item ∈ items, ∀ list, step item = .ok list → list.Perm (part item)) :
    lists.flatten.Perm (items.flatMap part) := by
  have pairs := mapM_eq_ok_iff.mp done
  clear done
  induction pairs with
  | nil => exact .refl _
  | cons first _ ih =>
    rw [List.flatten_cons, List.flatMap_cons]
    exact (parts _ List.mem_cons_self _ first).append
      (ih fun item member => parts item (List.mem_cons_of_mem _ member))

end ArtifactCache
