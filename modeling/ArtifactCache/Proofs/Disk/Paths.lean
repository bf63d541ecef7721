import ArtifactCache.Disk.Walk
import Mathlib.Data.List.Induction

/-! # Paths that are put together

A path is taken apart at its slashes.  Where two paths are put together with a slash
between them, the parts of the whole are the parts of the one and then those of the
other.  A plain name is a single part, so the path of a location has the names of the
location for its steps.
-/

namespace ArtifactCache.DiskPath

/-! ## Parts -/

theorem segments_ne_nil (bytes : List UInt8) : segments bytes ≠ [] := by
  induction bytes with
  | nil => exact List.cons_ne_nil _ _
  | cons byte rest _ =>
    rw [segments]
    split
    · exact List.cons_ne_nil _ _
    · split <;> exact List.cons_ne_nil _ _

theorem segments_of_notMem {name : Name} (single : slash ∉ name) : segments name = [name] := by
  induction name with
  | nil => rfl
  | cons byte rest ih =>
    obtain ⟨other, single⟩ := not_or.mp (mt List.mem_cons.mpr single)
    rw [segments, if_neg (Ne.symm other), ih single]

theorem segments_append_slash (before after : List UInt8) :
    segments (before ++ slash :: after) = segments before ++ segments after := by
  induction before with
  | nil =>
    rw [List.nil_append, segments.eq_2, if_pos rfl]
    rfl
  | cons byte before ih =>
    rw [List.cons_append, segments, segments, ih]
    split
    · rw [List.cons_append]
    · cases parts : segments before with
      | nil => exact absurd parts (segments_ne_nil before)
      | cons first others => rfl

theorem slash_notMem_of_mem_segments {bytes : List UInt8} {name : Name}
    (member : name ∈ segments bytes) : slash ∉ name := by
  induction bytes generalizing name with
  | nil =>
    obtain rfl := List.mem_singleton.mp member
    exact List.not_mem_nil
  | cons byte rest ih =>
    rw [segments] at member
    split at member
    next =>
      rcases List.mem_cons.mp member with rfl | later
      · exact List.not_mem_nil
      · exact ih later
    next other =>
      split at member
      next nothing => exact absurd nothing (segments_ne_nil rest)
      next first others parts =>
        rcases List.mem_cons.mp member with rfl | later
        · have clean : slash ∉ first := ih (by simp [parts])
          simp [clean, Ne.symm other]
        · exact ih (by simp [parts, later])

theorem slash_notMem_of_named_mem {path : DiskPath} {name : Name}
    (member : .named name ∈ path.components) : slash ∉ name := by
  have among : .named name ∈ (segments path.bytes).filterMap component? := by
    rw [components] at member
    split_ifs at member <;> simpa using member
  obtain ⟨segment, isSegment, found⟩ := List.mem_filterMap.mp among
  rw [component?] at found
  split_ifs at found <;> cases found
  exact slash_notMem_of_mem_segments isSegment

theorem slash_notMem_of_into_mem {path : DiskPath} {name : Name}
    (member : .into name ∈ path.steps) : slash ∉ name := by
  obtain ⟨segment, isSegment, found⟩ := List.mem_filterMap.mp member
  rw [step?] at found
  split_ifs at found <;> cases found
  exact slash_notMem_of_mem_segments isSegment

theorem steps_of_notMem {name : Name} (single : slash ∉ name) :
    DiskPath.steps ⟨name⟩ = (step? name).toList := by
  rw [steps, segments_of_notMem single]
  cases found : step? name <;> simp [found]

theorem endsInSlash_append {name : Name} (nonempty : name ≠ []) (single : slash ∉ name)
    (before : List UInt8) : DiskPath.endsInSlash ⟨before ++ name⟩ = false := by
  have last : (before ++ name).getLast? = name.getLast? := by
    rw [List.getLast?_append, Option.or_of_isSome]
    exact List.getLast?_isSome.mpr nonempty
  rw [endsInSlash, last, beq_eq_false_iff_ne]
  exact fun ends => single (List.mem_of_getLast? ends)

/-- A name that a path can name is one that a walk can step into. -/
theorem step?_of_component? {name : Name} (named : component? name = some (.named name)) :
    step? name = some (.into name) := by
  rw [component?] at named
  rw [step?]
  split at named
  · cases named
  · rename_i proper
    obtain ⟨nonempty, ne_dot⟩ := not_or.mp proper
    split at named
    · cases named
    · rename_i ne_dotDot
      rw [if_neg nonempty, if_neg ne_dot, if_neg ne_dotDot]

theorem isAbsolute_of_notMem {name : Name} (single : slash ∉ name) :
    DiskPath.isAbsolute ⟨name⟩ = false := by
  cases name with
  | nil => rfl
  | cons byte rest =>
    have other : byte ≠ slash := Ne.symm (not_or.mp (mt List.mem_cons.mpr single)).1
    simpa [isAbsolute] using other

/-! ## Putting paths together -/

theorem join_of_isAbsolute {base below : DiskPath} (absolute : below.isAbsolute = true) :
    base.join below = below := by
  rw [join, if_pos absolute]

theorem join_of_ready {base below : DiskPath} (relative : below.isAbsolute = false)
    (ready : (base.bytes.isEmpty || base.endsInSlash) = true) :
    base.join below = ⟨base.bytes ++ below.bytes⟩ := by
  rw [join, if_neg (by simp [relative]), if_pos ready]

theorem join_of_not_ready {base below : DiskPath} (relative : below.isAbsolute = false)
    (unready : (base.bytes.isEmpty || base.endsInSlash) = false) :
    base.join below = ⟨base.bytes ++ slash :: below.bytes⟩ := by
  rw [join, if_neg (by simp [relative]), if_neg (by simp [unready])]

/-- Behind the same base different relative paths lead to different ones. -/
theorem join_injective {base first second : DiskPath} (relative : first.isAbsolute = false)
    (relative' : second.isAbsolute = false) (same : base.join first = base.join second) :
    first = second := by
  have bytes := congrArg DiskPath.bytes same
  cases ready : base.bytes.isEmpty || base.endsInSlash with
  | true =>
    rw [join_of_ready relative ready, join_of_ready relative' ready] at bytes
    exact congrArg DiskPath.mk (List.append_cancel_left bytes)
  | false =>
    rw [join_of_not_ready relative ready, join_of_not_ready relative' ready] at bytes
    exact congrArg DiskPath.mk (List.cons.inj (List.append_cancel_left bytes)).2

theorem exists_of_endsInSlash {path : DiskPath} (ends : path.endsInSlash = true) :
    ∃ before, path.bytes = before ++ [slash] := by
  rw [endsInSlash, beq_iff_eq, List.getLast?_eq_some_iff] at ends
  exact ends

theorem steps_join {base below : DiskPath} (relative : below.isAbsolute = false) :
    (base.join below).steps = base.steps ++ below.steps := by
  cases ready : base.bytes.isEmpty || base.endsInSlash with
  | false =>
    rw [join_of_not_ready relative ready, steps, segments_append_slash, List.filterMap_append]
    rfl
  | true =>
    rw [join_of_ready relative ready]
    rcases Bool.or_eq_true_iff.mp ready with empty | ends
    · rw [steps, steps, List.isEmpty_iff.mp empty]
      rfl
    · obtain ⟨before, bytes⟩ := exists_of_endsInSlash ends
      simp only [steps, bytes, List.append_assoc, List.singleton_append, segments_append_slash,
        List.filterMap_append]
      rfl

/-- A path with more slashes at its end. -/
def padded (path : DiskPath) (number : Nat) : DiskPath :=
  ⟨path.bytes ++ List.replicate number slash⟩

theorem steps_padded (path : DiskPath) (number : Nat) :
    (path.padded number).steps = path.steps := by
  induction number generalizing path with
  | zero => rw [padded, List.replicate_zero, List.append_nil]
  | succ number ih =>
    have first : path.padded (number + 1) = padded ⟨path.bytes ++ [slash]⟩ number := by
      rw [padded, padded, List.replicate_succ, List.append_assoc, List.singleton_append]
    rw [first, ih, steps, segments_append_slash, List.filterMap_append]
    exact List.append_nil _

theorem isAbsolute_join {base below : DiskPath} (absolute : base.isAbsolute = true) :
    (base.join below).isAbsolute = true := by
  cases relative : below.isAbsolute with
  | true => rwa [join_of_isAbsolute relative]
  | false =>
    obtain ⟨bytes⟩ := base
    cases bytes with
    | nil => cases absolute
    | cons byte rest =>
      cases ready : (byte :: rest).isEmpty || (DiskPath.mk (byte :: rest)).endsInSlash with
      | false => rwa [join_of_not_ready relative ready]
      | true => rwa [join_of_ready relative ready]

/-! ## Plain names -/

/-- What a plain name is like. -/
structure IsPlain (name : Name) : Prop where
  nonempty : name ≠ []
  ne_dot : name ≠ dot
  ne_dotDot : name ≠ dotDot
  single : slash ∉ name
  noNull : 0 ∉ name
  short : name.length ≤ longestName

theorem isPlainName_iff {name : Name} : isPlainName name = true ↔ IsPlain name := by
  simp only [isPlainName, Bool.and_eq_true, decide_eq_true_eq, Bool.not_eq_true',
    List.contains_eq_mem, decide_eq_false_iff_not]
  exact ⟨fun ⟨⟨⟨⟨⟨nonempty, ne_dot⟩, ne_dotDot⟩, single⟩, noNull⟩, short⟩ =>
      ⟨nonempty, ne_dot, ne_dotDot, single, noNull, short⟩,
    fun plain => ⟨⟨⟨⟨⟨plain.nonempty, plain.ne_dot⟩, plain.ne_dotDot⟩, plain.single⟩,
      plain.noNull⟩, plain.short⟩⟩

theorem IsPlain.step? {name : Name} (plain : IsPlain name) : step? name = some (.into name) := by
  rw [DiskPath.step?, if_neg plain.nonempty, if_neg plain.ne_dot, if_neg plain.ne_dotDot]

theorem IsPlain.steps {name : Name} (plain : IsPlain name) :
    DiskPath.steps ⟨name⟩ = [.into name] := by
  rw [steps_of_notMem plain.single, plain.step?]
  rfl

theorem IsPlain.steps_child {name : Name} (plain : IsPlain name) (base : DiskPath) :
    (base.child name).steps = base.steps ++ [.into name] := by
  rw [child, steps_join (isAbsolute_of_notMem plain.single), plain.steps]

theorem IsPlain.component? {name : Name} (plain : IsPlain name) :
    component? name = some (.named name) := by
  rw [DiskPath.component?, if_neg (not_or.mpr ⟨plain.nonempty, plain.ne_dot⟩),
    if_neg plain.ne_dotDot]

theorem IsPlain.endsInSlash_append {name : Name} (plain : IsPlain name) (before : List UInt8) :
    DiskPath.endsInSlash ⟨before ++ name⟩ = false :=
  DiskPath.endsInSlash_append plain.nonempty plain.single before

theorem IsPlain.endsInSlash_child {name : Name} (plain : IsPlain name) (base : DiskPath) :
    (base.child name).endsInSlash = false := by
  have relative := isAbsolute_of_notMem plain.single
  cases ready : base.bytes.isEmpty || base.endsInSlash with
  | false =>
    rw [child, join_of_not_ready relative ready, ← List.singleton_append, ← List.append_assoc]
    exact plain.endsInSlash_append _
  | true =>
    rw [child, join_of_ready relative ready]
    exact plain.endsInSlash_append _

/-! ## The paths of locations -/

theorem ofLocation_append (location : Location) (name : Name) :
    ofLocation (location ++ [name]) = (ofLocation location).child name :=
  List.foldl_append

theorem isAbsolute_ofLocation (location : Location) : (ofLocation location).isAbsolute = true := by
  induction location using List.reverseRecOn with
  | nil => rfl
  | append_singleton location name ih =>
    rw [ofLocation_append]
    exact isAbsolute_join ih

theorem bytes_ofLocation_ne_nil (location : Location) : (ofLocation location).bytes ≠ [] := by
  intro empty
  have absolute := isAbsolute_ofLocation location
  rw [isAbsolute, empty] at absolute
  cases absolute

theorem endsInSlash_ofLocation {location : Location} (plain : ∀ name ∈ location, IsPlain name)
    (below : location ≠ []) : (ofLocation location).endsInSlash = false := by
  obtain ⟨before, name, rfl⟩ := (List.eq_nil_or_concat location).resolve_left below
  rw [List.concat_eq_append, ofLocation_append]
  exact (plain name (by simp)).endsInSlash_child _

theorem steps_ofLocation {location : Location} (plain : ∀ name ∈ location, IsPlain name) :
    (ofLocation location).steps = location.map .into := by
  induction location using List.reverseRecOn with
  | nil => rfl
  | append_singleton location name ih =>
    obtain ⟨plain, last⟩ := List.forall_mem_append.mp plain
    rw [ofLocation_append, (last name (by simp)).steps_child, ih plain, List.map_append]
    rfl

theorem ofLocation_injective {location other : Location} (plain : ∀ name ∈ location, IsPlain name)
    (plain' : ∀ name ∈ other, IsPlain name) (same : ofLocation location = ofLocation other) :
    location = other := by
  have steps := congrArg DiskPath.steps same
  rw [steps_ofLocation plain, steps_ofLocation plain'] at steps
  exact (List.map_inj_right fun _ _ => Step.into.inj).mp steps

theorem length_child_le {base : DiskPath} {first second : Name} (plain : slash ∉ first)
    (plain' : slash ∉ second) (le : first.length ≤ second.length) :
    (base.child first).bytes.length ≤ (base.child second).bytes.length := by
  have relative := isAbsolute_of_notMem plain
  have relative' := isAbsolute_of_notMem plain'
  cases ready : base.bytes.isEmpty || base.endsInSlash with
  | false =>
    rw [child, child, join_of_not_ready relative ready, join_of_not_ready relative' ready]
    simpa using le
  | true =>
    rw [child, child, join_of_ready relative ready, join_of_ready relative' ready]
    simpa using le

theorem length_le_child (base : DiskPath) {name : Name} (plain : slash ∉ name) :
    base.bytes.length ≤ (base.child name).bytes.length := by
  have relative := isAbsolute_of_notMem plain
  cases ready : base.bytes.isEmpty || base.endsInSlash with
  | false =>
    rw [child, join_of_not_ready relative ready, List.length_append]
    omega
  | true =>
    rw [child, join_of_ready relative ready, List.length_append]
    omega

theorem length_child_le_add (base : DiskPath) {name : Name} (plain : slash ∉ name) :
    (base.child name).bytes.length ≤ base.bytes.length + (name.length + 1) := by
  have relative := isAbsolute_of_notMem plain
  cases ready : base.bytes.isEmpty || base.endsInSlash with
  | false =>
    rw [child, join_of_not_ready relative ready]
    simp
  | true =>
    rw [child, join_of_ready relative ready]
    simp

theorem noNull_child {base : DiskPath} {name : Name} (noNull : 0 ∉ base.bytes)
    (plain : IsPlain name) : 0 ∉ (base.child name).bytes := by
  have relative := isAbsolute_of_notMem plain.single
  cases ready : base.bytes.isEmpty || base.endsInSlash with
  | false =>
    rw [child, join_of_not_ready relative ready]
    simp [noNull, plain.noNull, slash]
  | true =>
    rw [child, join_of_ready relative ready]
    simp [noNull, plain.noNull]

theorem noNull_ofLocation {location : Location} (plain : ∀ name ∈ location, IsPlain name) :
    0 ∉ (ofLocation location).bytes := by
  induction location using List.reverseRecOn with
  | nil => decide
  | append_singleton location name ih =>
    obtain ⟨plain, last⟩ := List.forall_mem_append.mp plain
    rw [ofLocation_append]
    exact noNull_child (ih plain) (last name (by simp))

/-- The path of a location is refused only for its length. -/
theorem checkForm_ofLocation {location : Location} (plain : ∀ name ∈ location, IsPlain name) :
    (ofLocation location).checkForm =
      if longestPath < (ofLocation location).bytes.length then .error .nameTooLong else .ok () := by
  rw [checkForm, if_neg (by simpa using noNull_ofLocation plain),
    if_neg (bytes_ofLocation_ne_nil location)]

/-! ## Paths of names -/

/-- The relative path that leads through names. -/
def ofNames : List Name → DiskPath
  | [] => ⟨[]⟩
  | first :: rest => rest.foldl child ⟨first⟩

theorem ofNames_append {names : List Name} (nonempty : names ≠ []) (name : Name) :
    ofNames (names ++ [name]) = (ofNames names).child name := by
  cases names with
  | nil => exact absurd rfl nonempty
  | cons first rest => exact List.foldl_append

/-- What a relative path is like that leads through names. -/
structure LeadsBelow (path : DiskPath) : Prop where
  relative : path.isAbsolute = false
  nonempty : path.bytes ≠ []
  noSlash : path.endsInSlash = false

theorem LeadsBelow.child {path : DiskPath} (leads : path.LeadsBelow) {name : Name}
    (plain : IsPlain name) :
    path.child name = ⟨path.bytes ++ slash :: name⟩ ∧ (path.child name).LeadsBelow := by
  have unready : (path.bytes.isEmpty || path.endsInSlash) = false :=
    Bool.or_eq_false_iff.mpr ⟨List.isEmpty_eq_false_iff.mpr leads.nonempty, leads.noSlash⟩
  have whole : path.child name = ⟨path.bytes ++ slash :: name⟩ :=
    join_of_not_ready (isAbsolute_of_notMem plain.single) unready
  refine ⟨whole, ?_, ?_, plain.endsInSlash_child path⟩
  · rw [whole, isAbsolute, List.head?_append,
      Option.or_of_isSome (List.isSome_head?.mpr leads.nonempty)]
    exact leads.relative
  · rw [whole]
    simp

theorem leadsBelow_ofNames {names : List Name} (plain : ∀ name ∈ names, IsPlain name)
    (nonempty : names ≠ []) : (ofNames names).LeadsBelow := by
  induction names using List.reverseRecOn with
  | nil => exact absurd rfl nonempty
  | append_singleton names name ih =>
    obtain ⟨plain, last⟩ := List.forall_mem_append.mp plain
    have plainName := last name (by simp)
    rcases List.eq_nil_or_concat names with rfl | ⟨_, _, split⟩
    · refine ⟨isAbsolute_of_notMem plainName.single, plainName.nonempty, ?_⟩
      exact plainName.endsInSlash_append []
    · have before : names ≠ [] := by simp [split]
      rw [ofNames_append before]
      exact ((ih plain before).child plainName).2

/-- Behind a relative path a name can be put before or after the two are put together. -/
theorem join_child {base below : DiskPath} (leads : below.LeadsBelow) {name : Name}
    (plain : IsPlain name) : base.join (below.child name) = (base.join below).child name := by
  obtain ⟨whole, leadsChild⟩ := leads.child plain
  have notReady : ∀ before : List UInt8, ((before ++ below.bytes).isEmpty ||
      DiskPath.endsInSlash ⟨before ++ below.bytes⟩) = false := by
    intro before
    refine Bool.or_eq_false_iff.mpr ⟨by simp [leads.nonempty], ?_⟩
    rw [endsInSlash, List.getLast?_append,
      Option.or_of_isSome (List.getLast?_isSome.mpr leads.nonempty)]
    exact leads.noSlash
  have relative := isAbsolute_of_notMem plain.single
  cases ready : base.bytes.isEmpty || base.endsInSlash with
  | true =>
    rw [join_of_ready leadsChild.relative ready, join_of_ready leads.relative ready, whole, child,
      join_of_not_ready relative (notReady _), List.append_assoc]
  | false =>
    have unready := notReady (base.bytes ++ [slash])
    rw [List.append_assoc, List.singleton_append] at unready
    rw [join_of_not_ready leadsChild.relative ready, join_of_not_ready leads.relative ready,
      whole, child, join_of_not_ready relative unready]
    simp only [List.append_assoc, List.cons_append]

/-- The path that leads from a root through names. -/
def below (root : DiskPath) (names : List Name) : DiskPath :=
  names.foldl child root

theorem below_append (root : DiskPath) (names : List Name) (name : Name) :
    root.below (names ++ [name]) = (root.below names).child name :=
  List.foldl_append

theorem below_ofLocation (location : Location) (names : List Name) :
    (ofLocation location).below names = ofLocation (location ++ names) :=
  List.foldl_append.symm

/-- Behind a root the relative path of names leads on through them. -/
theorem join_ofNames_eq_below (root : DiskPath) {names : List Name}
    (plain : ∀ name ∈ names, IsPlain name) (nonempty : names ≠ []) :
    root.join (ofNames names) = root.below names := by
  induction names using List.reverseRecOn with
  | nil => exact absurd rfl nonempty
  | append_singleton names name ih =>
    obtain ⟨plain, last⟩ := List.forall_mem_append.mp plain
    rcases List.eq_nil_or_concat names with rfl | ⟨_, _, split⟩
    · rfl
    · have before : names ≠ [] := by simp [split]
      rw [ofNames_append before, join_child (leadsBelow_ofNames plain before) (last name (by simp)),
        ih plain before, below_append]

theorem join_ofNames (location : Location) {names : List Name}
    (plain : ∀ name ∈ names, IsPlain name) (nonempty : names ≠ []) :
    (ofLocation location).join (ofNames names) = ofLocation (location ++ names) :=
  (join_ofNames_eq_below _ plain nonempty).trans (below_ofLocation location names)

theorem segments_ofNames {names : List Name} (plain : ∀ name ∈ names, IsPlain name)
    (nonempty : names ≠ []) : segments (ofNames names).bytes = names := by
  induction names using List.reverseRecOn with
  | nil => exact absurd rfl nonempty
  | append_singleton names name ih =>
    obtain ⟨plain, last⟩ := List.forall_mem_append.mp plain
    have plainName := last name (by simp)
    rcases List.eq_nil_or_concat names with rfl | ⟨_, _, split⟩
    · exact segments_of_notMem plainName.single
    · have before : names ≠ [] := by simp [split]
      rw [ofNames_append before, ((leadsBelow_ofNames plain before).child plainName).1,
        segments_append_slash, ih plain before, segments_of_notMem plainName.single]

theorem components_ofNames {names : List Name} (plain : ∀ name ∈ names, IsPlain name)
    (nonempty : names ≠ []) : (ofNames names).components = names.map .named := by
  have parts : names.filterMap component? = names.map .named := by
    clear nonempty
    induction names with
    | nil => rfl
    | cons name names ih =>
      obtain ⟨first, rest⟩ := List.forall_mem_cons.mp plain
      rw [List.filterMap_cons, first.component?, ih rest, List.map_cons]
  have front : names.head? ≠ some dot := by
    intro same
    obtain ⟨rest, rfl⟩ := List.head?_eq_some_iff.mp same
    exact (plain dot (by simp)).ne_dot rfl
  rw [components, segments_ofNames plain nonempty, parts,
    (leadsBelow_ofNames plain nonempty).relative, if_neg front]
  rfl

end ArtifactCache.DiskPath
