import CallHierarchy.Proofs.Path

/-!
# Where paths lead

A path is a walk: it starts in a directory and ends in another. Joining two paths
is walking along one and then along the other, and the parent of a path that ends
in a name leads to all but that name. Normalizing spells out the end of the walk,
so two paths have the same normal form just if they lead to the same place.
-/

namespace CallHierarchy.Path

/-- The components of a path after the root or the leading `.`. -/
def steps (path : Path) : List Component :=
  path.segments.filterMap componentOf?

/-- Where a path leads from a directory, both given by their names, innermost first. -/
def lead (path : Path) (names : List String) : List String :=
  path.components.foldl walk names

theorem lead_eq (path : Path) (names : List String) :
    path.lead names = path.steps.foldl walk (if path.isAbsolute then [] else names) := by
  unfold lead components
  split
  · rfl
  · split <;> rfl

theorem lead_of_isAbsolute {path : Path} (isAbsolute : path.isAbsolute) (names : List String) :
    path.lead names = path.lead [] := by
  simp [lead_eq, isAbsolute]

/-! ### Joining -/

theorem segments_slash (before after : String) :
    (⟨before ++ "/" ++ after⟩ : Path).segments =
      (⟨before⟩ : Path).segments ++ (⟨after⟩ : Path).segments := by
  have slash : (before ++ "/" ++ after).toList = before.toList ++ '/' :: after.toList := by simp
  simp only [segments, slash, List.splitOn_append_cons_self, List.map_append]

theorem steps_slash (before after : String) :
    (⟨before ++ "/" ++ after⟩ : Path).steps =
      (⟨before⟩ : Path).steps ++ (⟨after⟩ : Path).steps := by
  simp only [steps, segments_slash, List.filterMap_append]

theorem steps_empty : (⟨""⟩ : Path).steps = [] := by decide

theorem exists_slash_of_getLast? {text : String} (endsInSlash : text.toList.getLast? = some '/') :
    ∃ before : String, text = before ++ "/" := by
  rcases List.getLast?_eq_some_iff.1 endsInSlash with ⟨before, isText⟩
  refine ⟨String.ofList before, ?_⟩
  apply String.toList_inj.1
  simpa using isText

theorem isAbsolute_append {text : String} (notEmpty : text ≠ "") (after : String) :
    (⟨text ++ after⟩ : Path).isAbsolute = (⟨text⟩ : Path).isAbsolute := by
  have some : text.toList ≠ [] := by simpa using notEmpty
  simp only [Path.isAbsolute, String.toList_append, List.head?_append_of_ne_nil _ some]

/-- What a relative path adds comes after what was there. -/
theorem join_of_relative (directory : Path) {path : Path} (relative : path.isAbsolute = false) :
    (directory.join path).steps = directory.steps ++ path.steps ∧
    (directory.join path).isAbsolute = directory.isAbsolute := by
  rcases directory with ⟨text⟩
  simp only [join, relative, Bool.false_eq_true, if_false]
  split
  case isTrue isEmpty => simp only [isEmpty, steps_empty, List.nil_append, relative]; decide
  case isFalse notEmpty =>
    split
    case isTrue endsInSlash =>
      rcases exists_slash_of_getLast? endsInSlash with ⟨before, rfl⟩
      refine ⟨?_, isAbsolute_append notEmpty path.text⟩
      have front : (⟨before ++ "/"⟩ : Path).steps = (⟨before⟩ : Path).steps := by
        simpa [steps_empty] using steps_slash before ""
      rw [steps_slash, front]
    case isFalse =>
      refine ⟨steps_slash text path.text, ?_⟩
      rw [String.append_assoc]
      exact isAbsolute_append notEmpty _

/-- Joined paths are walked one after the other. -/
theorem lead_join (directory path : Path) (names : List String) :
    (directory.join path).lead names = path.lead (directory.lead names) := by
  by_cases isAbsolute : path.isAbsolute
  · rw [join, if_pos isAbsolute, lead_of_isAbsolute isAbsolute, lead_of_isAbsolute isAbsolute
      (directory.lead names)]
  · have relative : path.isAbsolute = false := by simpa using isAbsolute
    have joined := join_of_relative directory relative
    simp only [lead_eq, joined.1, joined.2, relative, List.foldl_append, Bool.false_eq_true,
      if_false]

theorem text_join_ne_empty {directory path : Path}
    (notEmpty : directory.text ≠ "" ∨ path.text ≠ "") (relative : path.isAbsolute = false) :
    (directory.join path).text ≠ "" := by
  simp only [join, relative, Bool.false_eq_true, if_false]
  split
  case isTrue isEmpty => simpa [isEmpty] using notEmpty
  case isFalse isFull => split <;> simp [isFull]

/-! ### Dropping the last component -/

/-- Whether a component can stand anywhere in a path. -/
inductive IsStep : Component → Prop
  | parent : IsStep .parent
  | name {text : String} (isName : IsName text) : IsStep (.name text)

theorem IsStep.componentOf?_write {step : Component} (isStep : IsStep step) :
    componentOf? (writeComponent step) = some step := by
  cases isStep with
  | parent => decide
  | name isName => exact componentOf?_of_isName isName

theorem IsStep.write_ne {step : Component} (isStep : IsStep step) :
    writeComponent step ≠ "" ∧ writeComponent step ≠ "." := by
  cases isStep with
  | parent => decide
  | name isName => exact ⟨isName.notEmpty, isName.notCurrent⟩

theorem IsStep.noSlash {step : Component} (isStep : IsStep step) :
    '/' ∉ (writeComponent step).toList := by
  cases isStep with
  | parent => decide
  | name isName => exact isName.noSlash

theorem isStep_of_mem_steps {path : Path} {step : Component} (stepMem : step ∈ path.steps) :
    IsStep step := by
  rcases List.mem_filterMap.1 stepMem with ⟨segment, segmentMem, isComponent⟩
  have noSlash := noSlash_of_mem_segments segmentMem
  unfold componentOf? at isComponent
  split at isComponent
  case isTrue => simp at isComponent
  case isFalse notPlain =>
    rw [not_or] at notPlain
    split at isComponent
    case isTrue =>
      obtain rfl : Component.parent = step := by simpa using isComponent
      exact .parent
    case isFalse notParent =>
      obtain rfl : Component.name segment = step := by simpa using isComponent
      exact .name ⟨notPlain.1, notPlain.2, notParent, noSlash⟩

theorem segments_intercalate {parts : List String} (noSlash : ∀ part ∈ parts, '/' ∉ part.toList)
    (notNil : parts ≠ []) : (⟨"/".intercalate parts⟩ : Path).segments = parts := by
  have free : ∀ part ∈ parts.map String.toList, '/' ∉ part := by simpa using noSlash
  have slash : "/".toList = ['/'] := rfl
  rw [segments, String.toList_intercalate, slash, List.splitOn_intercalate '/' free (by simpa)]
  simp [Function.comp_def]

/-- A path that starts with a slash has an empty segment before it, and another one after it. -/
theorem isAbsolute_intercalate {first : String} (rest : List String)
    (noSlash : '/' ∉ first.toList) :
    (⟨"/".intercalate (first :: rest)⟩ : Path).isAbsolute ↔ first = "" ∧ rest ≠ [] := by
  have slash : "/".toList = ['/'] := rfl
  simp only [Path.isAbsolute, String.toList_intercalate, slash, List.map_cons, beq_iff_eq]
  cases rest with
  | nil =>
      suffices first.toList.head? ≠ some '/' by simpa
      exact fun isHead => noSlash (List.mem_of_mem_head? isHead)
  | cons second rest =>
      rw [List.map_cons, List.intercalate_cons_cons, List.append_assoc]
      cases isFirst : first.toList with
      | nil => simpa using isFirst
      | cons character characters =>
          have notEmpty : first ≠ "" := by
            rintro rfl
            simp at isFirst
          have notSlash : character ≠ '/' := by
            rintro rfl
            simp [isFirst] at noSlash
          simp [notEmpty, notSlash]

theorem components_intercalate {first : String} {rest : List String}
    (noSlash : ∀ part ∈ first :: rest, '/' ∉ part.toList) :
    (⟨"/".intercalate (first :: rest)⟩ : Path).components =
      (if first = "" ∧ rest ≠ [] then [.root] else if first = "." then [.current] else []) ++
        (first :: rest).filterMap componentOf? := by
  have isAbsolute := isAbsolute_intercalate rest (noSlash first List.mem_cons_self)
  simp only [components, segments_intercalate noSlash (List.cons_ne_nil first rest), isAbsolute,
    List.head?_cons, Option.some.injEq]
  split_ifs <;> rfl

/-- How the components of a path can begin. -/
def IsStart (front : List Component) : Prop :=
  front = [] ∨ front = [.root] ∨ front = [.current]

theorem exists_isStart (path : Path) :
    ∃ front, IsStart front ∧ path.components = front ++ path.steps := by
  unfold components
  split
  · exact ⟨[.root], .inr (.inl rfl), rfl⟩
  · split
    · exact ⟨[.current], .inr (.inr rfl), rfl⟩
    · exact ⟨[], .inl rfl, rfl⟩

theorem components_ofComponents {front steps : List Component} (isStart : IsStart front)
    (areSteps : ∀ step ∈ steps, IsStep step) :
    (ofComponents (front ++ steps)).components = front ++ steps := by
  have written : (steps.map writeComponent).filterMap componentOf? = steps := by
    rw [List.filterMap_map]
    conv_rhs => rw [← List.filterMap_some (l := steps)]
    exact List.filterMap_congr fun step stepMem => (areSteps step stepMem).componentOf?_write
  have noSlash : ∀ part ∈ steps.map writeComponent, '/' ∉ part.toList := by
    simpa using fun step stepMem => (areSteps step stepMem).noSlash
  rcases isStart with rfl | rfl | rfl
  · cases steps with
    | nil => decide
    | cons step steps =>
        have isStep := areSteps step List.mem_cons_self
        have notRoot : step :: steps ≠ [.root] := by
          intro isRoot
          rw [(List.cons.inj isRoot).1] at isStep
          cases isStep
        rw [List.nil_append, ofComponents, if_neg notRoot, List.map_cons,
          components_intercalate noSlash, ← List.map_cons, written]
        simp [isStep.write_ne]
  · by_cases isRoot : steps = []
    · subst isRoot
      decide
    · have isLong : [Component.root] ++ steps ≠ [.root] := by simpa using isRoot
      rw [ofComponents, if_neg isLong, List.singleton_append, List.map_cons,
        components_intercalate (by simpa [writeComponent] using noSlash),
        List.filterMap_cons_none (by decide), written]
      simp [writeComponent, isRoot]
  · have notRoot : [Component.current] ++ steps ≠ [.root] := by simp
    rw [ofComponents, if_neg notRoot, List.singleton_append, List.map_cons,
      components_intercalate (by simpa [writeComponent] using noSlash),
      List.filterMap_cons_none (by decide), written]
    simp [writeComponent]

/-- A path that ends in a name leads to that name in the directory that its parent leads to. -/
theorem exists_parent_of_fileName? {path : Path} {name : String}
    (isName : path.fileName? = some name) :
    ∃ directory, path.parent? = some directory ∧
      ∀ names, path.lead names = name :: directory.lead names := by
  have last : path.components.getLast? = some (.name name) := by
    unfold fileName? at isName
    split at isName
    case h_1 text isLast => rw [isLast, Option.some.inj isName]
    case h_2 => simp at isName
  refine ⟨ofComponents path.components.dropLast, by simp [parent?, last], ?_⟩
  rcases exists_isStart path with ⟨front, isStart, isPath⟩
  have notEmpty : path.steps ≠ [] := by
    intro isEmpty
    rw [isPath, isEmpty, List.append_nil] at last
    rcases isStart with rfl | rfl | rfl <;> simp at last
  have shorter : (ofComponents path.components.dropLast).components =
      path.components.dropLast := by
    rw [isPath, List.dropLast_append_of_ne_nil notEmpty]
    apply components_ofComponents isStart
    exact fun step stepMem => isStep_of_mem_steps (List.dropLast_subset _ stepMem)
  intro names
  rw [lead, lead, shorter]
  conv_lhs => rw [← List.dropLast_append_getLast? _ last, List.foldl_append]
  rfl

theorem text_ne_empty_of_fileName? {path : Path} {name : String}
    (isName : path.fileName? = some name) : path.text ≠ "" := by
  rcases path with ⟨text⟩
  rintro rfl
  simp [fileName?, show (⟨""⟩ : Path).components = [] by decide] at isName

/-! ### Normal forms -/

theorem isName_of_mem_lead {path : Path} {names : List String}
    (areNames : ∀ name ∈ names, IsName name) : ∀ name ∈ path.lead names, IsName name :=
  isName_of_mem_foldl_walk (fun _ => isName_of_mem_components) areNames

/-- The names of the place that a path denotes, innermost first. -/
def spot (path workingDirectory : Path) : List String :=
  path.lead (workingDirectory.lead [])

theorem isName_of_mem_spot {path workingDirectory : Path} :
    ∀ name ∈ path.spot workingDirectory, IsName name :=
  isName_of_mem_lead (isName_of_mem_lead (by simp))

theorem normalize_of_ne_empty {path : Path} (notEmpty : path.text ≠ "") (workingDirectory : Path) :
    path.normalize workingDirectory = ofNames (path.spot workingDirectory).reverse := by
  unfold normalize resolve spot
  rw [if_neg notEmpty]
  split
  case isTrue isAbsolute => rw [lead_of_isAbsolute isAbsolute, lead]
  case isFalse => rw [List.foldl_append, lead, lead]

theorem normalize_of_empty {path : Path} (isEmpty : path.text = "") (workingDirectory : Path) :
    path.normalize workingDirectory = path :=
  if_pos isEmpty

theorem lead_ofNames {names : List String} (areNames : ∀ name ∈ names, IsName name)
    (start : List String) : (ofNames names).lead start = names.reverse := by
  have walked : ∀ names start : List String,
      (names.map Component.name).foldl walk start = names.reverse ++ start := by
    intro names
    induction names with
    | nil => exact fun _ => rfl
    | cons name names ih => simp [walk, ih]
  rw [lead, components_ofNames areNames, List.foldl_cons, walked]
  simp [walk]

theorem text_ofNames_ne_empty (names : List String) : (ofNames names).text ≠ "" := by
  intro isEmpty
  simpa [isEmpty] using toList_ofNames names

/-- Walking on from the normal form of a path is walking on from the path. -/
theorem lead_normalize {path : Path} (notEmpty : path.text ≠ "") (workingDirectory : Path)
    (start : List String) :
    (path.normalize workingDirectory).lead start = path.spot workingDirectory := by
  rw [normalize_of_ne_empty notEmpty,
    lead_ofNames fun name nameMem => isName_of_mem_spot name (List.mem_reverse.1 nameMem),
    List.reverse_reverse]

theorem text_normalize_ne_empty {path : Path} (notEmpty : path.text ≠ "")
    (workingDirectory : Path) : (path.normalize workingDirectory).text ≠ "" := by
  rw [normalize_of_ne_empty notEmpty]
  exact text_ofNames_ne_empty _

theorem spot_eq_of_normalize_eq {path other workingDirectory : Path} (notEmpty : path.text ≠ "")
    (notEmptyOther : other.text ≠ "")
    (same : path.normalize workingDirectory = other.normalize workingDirectory) :
    path.spot workingDirectory = other.spot workingDirectory := by
  rw [← lead_normalize notEmpty workingDirectory [], same, lead_normalize notEmptyOther]

theorem normalize_normalize (path workingDirectory : Path) :
    (path.normalize workingDirectory).normalize workingDirectory =
      path.normalize workingDirectory := by
  by_cases isEmpty : path.text = ""
  · rw [normalize_of_empty isEmpty, normalize_of_empty isEmpty]
  · rw [normalize_of_ne_empty (text_normalize_ne_empty isEmpty workingDirectory), spot,
      lead_normalize isEmpty, ← normalize_of_ne_empty isEmpty]

theorem normalize_normalize_join (directory path workingDirectory : Path) :
    ((directory.normalize workingDirectory).join path).normalize workingDirectory =
      (directory.join path).normalize workingDirectory := by
  by_cases isEmpty : directory.text = ""
  · rw [normalize_of_empty isEmpty]
  · cases relative : path.isAbsolute with
    | true => rw [join, join, if_pos relative, if_pos relative]
    | false =>
        have isFull := text_normalize_ne_empty isEmpty workingDirectory
        rw [normalize_of_ne_empty (text_join_ne_empty (.inl isFull) relative),
          normalize_of_ne_empty (text_join_ne_empty (.inl isEmpty) relative), spot, spot, lead_join,
          lead_join, lead_normalize isEmpty, spot]

/-- A normal form starts at the root and has neither `.` nor `..` in it. -/
theorem normalize_shape {path : Path} (notEmpty : path.text ≠ "") (workingDirectory : Path) :
    (path.normalize workingDirectory).isAbsolute ∧
    (∀ segment ∈ (path.normalize workingDirectory).segments, segment ≠ "." ∧ segment ≠ "..") ∧
    ∀ component ∈ (path.normalize workingDirectory).components,
      component ≠ .current ∧ component ≠ .parent := by
  have isNormal : (path.normalize workingDirectory).IsNormal := isNormal_normalize notEmpty
  rcases isNormal with ⟨names, areNames, isSpelled⟩
  rw [isSpelled, components_ofNames areNames]
  refine ⟨by simp [Path.isAbsolute, toList_ofNames], ?_, by simp⟩
  by_cases isRoot : names = []
  · subst isRoot
    decide
  · rw [segments_ofNames areNames isRoot]
    simp only [List.mem_cons, forall_eq_or_imp]
    exact ⟨by decide, fun name nameMem =>
      ⟨(areNames name nameMem).notCurrent, (areNames name nameMem).notParent⟩⟩

end CallHierarchy.Path
