import CallHierarchy.Proofs.Scope.Rules

/-!
# Lexical scope

The scope table of a file against the rules of lexical scope. For every scope and
name, the table holds what the rules introduce there: each once, in the order in
which the constructs are reached and, for one construct, in source order. A name
is looked up in the nearest scope around it into which the rules introduce it.

Scopes are found by their keys, so both statements ask that the nodes which can
open a scope have different keys.
-/

namespace CallHierarchy

namespace SourceFile

open Scope

/--
Whether a node is of a kind that opens a scope in the file: a block, a class, or
whatever has a list of parameters.
-/
def OpensScope (file : SourceFile) (place : Place) : Prop :=
  place.node.kindName ∈ "class" :: blockKinds ∨
    ∃ parameters ∈ file.places, parameters.node.kindName = "formal_parameters" ∧
      ∃ owner, parameters.parent? = some owner ∧ owner.node.kindName = place.node.kindName

/-- Whether the nodes that open scopes are told apart by their keys. -/
def DistinctScopes (file : SourceFile) : Prop :=
  ∀ scope ∈ file.places, ∀ other ∈ file.places, file.OpensScope scope → file.OpensScope other →
    scope.node.key = other.node.key → scope = other

theorem DistinctScopes.of_nodup {file : SourceFile}
    (distinct : (file.places.map (·.node.key)).Nodup) : file.DistinctScopes :=
  fun _ scopeMem _ otherMem _ _ sameKey =>
    List.inj_on_of_nodup_map distinct scopeMem otherMem sameKey

/-- A construct that is reached in a file, with a name that it introduces. -/
structure Recorded (file : SourceFile) (visit : Place) (declared : Declared) : Prop where
  reached : file.rootPlace.Reaches visit
  introduced : Introduces visit declared

/-- Whether a name is introduced into a scope. -/
def Binds (file : SourceFile) (scope : Place) (name : String) : Prop :=
  ∃ visit declared, file.Recorded visit declared ∧ declared.scope = scope ∧
    declared.name.node.text = name

end SourceFile

namespace Scope

/-- The order of recording: by the constructs that introduce, then by the names. -/
def Earlier (recorded other : Place × Declared) : Prop :=
  recorded.1.Precedes other.1 ∨ recorded.1 = other.1 ∧ recorded.2.Precedes other.2

variable {file : SourceFile} {visit : Place} {declared : Declared}

/-- The scope table lists what the constructs of the file introduce, in the order of recording. -/
theorem enumerates_introductions (file : SourceFile) :
    Enumerates (fun recorded : Place × Declared => recorded.2.introduction) Earlier
      (fun recorded => file.Recorded recorded.1 recorded.2)
      (ScopeTable.ofFile file).introductions := by
  rcases file.rootPlace.enumerates_namedPreorder with ⟨visits, areShown, ordered, mem_iff⟩
  have isShown : (ScopeTable.ofFile file).introductions =
      visits.flatMap fun visit => introductions visit.node := by
    rw [← List.flatMap_map, areShown]
    rfl
  rw [isShown]
  refine (Enumerates.flatMap
    (fun visit recorded => ∃ declared, Introduces visit declared ∧ recorded = (visit, declared))
    ?_ ?_).congr ?_
  · intro visit visitMem
    have balanced : visit.Balanced :=
      SourceFile.balanced_of_mem_places ((mem_iff visit).1 visitMem).mem_subtree
    rw [← List.map_id (introductions visit.node)]
    apply (shownBy_introductions balanced).map
    · exact fun declared => rfl
    · exact fun declared other isBefore => Or.inr ⟨rfl, isBefore⟩
  · refine ordered.imp ?_
    rintro first second isBefore _ _ ⟨declared, -, rfl⟩ ⟨other, -, rfl⟩
    exact Or.inl isBefore
  · rintro ⟨visit, declared⟩
    simp only [Prod.mk.injEq]
    constructor
    · rintro ⟨_, visitMem, _, introduced, rfl, rfl⟩
      exact ⟨(mem_iff _).1 visitMem, introduced⟩
    · intro recorded
      exact ⟨visit, (mem_iff visit).2 recorded.reached, declared, recorded.introduced, rfl, rfl⟩

theorem TargetName.scope_eq {whole target scope : Place}
    (isName : TargetName whole target scope declared) : declared.scope = scope := by
  cases isName <;> rfl

theorem ParameterName.scope_eq {owner parameter : Place}
    (isName : ParameterName owner parameter declared) : declared.scope = owner := by
  cases isName with
  | typed _ _ isName => exact isName.scope_eq
  | bare => rfl

theorem ImportedName.scope_eq {program part : Place} {specifier : String}
    (isName : ImportedName program specifier part declared) : declared.scope = program := by
  cases isName <;> rfl

/-- Names go to a construct itself or to a place around it, and only to places that open scopes. -/
theorem Introduces.opensScope (introduced : Introduces visit declared)
    (visitMem : visit ∈ file.places) :
    declared.scope ∈ file.places ∧ file.OpensScope declared.scope := by
  have around : ∀ {kinds : List String} {scope : Place}, kinds ⊆ blockKinds →
      visit.nearest? kinds = some scope → scope ∈ file.places ∧ file.OpensScope scope := by
    intro kinds scope areBlocks isScope
    rcases Place.mem_ancestors_of_nearest? isScope with ⟨scopeMem, kind⟩
    exact ⟨SourceFile.mem_places_of_mem_ancestors visitMem scopeMem,
      Or.inl (List.mem_cons_of_mem _ (areBlocks kind))⟩
  have itself : visit.node.kindName ∈ "class" :: blockKinds →
      visit ∈ file.places ∧ file.OpensScope visit :=
    fun kind => ⟨visitMem, Or.inl kind⟩
  have functions : functionKinds ⊆ blockKinds := List.subset_append_left _ _
  cases introduced with
  | function _ _ isScope => exact around functions isScope
  | classOrEnum _ _ isScope => exact around (List.Subset.refl _) isScope
  | expression kind =>
      apply itself
      rcases (by simpa using kind) with kind | kind | kind
      all_goals simp [kind, blockKinds, functionKinds]
  | functionVariable _ _ _ isScope isName => exact isName.scope_eq ▸ around functions isScope
  | blockVariable _ _ _ isScope isName =>
      exact isName.scope_eq ▸ around (List.Subset.refl _) isScope
  | parameter kind isOwner _ isName =>
      rw [isName.scope_eq]
      have ownerMem := List.mem_of_mem_head? (Option.mem_def.2 isOwner)
      exact ⟨SourceFile.mem_places_of_mem_ancestors visitMem ownerMem,
        Or.inr ⟨visit, visitMem, kind, _, isOwner, rfl⟩⟩
  | arrow kind _ isName =>
      exact isName.scope_eq ▸ itself (by simp [kind, blockKinds, functionKinds])
  | caught kind => exact itself (by simp [kind, blockKinds])
  | loop kind => exact itself (by simp [kind, blockKinds])
  | imported _ _ isProgram _ _ _ isName =>
      exact isName.scope_eq ▸ around (by decide) isProgram

theorem opensScope_of_key_eq {place other : Place} (opens : file.OpensScope place)
    (sameKey : place.node.key = other.node.key) : file.OpensScope other := by
  have sameKind : other.node.kindName = place.node.kindName :=
    (congrArg (fun key : NodeKey => key.kind.name) sameKey).symm
  rwa [SourceFile.OpensScope, sameKind]

/-- With distinct scopes, a key that a name was recorded under leads back to its scope. -/
theorem scope_eq_of_key_eq (distinct : file.DistinctScopes)
    (recorded : file.Recorded visit declared) {place : Place} (placeMem : place ∈ file.places)
    (sameKey : declared.scope.node.key = place.node.key) : declared.scope = place := by
  rcases recorded.introduced.opensScope recorded.reached.mem_subtree with ⟨scopeMem, opens⟩
  exact distinct _ scopeMem _ placeMem opens (opensScope_of_key_eq opens sameKey) sameKey

/-- The bindings of a name in a scope are those that the rules introduce there. -/
theorem enumerates_bindings (distinct : file.DistinctScopes) {scope : Place}
    (scopeMem : scope ∈ file.places) (name : String) :
    Enumerates (fun recorded : Place × Declared => recorded.2.binding) Earlier
      (fun recorded => file.Recorded recorded.1 recorded.2 ∧ recorded.2.scope = scope ∧
        recorded.2.name.node.text = name)
      ((ScopeTable.ofFile file).bindings scope.node.key name) := by
  refine Enumerates.congr (((enumerates_introductions file).filter fun introduction =>
    introduction.scope == scope.node.key && introduction.name == name).map id Introduction.binding
      ?_ ?_) ?_
  · exact fun recorded => rfl
  · exact fun recorded other isBefore => isBefore
  · rintro ⟨visit, declared⟩
    simp only [Declared.introduction, Bool.and_eq_true, beq_iff_eq, id_eq, exists_eq_right']
    constructor
    · rintro ⟨recorded, sameKey, sameName⟩
      exact ⟨recorded, scope_eq_of_key_eq distinct recorded scopeMem sameKey, sameName⟩
    · rintro ⟨recorded, rfl, sameName⟩
      exact ⟨recorded, rfl, sameName⟩

theorem bindings_ne_nil_iff (distinct : file.DistinctScopes) {scope : Place}
    (scopeMem : scope ∈ file.places) (name : String) :
    (ScopeTable.ofFile file).bindings scope.node.key name ≠ [] ↔ file.Binds scope name := by
  have mem_iff := (enumerates_bindings distinct scopeMem name).mem_iff
  constructor
  · intro nonempty
    rcases List.exists_mem_of_ne_nil _ nonempty with ⟨binding, bindingMem⟩
    rcases (mem_iff binding).1 bindingMem with ⟨⟨visit, declared⟩, isRecorded, -⟩
    exact ⟨visit, declared, isRecorded⟩
  · rintro ⟨visit, declared, isRecorded⟩
    exact List.ne_nil_of_mem ((mem_iff declared.binding).2 ⟨(visit, declared), isRecorded, rfl⟩)

end Scope

namespace ScopeTable

theorem bindings_restrict (table : ScopeTable) (scope : NodeKey) (name : String) :
    (table.restrict name).bindings scope name = table.bindings scope name := by
  simp only [bindings, restrict, List.filter_filter]
  congr 2
  funext introduction
  cases introduction.scope == scope <;> cases introduction.name == name <;> rfl

/-- A look-up stops at the first node upwards that has bindings for the name. -/
theorem visible_eq (table : ScopeTable) (node : Node) (name : String) :
    table.visible node name =
      ((node.ancestors.find? fun scope => !(table.bindings scope.key name).isEmpty).elim []
        fun scope => table.bindings scope.key name) := by
  simp only [visible, bindings_restrict]
  cases node.ancestors.find? fun scope => !(table.bindings scope.key name).isEmpty <;> rfl

end ScopeTable

namespace Scope

variable {file : SourceFile} {place scope : Place} {name : String}

/-- The node at which a look-up from a place stops. -/
theorem find?_ancestors (placeMem : place ∈ file.places) (satisfies : Node → Bool) :
    place.node.ancestors.find? satisfies =
      (place.ancestors.find? (satisfies ·.node)).map Place.node := by
  rw [← (SourceFile.balanced_of_mem_places placeMem).map_node_ancestors, List.find?_map]
  rfl

theorem visible_of_binds (distinct : file.DistinctScopes) (placeMem : place ∈ file.places)
    {nearer further : List Place} (around : place.ancestors = nearer ++ scope :: further)
    (binds : file.Binds scope name) (unbound : ∀ other ∈ nearer, ¬file.Binds other name) :
    (ScopeTable.ofFile file).visible place.node name =
      (ScopeTable.ofFile file).bindings scope.node.key name := by
  have bound_iff : ∀ other ∈ place.ancestors,
      (ScopeTable.ofFile file).bindings other.node.key name ≠ [] ↔ file.Binds other name :=
    fun other otherMem =>
      bindings_ne_nil_iff distinct (SourceFile.mem_places_of_mem_ancestors placeMem otherMem) name
  have found : place.ancestors.find? (fun other =>
      !((ScopeTable.ofFile file).bindings other.node.key name).isEmpty) = some scope := by
    rw [List.find?_eq_some_iff_append]
    refine ⟨?_, nearer, further, around, ?_⟩
    · simpa using (bound_iff scope (by simp [around])).2 binds
    · intro other otherMem
      have notBound := mt (bound_iff other (by simp [around, otherMem])).1 (unbound other otherMem)
      simpa using notBound
  rw [ScopeTable.visible_eq, find?_ancestors placeMem, found]
  rfl

theorem visible_of_not_binds (distinct : file.DistinctScopes) (placeMem : place ∈ file.places)
    (unbound : ∀ other ∈ place.ancestors, ¬file.Binds other name) :
    (ScopeTable.ofFile file).visible place.node name = [] := by
  have found : place.ancestors.find? (fun other =>
      !((ScopeTable.ofFile file).bindings other.node.key name).isEmpty) = none := by
    rw [List.find?_eq_none]
    intro other otherMem
    have otherPlace := SourceFile.mem_places_of_mem_ancestors placeMem otherMem
    have notBound := mt (bindings_ne_nil_iff distinct otherPlace name).1 (unbound other otherMem)
    simpa using notBound
  rw [ScopeTable.visible_eq, find?_ancestors placeMem, found]
  rfl

/--
Lexical scope is exact. The bindings of a name in a scope are what the constructs
that are reached introduce there, each once and in the order of recording; and a
name means what the nearest scope around it that has bindings for it says.
-/
theorem scope_table_exact (file : SourceFile) (distinct : file.DistinctScopes) :
    (∀ scope ∈ file.places, ∀ name,
      Enumerates (fun recorded : Place × Declared => recorded.2.binding) Earlier
        (fun recorded => file.rootPlace.Reaches recorded.1 ∧ Introduces recorded.1 recorded.2 ∧
          recorded.2.scope = scope ∧ recorded.2.name.node.text = name)
        ((ScopeTable.ofFile file).bindings scope.node.key name)) ∧
    ∀ place ∈ file.places, ∀ name,
      (∀ nearer scope further, place.ancestors = nearer ++ scope :: further →
        file.Binds scope name → (∀ other ∈ nearer, ¬file.Binds other name) →
        (ScopeTable.ofFile file).visible place.node name =
          (ScopeTable.ofFile file).bindings scope.node.key name) ∧
      ((∀ other ∈ place.ancestors, ¬file.Binds other name) →
        (ScopeTable.ofFile file).visible place.node name = []) := by
  refine ⟨?_, ?_⟩
  · intro scope scopeMem name
    refine (enumerates_bindings distinct scopeMem name).congr ?_
    rintro ⟨visit, declared⟩
    constructor
    · rintro ⟨recorded, isScope, isName⟩
      exact ⟨recorded.reached, recorded.introduced, isScope, isName⟩
    · rintro ⟨reached, introduced, isScope, isName⟩
      exact ⟨⟨reached, introduced⟩, isScope, isName⟩
  · intro place placeMem name
    refine ⟨?_, visible_of_not_binds distinct placeMem⟩
    intro nearer scope further around binds unbound
    exact visible_of_binds distinct placeMem around binds unbound

/-- A block with a variable that is declared by `var`. -/
def hoistingBlock : SyntaxTree :=
  .node ⟨⟨"statement_block", true⟩, 25, 32, some "body"⟩
    [.node ⟨⟨"variable_declaration", true⟩, 26, 31, none⟩
      [.node ⟨⟨"variable_declarator", true⟩, 30, 31, none⟩
        [.node ⟨⟨"identifier", true⟩, 30, 31, some "name"⟩ []]]]

/-- A function whose body is the block. -/
def hoistingFunction : SyntaxTree :=
  .node ⟨⟨"function_declaration", true⟩, 13, 32, none⟩
    [.node ⟨⟨"identifier", true⟩, 22, 23, some "name"⟩ [],
    .node ⟨⟨"formal_parameters", true⟩, 23, 25, some "parameters"⟩ [],
    hoistingBlock]

/-- The function after an overload of it. -/
def overloaded : SourceFile where
  id := 0
  path := ⟨"/a.ts"⟩
  text := "function f();function f()\x7bvar x\x7d"
  root :=
    .node ⟨⟨"program", true⟩, 0, 32, none⟩
      [.node ⟨⟨"function_signature", true⟩, 0, 13, none⟩
        [.node ⟨⟨"identifier", true⟩, 9, 10, some "name"⟩ [],
        .node ⟨⟨"formal_parameters", true⟩, 10, 12, some "parameters"⟩ []],
      hoistingFunction]

/-- The place of the function in that file. -/
def functionPlace : Place :=
  overloaded.rootPlace.child hoistingFunction 1

/-- The place of the block in that function. -/
def blockPlace : Place :=
  functionPlace.child hoistingBlock 2

theorem distinctScopes_overloaded : overloaded.DistinctScopes :=
  .of_nodup (by decide)

/--
Both declarations of the function are known in the file, in their order. Inside the
block, the variable is the one of the function: the block has none of its own.
-/
theorem scope_table_exact_overloaded :
    overloaded.DistinctScopes ∧
    Enumerates (fun recorded : Place × Declared => recorded.2.binding) Earlier
      (fun recorded => overloaded.rootPlace.Reaches recorded.1 ∧
        Introduces recorded.1 recorded.2 ∧ recorded.2.scope = overloaded.rootPlace ∧
        recorded.2.name.node.text = "f")
      [⟨⟨0, 0, 13, ⟨"function_signature", true⟩⟩, .here⟩,
        ⟨⟨0, 13, 32, ⟨"function_declaration", true⟩⟩, .here⟩] ∧
    ∀ place ∈ blockPlace.children,
      (ScopeTable.ofFile overloaded).visible place.node "x" =
        [⟨⟨0, 30, 31, ⟨"variable_declarator", true⟩⟩, .here⟩] := by
  have rootMem : overloaded.rootPlace ∈ overloaded.places := Place.mem_subtree_self _
  have functionMem : functionPlace ∈ overloaded.places :=
    Place.mem_subtree_of_mem_children rootMem (Place.mem_children.2 ⟨1, _, rfl, rfl⟩)
  have blockMem : blockPlace ∈ overloaded.places :=
    Place.mem_subtree_of_mem_children functionMem (Place.mem_children.2 ⟨2, _, rfl, rfl⟩)
  have inFunction : (ScopeTable.ofFile overloaded).bindings functionPlace.node.key "x" =
      [⟨⟨0, 30, 31, ⟨"variable_declarator", true⟩⟩, .here⟩] := by
    decide +kernel
  have inBlock : (ScopeTable.ofFile overloaded).bindings blockPlace.node.key "x" = [] := by
    decide +kernel
  have binds : overloaded.Binds functionPlace "x" := by
    simp [← bindings_ne_nil_iff distinctScopes_overloaded functionMem, inFunction]
  have unbound : ¬overloaded.Binds blockPlace "x" := by
    simp [← bindings_ne_nil_iff distinctScopes_overloaded blockMem, inBlock]
  rcases scope_table_exact overloaded distinctScopes_overloaded with ⟨recorded, seen⟩
  refine ⟨distinctScopes_overloaded, ?_, ?_⟩
  · have evaluated : (ScopeTable.ofFile overloaded).bindings overloaded.rootPlace.node.key "f" =
        [⟨⟨0, 0, 13, ⟨"function_signature", true⟩⟩, .here⟩,
          ⟨⟨0, 13, 32, ⟨"function_declaration", true⟩⟩, .here⟩] := by
      decide +kernel
    rw [← evaluated]
    exact recorded _ rootMem "f"
  · intro place placeMem
    have around := Place.ancestors_of_mem_children placeMem
    have sameBindings := (seen place (Place.mem_subtree_of_mem_children blockMem placeMem) "x").1
      [blockPlace] functionPlace _ around binds (by simpa using unbound)
    exact sameBindings.trans inFunction

end Scope

end CallHierarchy
