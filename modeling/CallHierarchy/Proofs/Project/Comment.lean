import CallHierarchy.Proofs.Project.Growth

/-!
# Comments in the trees of a project

A syntax tree can hold comments anywhere between two constructs. They change
nothing: the call graph of a project does not depend on them, and every construct
refers to the same declarations, whether comments stand beside it or not.
-/

namespace CallHierarchy

namespace Project

/-- A project with comments inserted into its trees does not grow by more than that. -/
theorem growsInto_of_alike {project commented : Project} (workingDirectory : Path)
    (numbered : project.IsNumbered) (config : commented.config = project.config)
    (files : List.Forall₂ (SourceFile.Alike fun number => number) project.files commented.files) :
    GrowsInto workingDirectory project commented commented.files [] := by
  refine ⟨(List.append_nil _).symm, files, ?_, ?_⟩
  · intro position other isOther
    rcases (getElem?_of_forall₂ files position).eq_none_or_exists with
      ⟨-, isNone⟩ | ⟨file, found, isFile, isFound, alike⟩
    · simp [isOther] at isNone
    · cases isOther.symm.trans isFound
      exact alike.number.trans (numbered position file isFile)
  · intro file _ specifier _
    have entries :
        commented.files.map (fun file => (file.path.normalize workingDirectory, file.id)) =
          project.files.map fun file => (file.path.normalize workingDirectory, file.id) := by
      apply map_eq_of_forall₂ files
      intro file other alike
      rw [alike.path, alike.number]
    simp only [SymbolTable.target?, symbolTable, SymbolTable.ofFiles, ModuleIndex.ofFiles, entries,
      config]

/--
Comments do not matter. If comments are inserted into the trees of a project, the
call graph stays the same, and the nodes of each tree are those from before, which
refer to the same declarations, with the comments among them.

A comment is never inserted into a comment of the same range, where look-ups by key
would find it in place of the one around it. Comments that have no parts, such as
those of a parser, leave no room for that.
-/
theorem callGraph_of_commented {project commented : Project} (workingDirectory : Path)
    (numbered : project.IsNumbered) (config : commented.config = project.config)
    (files : List.Forall₂ (SourceFile.Alike fun number => number) project.files commented.files) :
    commented.callGraph workingDirectory = project.callGraph workingDirectory ∧
      List.Forall₂ (fun file commentedFile =>
        Interspersed
          (fun node other : Node => other.tree.value = node.tree.value ∧
            (commented.symbolTable workingDirectory).declarations other =
              (project.symbolTable workingDirectory).declarations node)
          (fun comment : Node => comment.kind = ⟨"comment", true⟩)
          file.rootNode.preorder commentedFile.rootNode.preorder)
        project.files commented.files := by
  have grows := growsInto_of_alike workingDirectory numbered config files
  constructor
  · rcases grows.callGraph with ⟨roots, units, isRoots, rootCount, isUnits, fromNowhere⟩
    have noRoots : roots = [] := List.length_eq_zero_iff.1 rootCount
    have noUnits : units = [] := by
      apply List.eq_nil_iff_forall_not_mem.2
      intro unit unitMem
      simpa using fromNowhere unit unitMem
    have paths : (commented.callGraph workingDirectory).files =
        (project.callGraph workingDirectory).files :=
      map_eq_of_forall₂ files fun _ _ alike => alike.path
    rw [noRoots, List.append_nil] at isRoots
    rw [noUnits, List.append_nil] at isUnits
    have table : (commented.callGraph workingDirectory).table =
        (project.callGraph workingDirectory).table := by
      rw [table_callGraph, table_callGraph, isUnits]
    have parts := congr (congrArg₂ CallGraph.mk isRoots table) paths
    exact parts
  · refine grows.forall₂_pairs.imp ?_
    rintro file commentedFile ⟨isPair, alike⟩
    refine (Node.Alike.root isPair alike).preorder.imp ?_ ?_
    · intro node other same
      have refersTo := (grows.tables.declarations same).1
      exact ⟨same.label, refersTo.trans (List.map_id _)⟩
    · intro comment inserted
      exact inserted.kind

/-- A text with two comments. -/
def annotated : Path × String :=
  (⟨"/a.ts"⟩, "function f(){} /*a*/ f(1, /*b*/ 2)")

/-- The syntax tree of that text, with the given trees for the comments. -/
def annotatedTree (first second : List SyntaxTree) : SyntaxTree :=
  .node ⟨⟨"program", true⟩, 0, 34, none⟩
    (.node ⟨⟨"function_declaration", true⟩, 0, 14, none⟩
      [.node ⟨⟨"identifier", true⟩, 9, 10, some "name"⟩ []] ::
    (first ++ [.node ⟨⟨"call_expression", true⟩, 21, 34, none⟩
      [.node ⟨⟨"identifier", true⟩, 21, 22, some "function"⟩ [],
      .node ⟨⟨"arguments", true⟩, 22, 34, some "arguments"⟩
        (.node ⟨⟨"number", true⟩, 23, 24, none⟩ [] ::
        (second ++ [.node ⟨⟨"number", true⟩, 32, 33, none⟩ []]))]]))

/-- A comment over a range of the text. -/
def commentAt (start stop : Nat) : SyntaxTree :=
  .node ⟨⟨"comment", true⟩, start, stop, none⟩ []

/-- The project of that text, read without its comments. -/
def plain : Project :=
  ofSources (fun _ _ => annotatedTree [] []) .empty [annotated]

/-- The project of that text, read with its comments. -/
def commented : Project :=
  ofSources (fun _ _ => annotatedTree [commentAt 15 20] [commentAt 26 31]) .empty [annotated]

theorem callGraph_of_commented_annotated :
    plain.IsNumbered ∧ commented.config = plain.config ∧
    List.Forall₂ (SourceFile.Alike fun number => number) plain.files commented.files ∧
    (plain.callGraph ⟨"/"⟩).units.map (fun unit => (unit.id, unit.calls)) = [(1, [2]), (2, [])] ∧
    commented.callGraph ⟨"/"⟩ = plain.callGraph ⟨"/"⟩ := by
  have numbered : plain.IsNumbered := isNumbered_ofSources _ _ _
  have config : commented.config = plain.config := rfl
  have inserted : Commented [] (annotatedTree [] [])
      (annotatedTree [commentAt 15 20] [commentAt 26 31]) :=
    .node <| .keep (.refl _ _) <| .insert ⟨rfl, rfl, by decide, rfl, by decide⟩ (by decide) <|
      .keep (.node <| .keep (.refl _ _) <| .keep (.node <| .keep (.refl _ _) <|
        .insert ⟨rfl, rfl, by decide, rfl, by decide⟩ (by decide) <|
          .keep (.refl _ _) .nil) .nil) .nil
  have ordered : (annotatedTree [commentAt 15 20] [commentAt 26 31]).Ordered := by
    simp [annotatedTree, commentAt, Tree.Ordered, Tree.OrderedBetween, Tree.value]
  have files : List.Forall₂ (SourceFile.Alike fun number => number) plain.files commented.files :=
    .cons ⟨rfl, rfl, rfl, inserted, .inr ordered⟩ .nil
  exact ⟨numbered, config, files, by decide +kernel,
    (callGraph_of_commented ⟨"/"⟩ numbered config files).1⟩

end Project

end CallHierarchy
