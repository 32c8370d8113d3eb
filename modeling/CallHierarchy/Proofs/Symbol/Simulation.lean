import CallHierarchy.Proofs.Alike.Tree
import CallHierarchy.Symbol.Lookup
import Mathlib.Logic.Relator

/-!
# Look-ups that correspond

The look-ups are written once for all kinds of results and all projects, so what they
find can be compared in general. Two kinds of results correspond when everything that
puts results together keeps them in correspondence (`Effect.Simulation`). Two projects
correspond when one reads the same off nodes that are counterparts of each other and
gets from counterparts to counterparts (`SymbolTable.Like`).

If the look-ups that are called correspond, so do the look-ups that call them. That is
proved here once for each look-up, and `related_lookups` follows by induction on the
number of steps that are left. What it says about a limit, about nested calls or about
projects that differ in inessential ways depends only on which results and which nodes
are taken to correspond.
-/

open scoped Relator

namespace CallHierarchy

/-- Which nodes, keys and files of two projects are counterparts of each other. -/
structure Counterparts where
  node : Node → Node → Prop
  key : NodeKey → NodeKey → Prop
  file : FileId → FileId → Prop

namespace Counterparts

variable (parts : Counterparts)

/-- Symbols that stand for counterparts. -/
inductive SymbolLike : Symbol → Symbol → Prop
  | declaration {key otherKey : NodeKey} (same : parts.key key otherKey) :
      SymbolLike (.declaration key) (.declaration otherKey)
  | exportsOf {file otherFile : FileId} (same : parts.file file otherFile) :
      SymbolLike (.exportsOf file) (.exportsOf otherFile)

variable {parts} in
theorem SymbolLike.declaration? {symbol other : Symbol} (same : parts.SymbolLike symbol other) :
    Option.Rel parts.key symbol.declaration? other.declaration? := by
  cases same with
  | declaration same => exact .some same
  | exportsOf => exact .none

/-- Types that are given by counterparts. -/
inductive TypeLike : ValueType → ValueType → Prop
  | instanceOf {key otherKey : NodeKey} (same : parts.key key otherKey) :
      TypeLike (.instanceOf key) (.instanceOf otherKey)
  | classItself {key otherKey : NodeKey} (same : parts.key key otherKey) :
      TypeLike (.classItself key) (.classItself otherKey)
  | object {key otherKey : NodeKey} (same : parts.key key otherKey) :
      TypeLike (.object key) (.object otherKey)
  | exportsOf {file otherFile : FileId} (same : parts.file file otherFile) :
      TypeLike (.exportsOf file) (.exportsOf otherFile)

/-- Searches that have entered counterparts. -/
abbrev VisitedLike : Visited → Visited → Prop :=
  List.Forall₂ fun entered otherEntered =>
    parts.file entered.1 otherEntered.1 ∧ otherEntered.2 = entered.2

/-- Nodes off which one reads the same. -/
structure ReadAlike : Prop where
  key : ∀ {node other}, parts.node node other → parts.key node.key other.key
  kindName : ∀ {node other}, parts.node node other → other.kindName = node.kindName
  text : ∀ {node other}, parts.node node other → other.text = node.text
  hasToken : ∀ {node other}, parts.node node other → ∀ token,
    other.hasToken token = node.hasToken token
  parent? : ∀ {node other}, parts.node node other → Option.Rel parts.node node.parent? other.parent?
  childAt? : ∀ {node other}, parts.node node other → ∀ field,
    Option.Rel parts.node (node.childAt? field) (other.childAt? field)
  firstNamedChild? : ∀ {node other}, parts.node node other →
    Option.Rel parts.node node.firstNamedChild? other.firstNamedChild?
  head? : ∀ {node other}, parts.node node other →
    Option.Rel parts.node node.namedChildren.head? other.namedChildren.head?
  getLast? : ∀ {node other}, parts.node node other →
    Option.Rel parts.node node.namedChildren.getLast? other.namedChildren.getLast?
  thisType? : ∀ {node other}, parts.node node other →
    Option.Rel parts.TypeLike node.thisType? other.thisType?
  callable? : ∀ {node other}, parts.node node other →
    Option.Rel parts.node node.callable? other.callable?
  superclassExpression? : ∀ {node other}, parts.node node other →
    Option.Rel parts.node node.superclassExpression? other.superclassExpression?
  ownMembers : ∀ {node other}, parts.node node other → ∀ name isStatic,
    List.Forall₂ parts.node (node.ownMembers name isStatic) (other.ownMembers name isStatic)
  entries : ∀ {node other}, parts.node node other → ∀ name,
    List.Forall₂ parts.node (node.entries name) (other.entries name)

variable (table other : SymbolTable) (source otherSource : SourceFile)

/-- Specifiers that lead from two files to counterparts. -/
def TargetLike (specifier otherSpecifier : String) : Prop :=
  Option.Rel parts.file (table.target? source specifier) (other.target? otherSource otherSpecifier)

/-- Bindings of two files that refer to counterparts. -/
inductive BindingLike : Binding → Binding → Prop
  | here {declaration otherDeclaration : NodeKey} (same : parts.key declaration otherDeclaration) :
      BindingLike ⟨declaration, .here⟩ ⟨otherDeclaration, .here⟩
  | elsewhere {declaration otherDeclaration : NodeKey} {specifier : String} {imported : Imported}
      (target : parts.TargetLike table other source otherSource specifier specifier) :
      BindingLike ⟨declaration, .elsewhere specifier imported⟩
        ⟨otherDeclaration, .elsewhere specifier imported⟩

/-- Exports of two files that refer to counterparts. -/
inductive ExportLike (scopes otherScopes : ScopeTable) : Export → Export → Prop
  | topLevel {name : String}
      (bindings : List.Forall₂ (parts.BindingLike table other source otherSource)
        (scopes.topBindings name) (otherScopes.topBindings name)) :
      ExportLike scopes otherScopes (.topLevel name) (.topLevel name)
  | declaration {key otherKey : NodeKey} (same : parts.key key otherKey) :
      ExportLike scopes otherScopes (.declaration key) (.declaration otherKey)
  | forwarded {specifier name : String}
      (target : parts.TargetLike table other source otherSource specifier specifier) :
      ExportLike scopes otherScopes (.forwarded specifier name) (.forwarded specifier name)
  | everything {specifier : String}
      (target : parts.TargetLike table other source otherSource specifier specifier) :
      ExportLike scopes otherScopes (.everything specifier) (.everything specifier)

/-- Scope tables of two files that offer counterparts. -/
structure ScopesLike (scopes otherScopes : ScopeTable) : Prop where
  offers : ∀ name, List.Forall₂
    (parts.ExportLike table other source otherSource scopes otherScopes)
    (scopes.offers name) (otherScopes.offers name)
  stars : List.Forall₂ (parts.TargetLike table other source otherSource) scopes.stars
    otherScopes.stars

end Counterparts

/-- Whether counterparts lead to counterparts in two projects. -/
structure SymbolTable.Like (parts : Counterparts) (table other : SymbolTable) : Prop where
  reads : parts.ReadAlike
  file_eq_iff : ∀ {id otherId entered otherEntered}, parts.file id otherId →
    parts.file entered otherEntered → (otherId = otherEntered ↔ id = entered)
  scopes : ∀ {id otherId}, parts.file id otherId →
    Option.Rel (fun found otherFound =>
        parts.ScopesLike table other found.1 otherFound.1 found.2 otherFound.2)
      (table.file? id) (other.file? otherId)
  visible : ∀ {node otherNode}, parts.node node otherNode →
    Option.Rel (fun found otherFound =>
        List.Forall₂ (parts.BindingLike table other node.file otherNode.file)
          (found.2.visible node node.text) (otherFound.2.visible otherNode otherNode.text))
      (table.file? node.file.id) (other.file? otherNode.file.id)
  find : ∀ {key otherKey}, parts.key key otherKey →
    Option.Rel parts.node (table.node? key) (other.node? otherKey)

namespace Counterparts

/-- Everything is its own counterpart. -/
def self : Counterparts :=
  ⟨Eq, Eq, Eq⟩

theorem typeLike_self : ∀ type : ValueType, self.TypeLike type type
  | .instanceOf _ => .instanceOf rfl
  | .classItself _ => .classItself rfl
  | .object _ => .object rfl
  | .exportsOf _ => .exportsOf rfl

theorem readAlike_self : self.ReadAlike where
  key := by rintro _ _ rfl; rfl
  kindName := by rintro _ _ rfl; rfl
  text := by rintro _ _ rfl; rfl
  hasToken := by rintro _ _ rfl _; rfl
  parent? := by rintro _ _ rfl; exact .of_forall Eq.refl _
  childAt? := by rintro _ _ rfl _; exact .of_forall Eq.refl _
  firstNamedChild? := by rintro _ _ rfl; exact .of_forall Eq.refl _
  head? := by rintro _ _ rfl; exact .of_forall Eq.refl _
  getLast? := by rintro _ _ rfl; exact .of_forall Eq.refl _
  thisType? := by rintro _ _ rfl; exact .of_forall typeLike_self _
  callable? := by rintro _ _ rfl; exact .of_forall Eq.refl _
  superclassExpression? := by rintro _ _ rfl; exact .of_forall Eq.refl _
  ownMembers := by rintro _ _ rfl _ _; exact List.forall₂_same.2 fun _ _ => rfl
  entries := by rintro _ _ rfl _; exact List.forall₂_same.2 fun _ _ => rfl

section

variable (table : SymbolTable) (source : SourceFile)

theorem targetLike_self (specifier : String) :
    self.TargetLike table table source source specifier specifier :=
  .of_forall Eq.refl _

theorem bindingLike_self : ∀ binding : Binding,
    self.BindingLike table table source source binding binding
  | ⟨_, .here⟩ => .here rfl
  | ⟨_, .elsewhere specifier _⟩ => .elsewhere (targetLike_self table source specifier)

theorem exportLike_self (scopes : ScopeTable) : ∀ offer : Export,
    self.ExportLike table table source source scopes scopes offer offer
  | .topLevel _ => .topLevel (List.forall₂_same.2 fun binding _ =>
      bindingLike_self table source binding)
  | .declaration _ => .declaration rfl
  | .forwarded specifier _ => .forwarded (targetLike_self table source specifier)
  | .everything specifier => .everything (targetLike_self table source specifier)

end

end Counterparts

theorem SymbolTable.like_self (table : SymbolTable) : table.Like .self table where
  reads := Counterparts.readAlike_self
  file_eq_iff := by rintro _ _ _ _ rfl rfl; rfl
  scopes := by
    rintro id _ rfl
    refine .of_forall (fun found => ?_) _
    constructor
    · intro name
      exact List.forall₂_same.2 fun offer _ =>
        Counterparts.exportLike_self table found.1 found.2 offer
    · exact List.forall₂_same.2 fun specifier _ =>
        Counterparts.targetLike_self table found.1 specifier
  visible := by
    rintro node _ rfl
    refine .of_forall (fun found => ?_) _
    exact List.forall₂_same.2 fun binding _ => Counterparts.bindingLike_self table node.file binding
  find := by rintro _ _ rfl; exact .of_forall Eq.refl _

/-- Which results of two effects correspond, and that putting them together keeps it so. -/
structure Effect.Simulation (effect other : Effect) where
  one : {α β : Type} → (α → β → Prop) → effect.One α → other.One β → Prop
  many : (Symbol → Symbol → Prop) → effect.Many → other.Many → Prop
  searched : (Symbol → Symbol → Prop) → (Visited → Visited → Prop) →
    effect.Searched → other.Searched → Prop
  ofOption : ∀ {α β : Type} {alike : α → β → Prop},
    (Option.Rel alike ⇒ one alike) effect.ofOption other.ofOption
  bind : ∀ {α β γ δ : Type} {alike : α → β → Prop} {result : γ → δ → Prop},
    (one alike ⇒ (alike ⇒ one result) ⇒ one result) effect.bind other.bind
  orElse : ∀ {α β : Type} {alike : α → β → Prop} {first otherFirst second otherSecond},
    one alike first otherFirst → one alike (second ()) (otherSecond ()) →
      one alike (effect.orElse first second) (other.orElse otherFirst otherSecond)
  ofList : ∀ {alike}, (List.Forall₂ alike ⇒ many alike) effect.ofList other.ofList
  append : ∀ {alike}, (many alike ⇒ many alike ⇒ many alike) effect.append other.append
  after : ∀ {α β : Type} {thing : α → β → Prop} {alike},
    (one thing ⇒ (thing ⇒ many alike) ⇒ many alike) effect.after other.after
  first : ∀ {alike}, (many alike ⇒ one alike) effect.first other.first
  ended : ∀ {alike entered},
    (List.Forall₂ alike ⇒ entered ⇒ searched alike entered) effect.ended other.ended
  andThen : ∀ {alike entered}, (searched alike entered ⇒ (entered ⇒ searched alike entered) ⇒
    searched alike entered) effect.andThen other.andThen
  orThen : ∀ {alike entered}, (searched alike entered ⇒ (entered ⇒ searched alike entered) ⇒
    searched alike entered) effect.orThen other.orThen
  symbols : ∀ {alike entered}, (searched alike entered ⇒ many alike) effect.symbols other.symbols
  noThing : ∀ {α β : Type} {alike : α → β → Prop}, one alike effect.noThing other.noThing
  noSymbols : ∀ {alike}, many alike effect.noSymbols other.noSymbols
  noSearch : ∀ {alike entered},
    (entered ⇒ searched alike entered) effect.noSearch other.noSearch

namespace Effect.Simulation

variable {effect other : Effect} (simulation : effect.Simulation other)

/-- Whether the first effect says nothing about results beyond the limit. -/
structure IsOpen : Prop where
  noThing : ∀ {α β : Type} {alike : α → β → Prop} thing,
    simulation.one alike effect.noThing thing
  noSymbols : ∀ {alike} symbols, simulation.many alike effect.noSymbols symbols
  noSearch : ∀ {alike entered} visited search,
    simulation.searched alike entered (effect.noSearch visited) search

/-- Whether two look-ups are beyond the limit together, or the first one says so. -/
def LimitsAgree (beyond otherBeyond : Bool) : Prop :=
  otherBeyond = beyond ∨ beyond = true ∧ simulation.IsOpen

section

variable {simulation} {beyond otherBeyond : Bool}
  (limits : simulation.LimitsAgree beyond otherBeyond)

include limits

theorem LimitsAgree.one {α β : Type} {alike : α → β → Prop} {thing : effect.One α}
    {otherThing : other.One β} (inside : simulation.one alike thing otherThing) :
    simulation.one alike (if beyond then effect.noThing else thing)
      (if otherBeyond then other.noThing else otherThing) := by
  rcases limits with rfl | ⟨rfl, isOpen⟩
  · split
    · exact simulation.noThing
    · exact inside
  · exact isOpen.noThing _

theorem LimitsAgree.many {alike : Symbol → Symbol → Prop} {symbols : effect.Many}
    {otherSymbols : other.Many} (inside : simulation.many alike symbols otherSymbols) :
    simulation.many alike (if beyond then effect.noSymbols else symbols)
      (if otherBeyond then other.noSymbols else otherSymbols) := by
  rcases limits with rfl | ⟨rfl, isOpen⟩
  · split
    · exact simulation.noSymbols
    · exact inside
  · exact isOpen.noSymbols _

theorem LimitsAgree.searched {alike : Symbol → Symbol → Prop} {entered : Visited → Visited → Prop}
    {visited otherVisited : Visited} (start : entered visited otherVisited)
    {search : effect.Searched} {otherSearch : other.Searched}
    (inside : simulation.searched alike entered search otherSearch) :
    simulation.searched alike entered (if beyond then effect.noSearch visited else search)
      (if otherBeyond then other.noSearch otherVisited else otherSearch) := by
  rcases limits with rfl | ⟨rfl, isOpen⟩
  · split
    · exact simulation.noSearch start
    · exact inside
  · exact isOpen.noSearch _ _

end

section

variable {α β : Type} {item : α → β → Prop} {alike : Symbol → Symbol → Prop}
  {entered : Visited → Visited → Prop}

theorem collect {find : α → effect.Many} {otherFind : β → other.Many}
    (agree : (item ⇒ simulation.many alike) find otherFind) :
    (List.Forall₂ item ⇒ simulation.many alike) (effect.collect find)
      (other.collect otherFind) := by
  intro items others related
  induction related with
  | nil => exact simulation.ofList .nil
  | cons same _ ih => exact simulation.append (agree same) ih

variable {find : α → Visited → effect.Searched} {otherFind : β → Visited → other.Searched}
  (agree : (item ⇒ entered ⇒ simulation.searched alike entered) find otherFind)

include agree

theorem gather : (List.Forall₂ item ⇒ entered ⇒ simulation.searched alike entered)
    (effect.gather find) (other.gather otherFind) := by
  intro items others related
  induction related with
  | nil => exact fun _ _ start => simulation.ended .nil start
  | cons same _ ih => exact fun _ _ start => simulation.andThen (agree same start) ih

theorem firstFound : (List.Forall₂ item ⇒ entered ⇒ simulation.searched alike entered)
    (effect.firstFound find) (other.firstFound otherFind) := by
  intro items others related
  induction related with
  | nil => exact fun _ _ start => simulation.ended .nil start
  | cons same _ ih => exact fun _ _ start => simulation.orThen (agree same start) ih

end

/-- Results that consist of symbols for counterparts. -/
abbrev Symbols (parts : Counterparts) : effect.Many → other.Many → Prop :=
  simulation.many parts.SymbolLike

/-- Results that are types given by counterparts. -/
abbrev Types (parts : Counterparts) : effect.One ValueType → other.One ValueType → Prop :=
  simulation.one parts.TypeLike

/-- Searches that have found and entered counterparts. -/
abbrev Found (parts : Counterparts) : effect.Searched → other.Searched → Prop :=
  simulation.searched parts.SymbolLike parts.VisitedLike

/-- Searches that agree on counterparts. -/
abbrev Searches (parts : Counterparts) : Search effect → Search other → Prop :=
  parts.file ⇒ Eq ⇒ parts.VisitedLike ⇒ simulation.Found parts

/-- Ways to follow the bindings of two files that agree on counterparts. -/
abbrev Follows (parts : Counterparts) (table otherTable : SymbolTable)
    (source otherSource : SourceFile) :
    (List Binding → Visited → effect.Searched) → (List Binding → Visited → other.Searched) → Prop :=
  List.Forall₂ (parts.BindingLike table otherTable source otherSource) ⇒ parts.VisitedLike ⇒
    simulation.Found parts

end Effect.Simulation

theorem SymbolTable.Like.contains_eq {parts : Counterparts} {table other : SymbolTable}
    (like : table.Like parts other) {id otherId : FileId} (same : parts.file id otherId)
    (name : String) {visited otherVisited : Visited}
    (entered : parts.VisitedLike visited otherVisited) :
    otherVisited.contains (otherId, name) = visited.contains (id, name) := by
  induction entered with
  | nil => rfl
  | @cons first otherFirst _ _ sameFirst _ ih =>
      have sameFile := like.file_eq_iff same sameFirst.1
      rw [List.contains_cons, List.contains_cons, ih, Bool.eq_iff_iff]
      simp only [Bool.or_eq_true, beq_iff_eq, Prod.ext_iff, sameFirst.2, sameFile]

namespace Effect.Simulation

variable {effect otherEffect : Effect} (simulation : effect.Simulation otherEffect)
  {parts : Counterparts} {table other : SymbolTable}

section Searches

variable {search : Search effect} {otherSearch : Search otherEffect}
  (searches : simulation.Searches parts search otherSearch) {source otherSource : SourceFile}

include searches

theorem findForwarded (name : String) :
    (parts.TargetLike table other source otherSource ⇒ parts.VisitedLike ⇒ simulation.Found parts)
      (table.findForwarded effect search source name)
      (other.findForwarded otherEffect otherSearch otherSource name) := by
  intro specifier otherSpecifier target visited otherVisited entered
  rcases Option.Rel.eq_none_or_exists target with
    ⟨isNone, otherIsNone⟩ | ⟨file, otherFile, isFile, otherIsFile, same⟩
  · simp only [SymbolTable.findForwarded, isNone, otherIsNone]
    exact simulation.ended .nil entered
  · simp only [SymbolTable.findForwarded, isFile, otherIsFile]
    exact searches same rfl entered

theorem findBinding :
    (parts.BindingLike table other source otherSource ⇒ parts.VisitedLike ⇒ simulation.Found parts)
      (table.findBinding effect search source)
      (other.findBinding otherEffect otherSearch otherSource) := by
  intro binding otherBinding bindings visited otherVisited entered
  cases bindings with
  | here same => exact simulation.ended (.cons (.declaration same) .nil) entered
  | @elsewhere _ _ specifier imported target =>
      rcases Option.Rel.eq_none_or_exists target with
        ⟨isNone, otherIsNone⟩ | ⟨file, otherFile, isFile, otherIsFile, same⟩
      · simp only [SymbolTable.findBinding, isNone, otherIsNone]
        exact simulation.ended .nil entered
      · simp only [SymbolTable.findBinding, isFile, otherIsFile]
        cases imported with
        | item name => exact searches same rfl entered
        | everything => exact simulation.ended (.cons (.exportsOf same) .nil) entered

variable {findTopLevel : List Binding → Visited → effect.Searched}
  {otherTopLevel : List Binding → Visited → otherEffect.Searched}
  (follows : simulation.Follows parts table other source otherSource findTopLevel otherTopLevel)
  {scopes otherScopes : ScopeTable}

include follows

theorem findExport :
    (parts.ExportLike table other source otherSource scopes otherScopes ⇒ parts.VisitedLike ⇒
        simulation.Found parts)
      (table.findExport effect search source findTopLevel scopes)
      (other.findExport otherEffect otherSearch otherSource otherTopLevel otherScopes) := by
  intro offer otherOffer offers visited otherVisited entered
  cases offers with
  | topLevel bindings => exact follows bindings entered
  | declaration same => exact simulation.ended (.cons (.declaration same) .nil) entered
  | forwarded target => exact simulation.findForwarded searches _ target entered
  | everything target =>
      refine simulation.ended ?_ entered
      exact (Option.Rel.map target fun _ _ same => .exportsOf same).forall₂_toList

theorem findOffered
    (scopesLike : parts.ScopesLike table other source otherSource scopes otherScopes)
    (name : String) :
    (parts.VisitedLike ⇒ simulation.Found parts)
      (table.findOffered effect search source findTopLevel scopes name)
      (other.findOffered otherEffect otherSearch otherSource otherTopLevel otherScopes name) := by
  intro visited otherVisited entered
  have offered := simulation.gather (simulation.findExport searches follows)
    (scopesLike.offers name) entered
  have forwarded := simulation.firstFound (simulation.findForwarded searches name)
    scopesLike.stars entered
  have lists := scopesLike.offers name
  simp only [SymbolTable.findOffered]
  generalize scopes.offers name = offers at offered lists ⊢
  generalize otherScopes.offers name = otherOffers at offered lists ⊢
  cases lists with
  | nil =>
      simp only
      split
      · exact simulation.ended .nil entered
      · exact forwarded
  | cons => exact offered

end Searches

variable {level deeper : Lookups effect} {otherLevel otherDeeper : Lookups otherEffect}
  {beyond otherBeyond : Bool}

theorem followBindingsStep
    (followExport : simulation.Searches parts deeper.followExport otherDeeper.followExport)
    (source otherSource : SourceFile) :
    simulation.Follows parts table other source otherSource
      (deeper.followBindingsStep table source) (otherDeeper.followBindingsStep other otherSource) :=
  simulation.gather (simulation.findBinding followExport)

theorem receiverMembersStep (limits : simulation.LimitsAgree beyond otherBeyond)
    (followExport : simulation.Searches parts deeper.followExport otherDeeper.followExport)
    (objectMembers : (parts.key ⇒ Eq ⇒ simulation.Symbols parts) level.objectMembers
      otherLevel.objectMembers)
    (classMembers : (parts.key ⇒ Eq ⇒ Eq ⇒ simulation.Symbols parts) level.classMembers
      otherLevel.classMembers) :
    (parts.TypeLike ⇒ Eq ⇒ simulation.Symbols parts)
      (Lookups.receiverMembersStep beyond level deeper)
      (Lookups.receiverMembersStep otherBeyond otherLevel otherDeeper) := by
  rintro receiver otherReceiver receivers name _ rfl
  apply limits.many
  cases receivers with
  | instanceOf same => exact classMembers same rfl rfl
  | classItself same => exact classMembers same rfl rfl
  | object same => exact objectMembers same rfl
  | exportsOf same => exact simulation.symbols (followExport same rfl .nil)

theorem symbolTypeStep
    (declarationType : (parts.key ⇒ simulation.Types parts) level.declarationType
      otherLevel.declarationType) :
    (parts.SymbolLike ⇒ simulation.Types parts) level.symbolTypeStep
      otherLevel.symbolTypeStep := by
  intro symbol otherSymbol symbols
  cases symbols with
  | declaration same => exact declarationType same
  | exportsOf same => exact simulation.ofOption (.some (.exportsOf same))

theorem headType
    (symbolType : (parts.SymbolLike ⇒ simulation.Types parts) deeper.symbolType
      otherDeeper.symbolType) :
    (simulation.Symbols parts ⇒ simulation.Types parts) deeper.headType otherDeeper.headType :=
  fun _ _ symbols => simulation.bind (simulation.first symbols) symbolType

theorem class? (type otherType : ValueType) (types : parts.TypeLike type otherType) :
    simulation.one parts.key (effect.ofOption type.class?)
      (otherEffect.ofOption otherType.class?) := by
  cases types with
  | classItself same => exact simulation.ofOption (.some same)
  | _ => exact simulation.ofOption .none

theorem constructed? (type otherType : ValueType) (types : parts.TypeLike type otherType) :
    simulation.Types parts (effect.ofOption type.constructed?)
      (otherEffect.ofOption otherType.constructed?) := by
  cases types with
  | classItself same => exact simulation.ofOption (.some (.instanceOf same))
  | _ => exact simulation.ofOption .none

theorem instanceType
    (symbolType : (parts.SymbolLike ⇒ simulation.Types parts) deeper.symbolType
      otherDeeper.symbolType) :
    (simulation.Symbols parts ⇒ simulation.Types parts) deeper.instanceType
      otherDeeper.instanceType :=
  fun _ _ symbols =>
    simulation.bind (simulation.headType symbolType symbols) simulation.constructed?

section Reading

variable (like : table.Like parts other)

include like

theorem identifierSymbolsStep
    (followBindings : ∀ source otherSource, simulation.Follows parts table other source otherSource
      (level.followBindings source) (otherLevel.followBindings otherSource)) :
    (parts.node ⇒ simulation.Symbols parts) (level.identifierSymbolsStep table)
      (otherLevel.identifierSymbolsStep other) := by
  intro node otherNode same
  rcases (like.visible same).eq_none_or_exists with
    ⟨isNone, otherIsNone⟩ | ⟨found, otherFound, isFound, otherIsFound, bindings⟩
  · simp only [Lookups.identifierSymbolsStep, isNone, otherIsNone]
    exact simulation.ofList .nil
  · simp only [Lookups.identifierSymbolsStep, isFound, otherIsFound]
    exact simulation.symbols (followBindings _ _ bindings .nil)

theorem followExportStep (limits : simulation.LimitsAgree beyond otherBeyond)
    (followExport : simulation.Searches parts deeper.followExport otherDeeper.followExport)
    (followBindings : ∀ source otherSource, simulation.Follows parts table other source otherSource
      (deeper.followBindings source) (otherDeeper.followBindings otherSource)) :
    simulation.Searches parts (deeper.followExportStep table beyond)
      (otherDeeper.followExportStep other otherBeyond) := by
  rintro id otherId same name _ rfl visited otherVisited entered
  have further : parts.VisitedLike ((id, name) :: visited) ((otherId, name) :: otherVisited) :=
    .cons ⟨same, rfl⟩ entered
  apply limits.searched entered
  rw [like.contains_eq same name entered]
  split
  · exact simulation.ended .nil entered
  · rcases (like.scopes same).eq_none_or_exists with
      ⟨isNone, otherIsNone⟩ | ⟨found, otherFound, isFound, otherIsFound, scopes⟩
    · simp only [isNone, otherIsNone]
      exact simulation.ended .nil further
    · simp only [isFound, otherIsFound]
      exact simulation.findOffered followExport (followBindings _ _) scopes name further

theorem memberSymbolsStep
    (type : (parts.node ⇒ simulation.Types parts) deeper.type otherDeeper.type)
    (receiverMembers : (parts.TypeLike ⇒ Eq ⇒ simulation.Symbols parts) deeper.receiverMembers
      otherDeeper.receiverMembers) :
    (parts.node ⇒ simulation.Symbols parts) deeper.memberSymbolsStep
      otherDeeper.memberSymbolsStep := by
  intro access otherAccess same
  rcases (like.reads.childAt? same "object").eq_none_or_exists with
    ⟨isNone, otherIsNone⟩ | ⟨object, otherObject, isObject, otherIsObject, objects⟩
  · simp only [Lookups.memberSymbolsStep, isNone, otherIsNone]
    exact simulation.ofList .nil
  · rcases (like.reads.childAt? same "property").eq_none_or_exists with
      ⟨isNone, otherIsNone⟩ | ⟨property, otherProperty, isProperty, otherIsProperty, properties⟩
    · simp only [Lookups.memberSymbolsStep, isObject, otherIsObject, isNone, otherIsNone]
      exact simulation.ofList .nil
    · simp only [Lookups.memberSymbolsStep, isObject, otherIsObject, isProperty, otherIsProperty,
        like.reads.text properties]
      exact simulation.after (type objects) fun _ _ receivers => receiverMembers receivers rfl

theorem entrySymbols
    (identifierSymbols : (parts.node ⇒ simulation.Symbols parts) deeper.identifierSymbols
      otherDeeper.identifierSymbols) :
    (parts.node ⇒ simulation.Symbols parts) deeper.entrySymbols otherDeeper.entrySymbols := by
  intro entry otherEntry same
  simp only [Lookups.entrySymbols, like.reads.kindName same]
  split
  · exact identifierSymbols same
  · exact simulation.ofList (.cons (.declaration (like.reads.key same)) .nil)

theorem objectMembersStep
    (identifierSymbols : (parts.node ⇒ simulation.Symbols parts) deeper.identifierSymbols
      otherDeeper.identifierSymbols) :
    (parts.key ⇒ Eq ⇒ simulation.Symbols parts) (deeper.objectMembersStep table)
      (otherDeeper.objectMembersStep other) := by
  rintro literal otherLiteral same name _ rfl
  rcases (like.find same).eq_none_or_exists with
    ⟨isNone, otherIsNone⟩ | ⟨object, otherObject, isObject, otherIsObject, objects⟩
  · simp only [Lookups.objectMembersStep, isNone, otherIsNone]
    exact simulation.ofList .nil
  · simp only [Lookups.objectMembersStep, isObject, otherIsObject]
    exact simulation.collect (simulation.entrySymbols like identifierSymbols)
      (like.reads.entries objects name)

theorem classMembersStep {base : NodeKey → NodeKey → Prop}
    (superclass : (parts.node ⇒ simulation.one base) deeper.superclass otherDeeper.superclass)
    (classMembers : (base ⇒ Eq ⇒ Eq ⇒ simulation.Symbols parts) deeper.classMembers
      otherDeeper.classMembers) :
    (parts.key ⇒ Eq ⇒ Eq ⇒ simulation.Symbols parts) (deeper.classMembersStep table)
      (otherDeeper.classMembersStep other) := by
  rintro key otherKey same name _ rfl isStatic _ rfl
  rcases (like.find same).eq_none_or_exists with
    ⟨isNone, otherIsNone⟩ | ⟨definition, otherDefinition, isNode, otherIsNode, definitions⟩
  · simp only [Lookups.classMembersStep, isNone, otherIsNone]
    exact simulation.ofList .nil
  · have lists := like.reads.ownMembers definitions name isStatic
    have own : List.Forall₂ parts.SymbolLike
        ((definition.ownMembers name isStatic).map (.declaration ·.key))
        ((otherDefinition.ownMembers name isStatic).map (.declaration ·.key)) :=
      List.forall₂_map_left_iff.2 (List.forall₂_map_right_iff.2
        (lists.imp fun _ _ members => .declaration (like.reads.key members)))
    simp only [Lookups.classMembersStep, isNode, otherIsNode]
    generalize definition.ownMembers name isStatic = members at own lists ⊢
    generalize otherDefinition.ownMembers name isStatic = otherMembers at own lists ⊢
    cases lists with
    | cons => exact simulation.ofList own
    | nil =>
        exact simulation.after (superclass definitions) fun _ _ bases => classMembers bases rfl rfl

theorem superclassStep (limits : simulation.LimitsAgree beyond otherBeyond)
    (type : (parts.node ⇒ simulation.Types parts) deeper.type otherDeeper.type) :
    (parts.node ⇒ simulation.one parts.key) (deeper.superclassStep beyond)
      (otherDeeper.superclassStep otherBeyond) := by
  intro definition otherDefinition same
  apply limits.one
  have expression := simulation.ofOption (like.reads.superclassExpression? same)
  exact simulation.bind (simulation.bind expression type) simulation.class?

theorem superclassOf
    (superclass : (parts.node ⇒ simulation.one parts.key) deeper.superclass
      otherDeeper.superclass) :
    (parts.key ⇒ simulation.one parts.key) (deeper.superclassOf table)
      (otherDeeper.superclassOf other) :=
  fun _ _ same => simulation.bind (simulation.ofOption (like.find same)) superclass

theorem calleeSymbols
    (identifierSymbols : (parts.node ⇒ simulation.Symbols parts) deeper.identifierSymbols
      otherDeeper.identifierSymbols)
    (memberSymbols : (parts.node ⇒ simulation.Symbols parts) deeper.memberSymbols
      otherDeeper.memberSymbols) :
    (parts.node ⇒ simulation.Symbols parts) deeper.calleeSymbols otherDeeper.calleeSymbols := by
  intro callee otherCallee same
  simp only [Lookups.calleeSymbols, like.reads.kindName same]
  split
  · exact identifierSymbols same
  · exact memberSymbols same
  · exact simulation.ofList .nil

theorem returnType
    (annotatedType : (parts.node ⇒ simulation.Types parts) deeper.annotatedType
      otherDeeper.annotatedType) :
    (simulation.Symbols parts ⇒ simulation.Types parts) (deeper.returnType table)
      (otherDeeper.returnType other) := by
  intro symbols otherSymbols related
  have declared : simulation.one parts.key
      (effect.bind (effect.first symbols) fun symbol => effect.ofOption symbol.declaration?)
      (otherEffect.bind (otherEffect.first otherSymbols) fun symbol =>
        otherEffect.ofOption symbol.declaration?) :=
    simulation.bind (simulation.first related) fun _ _ same =>
      simulation.ofOption same.declaration?
  apply simulation.bind declared
  intro key otherKey same
  have functions := (like.find same).bind fun _ _ nodes => like.reads.callable? nodes
  have written := functions.bind fun _ _ nodes => like.reads.childAt? nodes "return_type"
  exact simulation.bind (simulation.ofOption written) annotatedType

theorem typeStep (limits : simulation.LimitsAgree beyond otherBeyond)
    (type : (parts.node ⇒ simulation.Types parts) deeper.type otherDeeper.type)
    (annotatedType : (parts.node ⇒ simulation.Types parts) deeper.annotatedType
      otherDeeper.annotatedType)
    (symbolType : (parts.SymbolLike ⇒ simulation.Types parts) deeper.symbolType
      otherDeeper.symbolType)
    (superclass : (parts.node ⇒ simulation.one parts.key) deeper.superclass
      otherDeeper.superclass)
    (identifierSymbols : (parts.node ⇒ simulation.Symbols parts) deeper.identifierSymbols
      otherDeeper.identifierSymbols)
    (memberSymbols : (parts.node ⇒ simulation.Symbols parts) deeper.memberSymbols
      otherDeeper.memberSymbols) :
    (parts.node ⇒ simulation.Types parts) (deeper.typeStep table beyond)
      (otherDeeper.typeStep other otherBeyond) := by
  intro node otherNode same
  have childType : ∀ {child otherChild}, Option.Rel parts.node child otherChild →
      simulation.Types parts (effect.bind (effect.ofOption child) deeper.type)
        (otherEffect.bind (otherEffect.ofOption otherChild) otherDeeper.type) :=
    fun children => simulation.bind (simulation.ofOption children) type
  apply limits.one
  rw [like.reads.kindName same]
  split
  case h_1 | h_2 | h_3 => exact childType (like.reads.firstNamedChild? same)
  case h_4 | h_5 =>
    have written := simulation.ofOption (like.reads.getLast? same)
    exact simulation.orElse (simulation.bind written annotatedType)
      (childType (like.reads.head? same))
  case h_6 =>
    exact simulation.bind (childType (like.reads.childAt? same "constructor"))
      simulation.constructed?
  case h_7 => exact simulation.ofOption (like.reads.thisType? same)
  case h_8 =>
    rcases (like.reads.thisType? same).eq_none_or_exists with
      ⟨isNone, otherIsNone⟩ | ⟨this, otherThis, isThis, otherIsThis, types⟩
    · simp only [isNone, otherIsNone]
      exact simulation.ofOption .none
    · simp only [isThis, otherIsThis]
      cases types with
      | instanceOf same =>
          exact simulation.bind (simulation.superclassOf like superclass same)
            fun _ _ bases => simulation.ofOption (.some (.instanceOf bases))
      | classItself same =>
          exact simulation.bind (simulation.superclassOf like superclass same)
            fun _ _ bases => simulation.ofOption (.some (.classItself bases))
      | object same => exact simulation.ofOption .none
      | exportsOf same => exact simulation.ofOption .none
  case h_9 => exact simulation.headType symbolType (identifierSymbols same)
  case h_10 => exact simulation.headType symbolType (memberSymbols same)
  case h_11 =>
    rcases (like.reads.childAt? same "function").eq_none_or_exists with
      ⟨isNone, otherIsNone⟩ | ⟨callee, otherCallee, isCallee, otherIsCallee, callees⟩
    · simp only [isNone, otherIsNone]
      exact simulation.ofOption .none
    · simp only [isCallee, otherIsCallee]
      exact simulation.returnType like annotatedType
        (simulation.calleeSymbols like identifierSymbols memberSymbols callees)
  case h_12 => exact simulation.ofOption (.some (.object (like.reads.key same)))
  case h_13 => exact simulation.ofOption (.some (.classItself (like.reads.key same)))
  case h_14 => exact simulation.ofOption .none

theorem declarationTypeStep (limits : simulation.LimitsAgree beyond otherBeyond)
    (type : (parts.node ⇒ simulation.Types parts) deeper.type otherDeeper.type)
    (annotatedType : (parts.node ⇒ simulation.Types parts) deeper.annotatedType
      otherDeeper.annotatedType) :
    (parts.key ⇒ simulation.Types parts) (deeper.declarationTypeStep table beyond)
      (otherDeeper.declarationTypeStep other otherBeyond) := by
  intro key otherKey sameKey
  apply limits.one
  apply simulation.bind (simulation.ofOption (like.find sameKey))
  intro node otherNode same
  have value := simulation.bind (simulation.ofOption (like.reads.childAt? same "value")) type
  have written := fun field =>
    simulation.bind (simulation.ofOption (like.reads.childAt? same field)) annotatedType
  simp only [like.reads.kindName same, like.reads.hasToken same]
  split
  case h_1 | h_2 | h_3 => exact simulation.ofOption (.some (.classItself sameKey))
  case h_4 => exact simulation.ofOption (.some (.object sameKey))
  case h_5 | h_6 | h_7 | h_8 | h_9 => exact simulation.orElse (written "type") value
  case h_10 => exact value
  case h_11 | h_12 =>
    split
    · exact written "return_type"
    · exact simulation.ofOption .none
  case h_13 => exact simulation.ofOption .none

theorem annotatedTypeStep (limits : simulation.LimitsAgree beyond otherBeyond)
    (type : (parts.node ⇒ simulation.Types parts) deeper.type otherDeeper.type)
    (annotatedType : (parts.node ⇒ simulation.Types parts) deeper.annotatedType
      otherDeeper.annotatedType)
    (symbolType : (parts.SymbolLike ⇒ simulation.Types parts) deeper.symbolType
      otherDeeper.symbolType)
    (identifierSymbols : (parts.node ⇒ simulation.Symbols parts) deeper.identifierSymbols
      otherDeeper.identifierSymbols)
    (followExport : simulation.Searches parts deeper.followExport otherDeeper.followExport) :
    (parts.node ⇒ simulation.Types parts) (deeper.annotatedTypeStep beyond)
      (otherDeeper.annotatedTypeStep otherBeyond) := by
  intro node otherNode same
  apply limits.one
  rw [like.reads.kindName same]
  split
  case h_1 | h_2 =>
    exact simulation.bind (simulation.ofOption (like.reads.firstNamedChild? same)) annotatedType
  case h_3 =>
    exact simulation.bind (simulation.ofOption (like.reads.childAt? same "name")) annotatedType
  case h_4 => exact simulation.instanceType symbolType (identifierSymbols same)
  case h_5 =>
    rcases (like.reads.childAt? same "module").eq_none_or_exists with
      ⟨isNone, otherIsNone⟩ | ⟨qualifier, otherQualifier, isQualifier, otherIsQualifier, qualifiers⟩
    · simp only [isNone, otherIsNone]
      exact simulation.ofOption .none
    · rcases (like.reads.childAt? same "name").eq_none_or_exists with
        ⟨isNone, otherIsNone⟩ | ⟨name, otherName, isName, otherIsName, names⟩
      · simp only [isQualifier, otherIsQualifier, isNone, otherIsNone]
        exact simulation.ofOption .none
      · simp only [isQualifier, otherIsQualifier, isName, otherIsName, like.reads.text names]
        apply simulation.bind (type qualifiers)
        intro receiver otherReceiver receivers
        cases receivers with
        | exportsOf same =>
            exact simulation.instanceType symbolType
              (simulation.symbols (followExport same rfl .nil))
        | _ => exact simulation.ofOption .none
  case h_6 => exact simulation.ofOption .none

end Reading

end Effect.Simulation

namespace Lookups

variable {effect otherEffect : Effect}

/-- Whether the look-ups that are called at the depth of the caller find counterparts. -/
structure RelatedHere (simulation : effect.Simulation otherEffect) (parts : Counterparts)
    (table other : SymbolTable) (lookups : Lookups effect) (others : Lookups otherEffect) :
    Prop where
  followBindings : ∀ source otherSource, simulation.Follows parts table other source otherSource
    (lookups.followBindings source) (others.followBindings otherSource)
  objectMembers : (parts.key ⇒ Eq ⇒ simulation.Symbols parts) lookups.objectMembers
    others.objectMembers
  classMembers : (parts.key ⇒ Eq ⇒ Eq ⇒ simulation.Symbols parts) lookups.classMembers
    others.classMembers
  declarationType : (parts.key ⇒ simulation.Types parts) lookups.declarationType
    others.declarationType

/-- Whether the look-ups that are called one deeper than the caller find counterparts. -/
structure Related (simulation : effect.Simulation otherEffect) (parts : Counterparts)
    (table other : SymbolTable) (lookups : Lookups effect) (others : Lookups otherEffect) :
    Prop where
  identifierSymbols : (parts.node ⇒ simulation.Symbols parts) lookups.identifierSymbols
    others.identifierSymbols
  followBindings : ∀ source otherSource, simulation.Follows parts table other source otherSource
    (lookups.followBindings source) (others.followBindings otherSource)
  followExport : simulation.Searches parts lookups.followExport others.followExport
  memberSymbols : (parts.node ⇒ simulation.Symbols parts) lookups.memberSymbols
    others.memberSymbols
  receiverMembers : (parts.TypeLike ⇒ Eq ⇒ simulation.Symbols parts) lookups.receiverMembers
    others.receiverMembers
  classMembers : (parts.key ⇒ Eq ⇒ Eq ⇒ simulation.Symbols parts) lookups.classMembers
    others.classMembers
  superclass : (parts.node ⇒ simulation.one parts.key) lookups.superclass others.superclass
  type : (parts.node ⇒ simulation.Types parts) lookups.type others.type
  symbolType : (parts.SymbolLike ⇒ simulation.Types parts) lookups.symbolType others.symbolType
  annotatedType : (parts.node ⇒ simulation.Types parts) lookups.annotatedType
    others.annotatedType

variable {simulation : effect.Simulation otherEffect} {parts : Counterparts}
  {table other : SymbolTable}

theorem related_nothing : Related simulation parts table other (.nothing effect)
    (.nothing otherEffect) where
  identifierSymbols _ _ _ := simulation.noSymbols
  followBindings _ _ _ _ _ := @simulation.noSearch _ _
  followExport _ _ _ _ _ _ := @simulation.noSearch _ _
  memberSymbols _ _ _ := simulation.noSymbols
  receiverMembers _ _ _ _ _ _ := simulation.noSymbols
  classMembers _ _ _ _ _ _ _ _ _ := simulation.noSymbols
  superclass _ _ _ := simulation.noThing
  type _ _ _ := simulation.noThing
  symbolType _ _ _ := simulation.noThing
  annotatedType _ _ _ := simulation.noThing

theorem related_of_isOpen (isOpen : simulation.IsOpen) (others : Lookups otherEffect) :
    Related simulation parts table other (.nothing effect) others where
  identifierSymbols _ _ _ := isOpen.noSymbols _
  followBindings _ _ _ _ _ visited _ _ := isOpen.noSearch visited _
  followExport _ _ _ _ _ _ visited _ _ := isOpen.noSearch visited _
  memberSymbols _ _ _ := isOpen.noSymbols _
  receiverMembers _ _ _ _ _ _ := isOpen.noSymbols _
  classMembers _ _ _ _ _ _ _ _ _ := isOpen.noSymbols _
  superclass _ _ _ := isOpen.noThing _
  type _ _ _ := isOpen.noThing _
  symbolType _ _ _ := isOpen.noThing _
  annotatedType _ _ _ := isOpen.noThing _

namespace Related

variable {level deeper : Lookups effect} {otherLevel otherDeeper : Lookups otherEffect}
  {beyond otherBeyond : Bool} (like : table.Like parts other)
  (limits : simulation.LimitsAgree beyond otherBeyond)
  (below : Related simulation parts table other deeper otherDeeper)

include like limits below

/-- What is called at the depth of the caller makes no such calls itself. -/
theorem relatedHere_step (level : Lookups effect) (otherLevel : Lookups otherEffect) :
    RelatedHere simulation parts table other (.step table beyond level deeper)
      (.step other otherBeyond otherLevel otherDeeper) where
  followBindings := simulation.followBindingsStep below.followExport
  objectMembers := simulation.objectMembersStep like below.identifierSymbols
  classMembers := simulation.classMembersStep like below.superclass below.classMembers
  declarationType := simulation.declarationTypeStep like limits below.type below.annotatedType

theorem step (here : RelatedHere simulation parts table other level otherLevel) :
    Related simulation parts table other (.step table beyond level deeper)
      (.step other otherBeyond otherLevel otherDeeper) where
  identifierSymbols := simulation.identifierSymbolsStep like here.followBindings
  followBindings := simulation.followBindingsStep below.followExport
  followExport := simulation.followExportStep like limits below.followExport below.followBindings
  memberSymbols := simulation.memberSymbolsStep like below.type below.receiverMembers
  receiverMembers := simulation.receiverMembersStep limits below.followExport here.objectMembers
    here.classMembers
  classMembers := simulation.classMembersStep like below.superclass below.classMembers
  superclass := simulation.superclassStep like limits below.type
  type := simulation.typeStep like limits below.type below.annotatedType below.symbolType
    below.superclass below.identifierSymbols below.memberSymbols
  symbolType := simulation.symbolTypeStep here.declarationType
  annotatedType := simulation.annotatedTypeStep like limits below.type below.annotatedType
    below.symbolType below.identifierSymbols below.followExport

theorem above : Related simulation parts table other (.above table beyond deeper)
    (.above other otherBeyond otherDeeper) :=
  below.step like limits (below.relatedHere_step like limits _ _)

omit limits below in
theorem symbols {lookups : Lookups effect} {others : Lookups otherEffect}
    (related : Related simulation parts table other lookups others) :
    (parts.node ⇒ simulation.Symbols parts) lookups.symbols others.symbols := by
  intro node otherNode same
  have nothing : simulation.Symbols parts (effect.ofList []) (otherEffect.ofList []) :=
    simulation.ofList .nil
  simp only [Lookups.symbols, like.reads.kindName same]
  split
  case h_1 => exact related.identifierSymbols same
  case h_2 => exact related.memberSymbols same
  case h_3 | h_4 =>
    rcases (like.reads.parent? same).eq_none_or_exists with
      ⟨isNone, otherIsNone⟩ | ⟨access, otherAccess, isParent, otherIsParent, accesses⟩
    · simp only [isNone, otherIsNone]
      exact nothing
    · simp only [isParent, otherIsParent, like.reads.kindName accesses]
      split
      · exact related.memberSymbols accesses
      · exact nothing
  case h_5 => exact nothing

end Related

/-- Look-ups with the same number of steps left find counterparts from counterparts. -/
theorem related_lookups (like : table.Like parts other) (budget : Nat) :
    Related simulation parts table other (table.lookups effect budget)
      (other.lookups otherEffect budget) := by
  induction budget with
  | zero => exact related_nothing.above like (.inl rfl)
  | succ budget ih => exact ih.above like (.inl rfl)

/-- If the first effect says nothing beyond the limit, the second may have more steps left. -/
theorem related_of_le (like : table.Like parts other) (isOpen : simulation.IsOpen)
    {budget larger : Nat} (le : budget ≤ larger) :
    Related simulation parts table other (table.lookups effect budget)
      (other.lookups otherEffect larger) := by
  induction budget generalizing larger with
  | zero => cases larger <;> exact (related_of_isOpen isOpen _).above like (.inr ⟨rfl, isOpen⟩)
  | succ budget ih =>
      cases larger with
      | zero => cases le
      | succ larger => exact (ih (Nat.le_of_succ_le_succ le)).above like (.inl rfl)

end Lookups
end CallHierarchy
