import CallHierarchy.Source.Basic
import Mathlib.Data.List.Forall2

/-!
# Trees with comments inserted

A parser puts comments anywhere among the parts of a construct. `Commented` says
that one tree is another with comments inserted. Each of them stands between two
children of a node, with a construct somewhere before it and one somewhere after
it, so that no comment becomes the first or the last construct of a node.

What reads a list of children sees the same list with further items in between.
`Interspersed` relates two such lists, and its lemmas say which functions on
lists do not notice.
-/

theorem Option.Rel.of_forall {α : Type} {alike : α → α → Prop} (same : ∀ item, alike item item) :
    ∀ item? : Option α, Option.Rel alike item? item?
  | .none => .none
  | .some item => .some (same item)

namespace Option.Rel

variable {α β γ δ : Type} {alike : α → β → Prop} {result : γ → δ → Prop} {item? : Option α}
  {other? : Option β} (related : Option.Rel alike item? other?)

include related

theorem eq_none_or_exists : (item? = .none ∧ other? = .none) ∨
    ∃ item other, item? = .some item ∧ other? = .some other ∧ alike item other := by
  cases related with
  | none => exact .inl ⟨rfl, rfl⟩
  | some same => exact .inr ⟨_, _, rfl, rfl, same⟩

theorem bind {find : α → Option γ} {otherFind : β → Option δ}
    (agree : ∀ item other, alike item other → Option.Rel result (find item) (otherFind other)) :
    Option.Rel result (item?.bind find) (other?.bind otherFind) := by
  cases related with
  | none => exact .none
  | some same => exact agree _ _ same

theorem map {image : α → γ} {otherImage : β → δ}
    (agree : ∀ item other, alike item other → result (image item) (otherImage other)) :
    Option.Rel result (item?.map image) (other?.map otherImage) := by
  cases related with
  | none => exact .none
  | some same => exact .some (agree _ _ same)

theorem filter {keep : α → Bool} {otherKeep : β → Bool}
    (agree : ∀ item other, alike item other → otherKeep other = keep item) :
    Option.Rel alike (item?.filter keep) (other?.filter otherKeep) := by
  cases related with
  | none => exact .none
  | @some item other same =>
      simp only [Option.filter_some, agree item other same]
      split
      · exact .some same
      · exact .none

theorem or {later? : Option α} {otherLater? : Option β}
    (laterRelated : Option.Rel alike later? otherLater?) :
    Option.Rel alike (item?.or later?) (other?.or otherLater?) := by
  cases related with
  | none => exact laterRelated
  | some same => exact .some same

theorem any_eq {satisfies : α → Bool} {otherSatisfies : β → Bool}
    (agree : ∀ item other, alike item other → otherSatisfies other = satisfies item) :
    other?.any otherSatisfies = item?.any satisfies := by
  cases related with
  | none => rfl
  | some same => exact agree _ _ same

theorem map_eq {image : α → γ} {otherImage : β → γ}
    (agree : ∀ item other, alike item other → otherImage other = image item) :
    other?.map otherImage = item?.map image := by
  cases related with
  | none => rfl
  | some same => exact congrArg Option.some (agree _ _ same)

theorem imp_of_mem {weaker : α → β → Prop}
    (weaken : ∀ item ∈ item?, ∀ other ∈ other?, alike item other → weaker item other) :
    Option.Rel weaker item? other? := by
  cases related with
  | none => exact .none
  | some same => exact .some (weaken _ rfl _ rfl same)

theorem getD {default : α} {otherDefault : β} (defaults : alike default otherDefault) :
    alike (item?.getD default) (other?.getD otherDefault) := by
  cases related with
  | none => exact defaults
  | some same => exact same

theorem forall₂_elim {image : α → List γ} {otherImage : β → List δ}
    (agree : ∀ item other, alike item other →
      List.Forall₂ result (image item) (otherImage other)) :
    List.Forall₂ result (item?.elim [] image) (other?.elim [] otherImage) := by
  cases related with
  | none => exact .nil
  | some same => exact agree _ _ same

theorem forall₂_toList : List.Forall₂ alike item?.toList other?.toList := by
  cases related with
  | none => exact .nil
  | some same => exact .cons same .nil

theorem isSome_eq : other?.isSome = item?.isSome := by
  cases related <;> rfl

end Option.Rel

namespace CallHierarchy

/-- Whether the second list is the first, item by item, with extra items in between. -/
inductive Interspersed {α β : Type} (alike : α → β → Prop) (extra : β → Prop) :
    List α → List β → Prop
  | nil : Interspersed alike extra [] []
  | keep {item : α} {other : β} {items : List α} {others : List β} (same : alike item other)
      (rest : Interspersed alike extra items others) :
      Interspersed alike extra (item :: items) (other :: others)
  | insert {other : β} {items : List α} {others : List β} (isExtra : extra other)
      (rest : Interspersed alike extra items others) :
      Interspersed alike extra items (other :: others)

namespace Interspersed

variable {α β γ δ : Type} {alike : α → β → Prop} {extra : β → Prop} {items : List α}
  {others : List β}

theorem append {moreItems : List α} {moreOthers : List β}
    (first : Interspersed alike extra items others)
    (second : Interspersed alike extra moreItems moreOthers) :
    Interspersed alike extra (items ++ moreItems) (others ++ moreOthers) := by
  induction first with
  | nil => exact second
  | keep same _ ih => exact .keep same ih
  | insert isExtra _ ih => exact .insert isExtra ih

theorem of_extra (allExtra : ∀ other ∈ others, extra other) :
    Interspersed alike extra [] others := by
  induction others with
  | nil => exact .nil
  | cons other rest ih =>
      exact .insert (allExtra other List.mem_cons_self)
        (ih fun later laterMem => allExtra later (List.mem_cons_of_mem _ laterMem))

theorem of_eq : ∀ items : List α, Interspersed Eq (fun _ => False) items items
  | [] => .nil
  | _ :: rest => .keep rfl (of_eq rest)

theorem imp {weaker : α → β → Prop} {weakerExtra : β → Prop}
    (related : Interspersed alike extra items others)
    (agree : ∀ item other, alike item other → weaker item other)
    (extras : ∀ other, extra other → weakerExtra other) :
    Interspersed weaker weakerExtra items others := by
  induction related with
  | nil => exact .nil
  | keep same _ ih => exact .keep (agree _ _ same) ih
  | insert isExtra _ ih => exact .insert (extras _ isExtra) ih

theorem map_of_mem {result : γ → δ → Prop} {extraResult : δ → Prop} {image : α → γ}
    {otherImage : β → δ} (related : Interspersed alike extra items others)
    (agree : ∀ item ∈ items, ∀ other ∈ others, alike item other →
      result (image item) (otherImage other))
    (extras : ∀ other, extra other → extraResult (otherImage other)) :
    Interspersed result extraResult (items.map image) (others.map otherImage) := by
  induction related with
  | nil => exact .nil
  | @keep item other _ _ same _ ih =>
      refine .keep (agree item List.mem_cons_self other List.mem_cons_self same) (ih ?_)
      intro item itemMem other otherMem
      exact agree item (List.mem_cons_of_mem _ itemMem) other (List.mem_cons_of_mem _ otherMem)
  | @insert other _ _ isExtra _ ih =>
      refine .insert (extras other isExtra) (ih ?_)
      intro item itemMem other otherMem
      exact agree item itemMem other (List.mem_cons_of_mem _ otherMem)

theorem exists_alike (related : Interspersed alike extra items others) {item : α}
    (itemMem : item ∈ items) : ∃ other ∈ others, alike item other := by
  induction related with
  | nil => simp at itemMem
  | keep same _ ih =>
      rcases List.mem_cons.1 itemMem with rfl | itemMem
      · exact ⟨_, List.mem_cons_self, same⟩
      · rcases ih itemMem with ⟨other, otherMem, isAlike⟩
        exact ⟨other, List.mem_cons_of_mem _ otherMem, isAlike⟩
  | insert _ _ ih =>
      rcases ih itemMem with ⟨other, otherMem, isAlike⟩
      exact ⟨other, List.mem_cons_of_mem _ otherMem, isAlike⟩

section

variable {satisfies : α → Bool} {otherSatisfies : β → Bool}
  (agree : ∀ item other, alike item other → otherSatisfies other = satisfies item)

include agree

theorem filter (related : Interspersed alike extra items others) :
    Interspersed alike extra (items.filter satisfies) (others.filter otherSatisfies) := by
  induction related with
  | nil => exact .nil
  | @keep item other _ _ same _ ih =>
      simp only [List.filter_cons, agree item other same]
      split
      · exact .keep same ih
      · exact ih
  | insert isExtra _ ih =>
      simp only [List.filter_cons]
      split
      · exact .insert isExtra ih
      · exact ih

/-- Where extra items can be found as well, what is found stands before what was found. -/
theorem find?_or_extra {before : β → β → Prop} (related : Interspersed alike extra items others)
    (apart : others.Pairwise before) :
    Option.Rel alike (items.find? satisfies) (others.find? otherSatisfies) ∨
    ∃ found, others.find? otherSatisfies = some found ∧ extra found ∧
      ∀ item, items.find? satisfies = some item →
        ∃ other, alike item other ∧ before found other := by
  induction related with
  | nil => exact .inl .none
  | @keep item other _ _ same _ ih =>
      simp only [List.find?_cons, agree item other same]
      split
      · exact .inl (.some same)
      · exact ih apart.of_cons
  | @insert other _ _ isExtra rest ih =>
      simp only [List.find?_cons]
      split
      · refine .inr ⟨other, rfl, isExtra, fun item isFound => ?_⟩
        rcases rest.exists_alike (List.mem_of_find?_eq_some isFound) with ⟨later, laterMem, same⟩
        exact ⟨later, same, List.rel_of_pairwise_cons apart laterMem⟩
      · exact ih apart.of_cons

variable (ignores : ∀ other, extra other → otherSatisfies other = false)

include ignores

theorem find? (related : Interspersed alike extra items others) :
    Option.Rel alike (items.find? satisfies) (others.find? otherSatisfies) := by
  induction related with
  | nil => exact .none
  | @keep item other _ _ same _ ih =>
      simp only [List.find?_cons, agree item other same]
      split
      · exact .some same
      · exact ih
  | @insert other _ _ isExtra _ ih =>
      simp only [List.find?_cons, ignores other isExtra]
      exact ih

theorem any_eq (related : Interspersed alike extra items others) :
    others.any otherSatisfies = items.any satisfies := by
  have found := (find? agree ignores related).isSome_eq
  rwa [List.isSome_find?, List.isSome_find?] at found

theorem forall₂_filter (related : Interspersed alike extra items others) :
    List.Forall₂ alike (items.filter satisfies) (others.filter otherSatisfies) := by
  induction related with
  | nil => exact .nil
  | @keep item other _ _ same _ ih =>
      simp only [List.filter_cons, agree item other same]
      split
      · exact .cons same ih
      · exact ih
  | @insert other _ _ isExtra _ ih =>
      simp only [List.filter_cons, ignores other isExtra]
      exact ih

end

theorem flatMap {result : γ → δ → Prop} {extraResult : δ → Prop} {expand : α → List γ}
    {otherExpand : β → List δ} (related : Interspersed alike extra items others)
    (agree : ∀ item ∈ items, ∀ other, alike item other →
      Interspersed result extraResult (expand item) (otherExpand other))
    (extras : ∀ other, extra other → ∀ more ∈ otherExpand other, extraResult more) :
    Interspersed result extraResult (items.flatMap expand) (others.flatMap otherExpand) := by
  induction related with
  | nil => exact .nil
  | @keep item other _ _ same _ ih =>
      rw [List.flatMap_cons, List.flatMap_cons]
      refine (agree item List.mem_cons_self other same).append (ih ?_)
      exact fun later laterMem => agree later (List.mem_cons_of_mem _ laterMem)
  | @insert other _ _ isExtra _ ih =>
      rw [List.flatMap_cons]
      exact (of_extra (extras other isExtra)).append (ih agree)

theorem forall₂_flatMap {result : γ → δ → Prop} {expand : α → List γ} {otherExpand : β → List δ}
    (related : Interspersed alike extra items others)
    (agree : ∀ item ∈ items, ∀ other, alike item other →
      List.Forall₂ result (expand item) (otherExpand other))
    (ignores : ∀ other, extra other → otherExpand other = []) :
    List.Forall₂ result (items.flatMap expand) (others.flatMap otherExpand) := by
  induction related with
  | nil => exact .nil
  | @keep item other _ _ same _ ih =>
      rw [List.flatMap_cons, List.flatMap_cons]
      exact List.rel_append (agree item List.mem_cons_self other same)
        (ih fun later laterMem => agree later (List.mem_cons_of_mem _ laterMem))
  | @insert other _ _ isExtra _ ih =>
      rw [List.flatMap_cons, ignores other isExtra]
      exact ih agree

theorem forall₂_filterMap {result : γ → δ → Prop} {image : α → Option γ}
    {otherImage : β → Option δ} (related : Interspersed alike extra items others)
    (agree : ∀ item ∈ items, ∀ other, alike item other →
      Option.Rel result (image item) (otherImage other))
    (ignores : ∀ other, extra other → otherImage other = none) :
    List.Forall₂ result (items.filterMap image) (others.filterMap otherImage) := by
  rw [List.filterMap_eq_flatMap_toList, List.filterMap_eq_flatMap_toList]
  apply related.forall₂_flatMap
  · exact fun item itemMem other same => (agree item itemMem other same).forall₂_toList
  · intro other isExtra
    rw [ignores other isExtra, Option.toList_none]

end Interspersed

theorem getElem?_of_forall₂ {α β : Type} {alike : α → β → Prop} {items : List α} {others : List β}
    (related : List.Forall₂ alike items others) (position : Nat) :
    Option.Rel alike items[position]? others[position]? := by
  induction related generalizing position with
  | nil => exact .none
  | cons same _ ih =>
      cases position with
      | zero => exact .some same
      | succ position => exact ih position

theorem map_eq_of_forall₂ {α β γ : Type} {alike : α → β → Prop} {items : List α} {others : List β}
    {image : α → γ} {otherImage : β → γ} (related : List.Forall₂ alike items others)
    (agree : ∀ item other, alike item other → otherImage other = image item) :
    others.map otherImage = items.map image := by
  induction related with
  | nil => rfl
  | @cons item other _ _ same _ ih => rw [List.map_cons, List.map_cons, agree item other same, ih]

theorem find?_of_forall₂ {α β : Type} {alike : α → β → Prop} {items : List α} {others : List β}
    {satisfies : α → Bool} {otherSatisfies : β → Bool} (related : List.Forall₂ alike items others)
    (agree : ∀ item other, alike item other → otherSatisfies other = satisfies item) :
    Option.Rel alike (items.find? satisfies) (others.find? otherSatisfies) := by
  induction related with
  | nil => exact .none
  | @cons item other _ _ same _ ih =>
      simp only [List.find?_cons, agree item other same]
      split
      · exact .some same
      · exact ih

/-- Whether the second value is the image of the first, which has a property. -/
def Mapped {α β : Type} (image : α → β) (property : α → Prop) (item : α) (other : β) : Prop :=
  other = image item ∧ property item

theorem forall₂_mapped {α β : Type} {image : α → β} {property : α → Prop} {items : List α}
    {others : List β} :
    List.Forall₂ (Mapped image property) items others ↔
      others = items.map image ∧ ∀ item ∈ items, property item := by
  constructor
  · intro related
    induction related with
    | nil => simp
    | @cons item other _ _ same _ ih =>
        rcases same with ⟨rfl, holds⟩
        rcases ih with ⟨rfl, rest⟩
        exact ⟨rfl, List.forall_mem_cons.2 ⟨holds, rest⟩⟩
  · rintro ⟨rfl, holds⟩
    exact List.forall₂_map_right_iff.2
      (List.forall₂_same.2 fun item itemMem => ⟨rfl, holds item itemMem⟩)

/--
Whether a tree is a comment that can stand below nodes of the given labels: it has
some text, no parts and no field, and no node around it has its range and kind,
since a key could not tell the two apart. Where comments have no parts, no comment
stands around another one, and the last always holds.
-/
structure FreshComment (around : List Label) (tree : SyntaxTree) : Prop where
  kind : tree.value.kind = ⟨"comment", true⟩
  field : tree.value.field = none
  nonempty : tree.value.start < tree.value.stop
  leaf : tree.children = []
  fresh : ∀ outer ∈ around, (outer.start, outer.stop, outer.kind) ≠
    (tree.value.start, tree.value.stop, tree.value.kind)

mutual

/-- Whether the second tree is the first with comments inserted, given the labels around it. -/
inductive Commented : List Label → SyntaxTree → SyntaxTree → Prop
  | node {around : List Label} {label : Label} {children others : List SyntaxTree}
      (inside : CommentedList (label :: around) false children others) :
      Commented around (.node label children) (.node label others)

/--
Whether the second list of sibling trees is the first with comments inserted.
The flag says whether a construct stands before; one has to stand after, too.
-/
inductive CommentedList : List Label → Bool → List SyntaxTree → List SyntaxTree → Prop
  | nil {around : List Label} {after : Bool} : CommentedList around after [] []
  | keep {around : List Label} {after : Bool} {tree other : SyntaxTree}
      {rest others : List SyntaxTree} (first : Commented around tree other)
      (later : CommentedList around (after || tree.value.kind.named) rest others) :
      CommentedList around after (tree :: rest) (other :: others)
  | insert {around : List Label} {comment : SyntaxTree} {rest others : List SyntaxTree}
      (isComment : FreshComment around comment) (before : rest.any (·.value.kind.named))
      (later : CommentedList around true rest others) :
      CommentedList around true rest (comment :: others)

end

mutual

theorem Commented.refl (around : List Label) : ∀ tree : SyntaxTree, Commented around tree tree
  | .node _ children => .node (CommentedList.refl _ _ children)

theorem CommentedList.refl (around : List Label) (after : Bool) :
    ∀ trees : List SyntaxTree, CommentedList around after trees trees
  | [] => .nil
  | tree :: rest => .keep (Commented.refl around tree) (CommentedList.refl around _ rest)

end

theorem Commented.value {around : List Label} {tree other : SyntaxTree} :
    Commented around tree other → other.value = tree.value
  | .node _ => rfl

theorem Commented.children {around : List Label} {tree other : SyntaxTree} :
    Commented around tree other →
      CommentedList (tree.value :: around) false tree.children other.children
  | .node inside => inside

namespace CommentedList

theorem interspersed {around : List Label} {after : Bool} {trees others : List SyntaxTree} :
    CommentedList around after trees others →
      Interspersed (Commented around) (FreshComment around) trees others
  | .nil => .nil
  | .keep first later => .keep first later.interspersed
  | .insert isComment _ later => .insert isComment later.interspersed

theorem find?_named {around : List Label} {trees others : List SyntaxTree} :
    CommentedList around false trees others →
      Option.Rel (Commented around) (trees.find? (·.value.kind.named))
        (others.find? (·.value.kind.named))
  | .nil => .none
  | @keep _ _ tree _ _ _ first later => by
      rw [List.find?_cons, List.find?_cons, first.value]
      cases named : tree.value.kind.named with
      | true => exact .some first
      | false =>
          rw [named] at later
          exact later.find?_named

theorem getLast?_named {around : List Label} {after : Bool} {trees others : List SyntaxTree} :
    CommentedList around after trees others →
      Option.Rel (Commented around) (trees.filter (·.value.kind.named)).getLast?
        (others.filter (·.value.kind.named)).getLast?
  | .nil => .none
  | @keep _ _ tree _ _ _ first later => by
      have last := later.getLast?_named
      rw [List.filter_cons, List.filter_cons, first.value]
      split
      · rw [List.getLast?_cons, List.getLast?_cons]
        exact .some (last.getD first)
      · exact last
  | @insert _ comment rest others isComment before later => by
      have last := later.getLast?_named
      have found : (rest.filter (·.value.kind.named)).getLast?.isSome := by
        simpa [List.filter_eq_nil_iff] using before
      rw [List.filter_cons, isComment.kind, if_pos rfl, List.getLast?_cons]
      generalize (rest.filter (·.value.kind.named)).getLast? = final at last found ⊢
      generalize (others.filter (·.value.kind.named)).getLast? = otherFinal at last ⊢
      cases last with
      | none => simp at found
      | some same => exact .some same

end CommentedList

namespace Tree

mutual

/-- Whether the children of every node stand inside it, one after the other. -/
def Ordered : SyntaxTree → Prop
  | .node label children => OrderedBetween label.start label.stop children

/-- Whether trees stand between two offsets, one after the other. -/
def OrderedBetween (start stop : Nat) : List SyntaxTree → Prop
  | [] => start ≤ stop
  | tree :: rest =>
    start ≤ tree.value.start ∧ Ordered tree ∧ OrderedBetween tree.value.stop stop rest

end

end Tree

namespace Tree

mutual

theorem Ordered.start_le_stop : ∀ {tree : SyntaxTree}, tree.Ordered →
    tree.value.start ≤ tree.value.stop
  | .node _ _, ordered => OrderedBetween.start_le_stop ordered

theorem OrderedBetween.start_le_stop : ∀ {start stop : Nat} {trees : List SyntaxTree},
    OrderedBetween start stop trees → start ≤ stop
  | _, _, [], ordered => ordered
  | _, _, _ :: _, ⟨after, inside, rest⟩ =>
      Nat.le_trans after
        (Nat.le_trans (Ordered.start_le_stop inside) (OrderedBetween.start_le_stop rest))

end

namespace OrderedBetween

variable {start stop : Nat} {trees : List SyntaxTree}

theorem of_le {earlier : Nat} (le : earlier ≤ start) (ordered : OrderedBetween start stop trees) :
    OrderedBetween earlier stop trees := by
  cases trees with
  | nil => exact Nat.le_trans le ordered
  | cons tree rest => exact ⟨Nat.le_trans le ordered.1, ordered.2⟩

theorem of_mem (ordered : OrderedBetween start stop trees) {tree : SyntaxTree}
    (treeMem : tree ∈ trees) :
    start ≤ tree.value.start ∧ tree.value.stop ≤ stop ∧ tree.Ordered := by
  induction trees generalizing start with
  | nil => simp at treeMem
  | cons first rest ih =>
      rcases ordered with ⟨after, inside, later⟩
      rcases List.mem_cons.1 treeMem with rfl | treeMem
      · exact ⟨after, later.start_le_stop, inside⟩
      · rcases ih later treeMem with ⟨afterFirst, before, isOrdered⟩
        have le := inside.start_le_stop
        exact ⟨by omega, before, isOrdered⟩

theorem pairwise (ordered : OrderedBetween start stop trees) :
    trees.Pairwise fun tree later => tree.value.stop ≤ later.value.start := by
  induction trees generalizing start with
  | nil => exact .nil
  | cons first rest ih =>
      exact .cons (fun later laterMem => (ordered.2.2.of_mem laterMem).1) (ih ordered.2.2)

end OrderedBetween

namespace Ordered

variable {tree : SyntaxTree} (ordered : tree.Ordered)

include ordered

theorem orderedBetween_children :
    OrderedBetween tree.value.start tree.value.stop tree.children := by
  cases tree
  exact ordered

theorem of_mem_children {child : SyntaxTree} (childMem : child ∈ tree.children) :
    tree.value.start ≤ child.value.start ∧ child.value.stop ≤ tree.value.stop ∧ child.Ordered :=
  ordered.orderedBetween_children.of_mem childMem

end Ordered

end Tree

mutual

theorem Commented.ordered {around : List Label} {tree other : SyntaxTree} :
    Commented around tree other → other.Ordered → tree.Ordered
  | .node inside, ordered => inside.orderedBetween ordered

theorem CommentedList.orderedBetween {around : List Label} {after : Bool}
    {trees others : List SyntaxTree} {start stop : Nat} :
    CommentedList around after trees others → Tree.OrderedBetween start stop others →
      Tree.OrderedBetween start stop trees
  | .nil, ordered => ordered
  | .keep first later, ⟨before, inside, rest⟩ =>
      ⟨first.value ▸ before, first.ordered inside, later.orderedBetween (first.value ▸ rest)⟩
  | .insert _ _ later, ⟨before, inside, rest⟩ =>
      (later.orderedBetween rest).of_le (Nat.le_trans before inside.start_le_stop)

end

mutual

/-- Nothing is inserted into a tree that takes up no text. -/
theorem Commented.eq_of_empty {around : List Label} {tree other : SyntaxTree} :
    Commented around tree other → other.Ordered → tree.value.stop ≤ tree.value.start →
      other = tree
  | .node inside, ordered, empty => by rw [inside.eq_of_empty ordered empty]

theorem CommentedList.eq_of_empty {around : List Label} {after : Bool}
    {trees others : List SyntaxTree} {start stop : Nat} :
    CommentedList around after trees others → Tree.OrderedBetween start stop others →
      stop ≤ start → others = trees
  | .nil, _, _ => rfl
  | .keep first later, ⟨before, inside, rest⟩, empty => by
      have length := inside.start_le_stop
      have remaining := rest.start_le_stop
      rw [first.eq_of_empty inside (by rw [← first.value]; omega),
        later.eq_of_empty rest (by omega)]
  | .insert isComment _ _, ⟨before, _, rest⟩, empty => by
      have nonempty := isComment.nonempty
      have remaining := rest.start_le_stop
      omega

end

/-- Two siblings that start and end together are one, or take up no text. -/
theorem Tree.OrderedBetween.eq_or_empty {start stop : Nat} {trees : List SyntaxTree}
    (ordered : Tree.OrderedBetween start stop trees) {tree other : SyntaxTree}
    (treeMem : tree ∈ trees) (otherMem : other ∈ trees) (sameLabel : tree.value = other.value) :
    tree = other ∨ tree.value.stop ≤ tree.value.start := by
  have apart := ordered.pairwise
  clear ordered
  induction apart with
  | nil => simp at treeMem
  | cons later _ ih =>
      rcases List.mem_cons.1 treeMem with rfl | treeLater <;>
        rcases List.mem_cons.1 otherMem with rfl | otherLater
      · exact .inl rfl
      · exact .inr (sameLabel ▸ later other otherLater)
      · exact .inr (sameLabel ▸ later tree treeLater)
      · exact ih treeLater otherLater

end CallHierarchy
