import ClojureRt.Runtime.Vector.Defs

/-!
# Tries on the heap

A subtrie is given by its address, the elements of its leaves in order and the
addresses of its nodes.  All leaves are full, and so are all children of a node
but the last.  What a subtrie holds stays as it is while none of its nodes is
changed and its root is kept alive.
-/

namespace ClojureRt
namespace Runtime
namespace Vector

open RefCount RefCount.Program
open Sharing (Address RTValue NodeType)

/-- A node by its address, with the elements and the nodes below it. -/
structure Subtrie where
  address : Address
  elements : List RTValue
  nodes : List Address

/-- The entry of a parent for a subtrie. -/
def Subtrie.pointer (trie : Subtrie) : RTValue :=
  .pointer trie.address

/-- How many elements fit below a node. -/
def capacity (height : Nat) : Nat :=
  32 ^ (height + 1)

/-- The children of a node: all but the last are full. -/
structure Packed (height : Nat) (parts : List Subtrie) : Prop where
  nonempty : parts ≠ []
  atMost : parts.length ≤ 32
  full : ∀ part ∈ parts.dropLast, part.elements.length = capacity height

/-- The node at the root of a subtrie, with what is below it. -/
structure InnerNode
    (heap : VectorHeap)
    (height : Nat)
    (trie : Subtrie)
    (transientID : Nat)
    (parts : List Subtrie) :
    Prop where
  found : heap.object? trie.address =
    some (.node ⟨.internalNode, transientID, parts.map Subtrie.pointer⟩)
  elements : trie.elements = parts.flatMap Subtrie.elements
  nodes : trie.nodes = trie.address :: parts.flatMap Subtrie.nodes
  packed : Packed height parts

/-- A leaf, which is full. -/
structure LeafNode (heap : VectorHeap) (trie : Subtrie) (transientID : Nat) :
    Prop where
  found : heap.object? trie.address =
    some (.node ⟨.leafNode, transientID, trie.elements⟩)
  nodes : trie.nodes = [trie.address]
  full : trie.elements.length = 32

/-- A subtrie of a height. -/
def Trie (heap : VectorHeap) : Nat → Subtrie → Prop
  | 0, trie => ∃ transientID, LeafNode heap trie transientID
  | height + 1, trie =>
      ∃ transientID parts, InnerNode heap height trie transientID parts ∧
        ∀ part ∈ parts, Trie heap height part

/-! ## Sizes -/

/-- An element fits below every node. -/
theorem capacity_pos (height : Nat) : 0 < capacity height := by
  unfold capacity
  positivity

/-- There are 32 children. -/
theorem capacity_succ (height : Nat) : capacity
    (height + 1) = 32 * capacity height := by
  unfold capacity
  ring

/-- How many elements are in full children. -/
theorem length_flatMap_full
    {height : Nat}
    {parts : List Subtrie}
    (full : ∀ part ∈ parts, part.elements.length = capacity height) :
    (parts.flatMap Subtrie.elements).length = capacity height *
    parts.length := by
  induction parts with
  | nil => simp
  | cons part parts inductionHypothesis =>
      have rest := inductionHypothesis fun other isOther =>
        full other (List.mem_cons_of_mem part isOther)
      rw [List.flatMap_cons, List.length_append, rest,
        full part List.mem_cons_self, List.length_cons]
      ring

/-- There is a last child, and the others are full. -/
theorem Packed.exists_last {height : Nat} {parts : List Subtrie}
    (packed : Packed height parts) :
    ∃ before last, parts = before ++ [last] ∧
      ∀ part ∈ before, part.elements.length = capacity height := by
  refine ⟨parts.dropLast, parts.getLast packed.nonempty,
    (List.dropLast_append_getLast packed.nonempty).symm, packed.full⟩

/-- A child after full ones. -/
theorem Packed.append
    {height : Nat}
    {before : List Subtrie}
    {last : Subtrie}
    (atMost : before.length < 32)
    (full : ∀ part ∈ before, part.elements.length = capacity height) :
    Packed height (before ++ [last]) where
  nonempty := by simp
  atMost := by
    rw [List.length_append, List.length_singleton]
    exact atMost
  full := by simpa using full

/-- There is an element, and no more than fit. -/
theorem Trie.length_bounds
    {heap : VectorHeap}
    {height : Nat}
    {trie : Subtrie}
    (isTrie : Trie heap height trie) :
    0 < trie.elements.length ∧ trie.elements.length ≤ capacity height := by
  induction height generalizing trie with
  | zero =>
      obtain ⟨transientID, leaf⟩ := isTrie
      rw [leaf.full]
      exact ⟨by decide, by decide⟩
  | succ height inductionHypothesis =>
      obtain ⟨transientID, parts, inner, children⟩ := isTrie
      obtain ⟨before, last, rfl, full⟩ := inner.packed.exists_last
      have lastBounds := inductionHypothesis (children last (by simp))
      have few := inner.packed.atMost
      rw [List.length_append, List.length_singleton] at few
      rw [inner.elements, List.flatMap_append, List.length_append,
        length_flatMap_full full, capacity_succ]
      simp only [List.flatMap_cons, List.flatMap_nil, List.append_nil]
      have product : capacity height * before.length ≤ capacity height * 31 :=
        Nat.mul_le_mul_left _ (by omega)
      omega

/-- A node with 32 children, the last of them full, is full. -/
theorem length_of_full
    {height : Nat}
    {trie : Subtrie}
    {before : List Subtrie}
    {last : Subtrie}
    (elements : trie.elements = (before ++ [last]).flatMap Subtrie.elements)
    (full : ∀ part ∈ before, part.elements.length = capacity height)
    (lastFull : last.elements.length = capacity height)
    (many : before.length = 31) :
    trie.elements.length = capacity (height + 1) := by
  rw [elements, List.flatMap_append, List.length_append,
    length_flatMap_full full, many, capacity_succ]
  simp only [List.flatMap_cons, List.flatMap_nil, List.append_nil, lastFull]
  omega

/-! ## Positions -/

/-- Shifting and masking are division and remainder. -/
theorem levelIndex_eq (index height : Nat) :
    levelIndex index height = index / 32 ^ height % 32 := by
  unfold levelIndex
  have mask : (31 : Nat) = 2 ^ 5 - 1 := rfl
  rw [mask, Nat.and_two_pow_sub_one_eq_mod, Nat.shiftRight_eq_div_pow,
    Nat.pow_mul]

/-- The child in which an element is found. -/
theorem exists_part
    {parts : List Subtrie}
    {position : Nat}
    (inside : position < (parts.flatMap Subtrie.elements).length) :
    ∃ before part after, parts = before ++ part :: after ∧
      (before.flatMap Subtrie.elements).length ≤ position ∧
      position < (before.flatMap Subtrie.elements).length +
        part.elements.length := by
  induction parts generalizing position with
  | nil => simp at inside
  | cons part parts inductionHypothesis =>
      rw [List.flatMap_cons, List.length_append] at inside
      by_cases isFirst : position < part.elements.length
      · exact ⟨[], part, parts, rfl, by simp, by simpa using isFirst⟩
      · have inRest : position - part.elements.length <
            (parts.flatMap Subtrie.elements).length := by
          omega
        obtain ⟨before, found, after, rfl, atLeast, below⟩ :=
          inductionHypothesis inRest
        refine ⟨part :: before, found, after, rfl, ?_, ?_⟩
        · rw [List.flatMap_cons, List.length_append]
          omega
        · rw [List.flatMap_cons, List.length_append]
          omega

/-- The child on the way to an index. -/
structure OnPath
    (height index : Nat)
    (before : List Subtrie)
    (part : Subtrie)
    (after : List Subtrie) :
    Prop where
  slot : before.length = levelIndex index (height + 1)
  inside : index % capacity height < part.elements.length
  position : index % capacity (height + 1) =
    (before.flatMap Subtrie.elements).length + index % capacity height

/-- The child on the way to an index. -/
theorem exists_onPath
    {heap : VectorHeap}
    {height index : Nat}
    {trie : Subtrie}
    {transientID : Nat}
    {parts : List Subtrie}
    (inner : InnerNode heap height trie transientID parts)
    (children : ∀ part ∈ parts, Trie heap height part)
    (inside : index % capacity (height + 1) < trie.elements.length) :
    ∃ before part after, parts = before ++ part :: after ∧
      OnPath height index before part after := by
  rw [inner.elements] at inside
  obtain ⟨before, part, after, rfl, atLeast, below⟩ := exists_part inside
  have full : ∀ other ∈ before, other.elements.length = capacity height := by
    intro other isOther
    apply inner.packed.full
    rw [List.dropLast_append_of_ne_nil (by simp)]
    exact List.mem_append_left _ isOther
  have bounds := (children part (by simp)).length_bounds
  have positive := capacity_pos height
  rw [length_flatMap_full full] at atLeast below
  -- the position is the number of full children before, and a rest
  have quotient : index % capacity (height + 1) / capacity height =
      before.length := by
    rw [Nat.div_eq_iff positive]
    rw [Nat.mul_comm] at atLeast below
    constructor
    · exact atLeast
    · omega
  have rest : index % capacity (height + 1) % capacity height =
      index % capacity height := by
    rw [capacity_succ, Nat.mod_mul_left_mod]
  have split :=
    Nat.div_add_mod (index % capacity (height + 1)) (capacity height)
  rw [quotient, rest] at split
  refine ⟨before, part, after, rfl, ?_,
    by omega, by rw [length_flatMap_full full]; omega⟩
  rw [levelIndex_eq, ← quotient, capacity_succ, Nat.mul_comm,
    Nat.mod_mul_right_div_self]
  rfl

/-! ## Keeping a subtrie as it is -/

/-- A node is on the heap. -/
theorem Trie.exists_object
    {heap : VectorHeap}
    {height : Nat}
    {trie : Subtrie}
    (isTrie : Trie heap height trie) :
    ∃ node, heap.object? trie.address = some (.node node) := by
  cases height with
  | zero =>
      obtain ⟨transientID, leaf⟩ := isTrie
      exact ⟨_, leaf.found⟩
  | succ height =>
      obtain ⟨transientID, parts, inner, _⟩ := isTrie
      exact ⟨_, inner.found⟩

/-- The root is one of the nodes. -/
theorem Trie.address_mem_nodes
    {heap : VectorHeap}
    {height : Nat}
    {trie : Subtrie}
    (isTrie : Trie heap height trie) :
    trie.address ∈ trie.nodes := by
  cases height with
  | zero =>
      obtain ⟨transientID, leaf⟩ := isTrie
      simp [leaf.nodes]
  | succ height =>
      obtain ⟨transientID, parts, inner, _⟩ := isTrie
      simp [inner.nodes]

/-- The nodes have addresses that were used. -/
theorem Trie.nodes_lt
    {heap : VectorHeap}
    {height : Nat}
    {trie : Subtrie}
    (isTrie : Trie heap height trie) :
    ∀ address ∈ trie.nodes, address < heap.next := by
  induction height generalizing trie with
  | zero =>
      obtain ⟨transientID, leaf⟩ := isTrie
      intro address isNode
      rw [leaf.nodes, List.mem_singleton] at isNode
      rw [isNode]
      exact Heap.lt_next_of_object leaf.found
  | succ height inductionHypothesis =>
      obtain ⟨transientID, parts, inner, children⟩ := isTrie
      intro address isNode
      rw [inner.nodes, List.mem_cons, List.mem_flatMap] at isNode
      obtain rfl | ⟨part, isPart, isNode⟩ := isNode
      · exact Heap.lt_next_of_object inner.found
      · exact inductionHypothesis (children part isPart) address isNode

/-- The references of a node are those of its children. -/
theorem pointer_mem_references
    {transientID : Nat}
    {parts : List Subtrie}
    {part : Subtrie}
    (isPart : part ∈ parts) :
    part.address ∈ Referencing.references
      (Object.node ⟨.internalNode, transientID,
        parts.map Subtrie.pointer⟩) := by
  refine List.mem_flatMap.mpr ⟨part.pointer, List.mem_map_of_mem isPart, ?_⟩
  simp [Subtrie.pointer, addresses]

/-- What an object refers to has a reference from its address. -/
theorem mem_referencesAt
    {heap : VectorHeap}
    {source target : Address}
    {object : Object}
    (found : heap.object? source = some object)
    (refers : target ∈ Referencing.references object) :
    target ∈ heap.referencesAt source := by
  obtain ⟨cell, isCell, rfl⟩ := Option.map_eq_some_iff.mp found
  rwa [Heap.referencesAt, isCell]

/-- A subtrie stays as it is where none of its nodes is changed and its root is
still there. -/
theorem Trie.frame
    {heap after : VectorHeap}
    {change : Address → Int}
    {changed : Address → Prop}
    (effect : Effect heap after change changed)
    (nonneg : ∀ address, 0 ≤ after.excess address)
    {height : Nat}
    {trie : Subtrie}
    (isTrie : Trie heap height trie)
    (apart : ∀ address ∈ trie.nodes, ¬ changed address)
    (present : ∃ object, after.object? trie.address = some object) :
    Trie after height trie := by
  induction height generalizing trie with
  | zero =>
      obtain ⟨transientID, leaf⟩ := isTrie
      obtain ⟨object, isObject⟩ := present
      have unchanged := apart trie.address (by simp [leaf.nodes])
      rw [effect.object_eq leaf.found unchanged isObject] at isObject
      exact ⟨transientID, { leaf with found := isObject }⟩
  | succ height inductionHypothesis =>
      obtain ⟨transientID, parts, inner, children⟩ := isTrie
      obtain ⟨object, isObject⟩ := present
      have unchanged := apart trie.address (by simp [inner.nodes])
      rw [effect.object_eq inner.found unchanged isObject] at isObject
      refine ⟨transientID, parts, { inner with found := isObject }, ?_⟩
      intro part isPart
      apply inductionHypothesis (children part isPart)
      · intro address isNode
        apply apart address
        rw [inner.nodes]
        exact List.mem_cons_of_mem _
          (List.mem_flatMap.mpr ⟨part, isPart, isNode⟩)
      · exact Heap.object_of_reference nonneg isObject
          (pointer_mem_references isPart)

/-- A subtrie whose nodes are all as before is as before. -/
theorem Trie.of_objects
    {heap after : VectorHeap}
    {height : Nat}
    {trie : Subtrie}
    (isTrie : Trie heap height trie)
    (same : ∀ address ∈ trie.nodes,
      after.object? address = heap.object? address) :
    Trie after height trie := by
  induction height generalizing trie with
  | zero =>
      obtain ⟨transientID, leaf⟩ := isTrie
      have found := leaf.found
      rw [← same trie.address (by simp [leaf.nodes])] at found
      exact ⟨transientID, { leaf with found := found }⟩
  | succ height inductionHypothesis =>
      obtain ⟨transientID, parts, inner, children⟩ := isTrie
      have found := inner.found
      rw [← same trie.address (by simp [inner.nodes])] at found
      refine ⟨transientID, parts, { inner with found := found }, ?_⟩
      intro part isPart
      apply inductionHypothesis (children part isPart)
      intro address isNode
      apply same address
      rw [inner.nodes]
      exact List.mem_cons_of_mem _ (List.mem_flatMap.mpr ⟨part, isPart, isNode⟩)

/-- A node is the root of a subtrie where its children are subtries from before
that did not change, or were built on the way. -/
theorem children_of_found
    {heap mid final : VectorHeap}
    {height transientID : Nat}
    {self : Address}
    {parts : List Subtrie}
    {change : Address → Int}
    {changed : Address → Prop}
    (effect : Effect heap final change changed)
    (nonneg : ∀ address, 0 ≤ final.excess address)
    (found : final.object? self =
      some (.node ⟨.internalNode, transientID, parts.map Subtrie.pointer⟩))
    (each : ∀ child ∈ parts,
      (Trie heap height child ∧ ∀ address ∈ child.nodes, ¬ changed address) ∨
        (Trie mid height child ∧
          ∀ address ∈ child.nodes,
            final.object? address = mid.object? address)) :
    ∀ child ∈ parts, Trie final height child := by
  intro child isChild
  have present :=
    Heap.object_of_reference nonneg found (pointer_mem_references isChild)
  cases each child isChild with
  | inl old => exact old.1.frame effect nonneg old.2 present
  | inr new => exact new.1.of_objects new.2

/-! ## One child replaced by another -/

section Replacing

variable {before after : List Subtrie} {part new : Subtrie}

/-- The new nodes are nodes of the child that was replaced, or no nodes of any
child. -/
theorem nodup_replace
    (nodup : ((before ++ part :: after).flatMap Subtrie.nodes).Nodup)
    (newNodup : new.nodes.Nodup)
    (newNodes : ∀ address ∈ new.nodes, address ∈ part.nodes ∨
      address ∉ (before ++ part :: after).flatMap Subtrie.nodes) :
    ((before ++ new :: after).flatMap Subtrie.nodes).Nodup := by
  rw [List.flatMap_append, List.flatMap_cons] at nodup newNodes ⊢
  rw [List.nodup_append, List.nodup_append] at nodup ⊢
  obtain ⟨beforeNodup, ⟨_, afterNodup, partAfter⟩, beforeRest⟩ := nodup
  have distinct : ∀ other ∈ before.flatMap Subtrie.nodes ++
      after.flatMap Subtrie.nodes,
      (∀ address ∈ part.nodes, address ≠ other) → ∀ address ∈ new.nodes,
      address ≠ other := by
    intro other isOther apart address isNew
    cases newNodes address isNew with
    | inl isPart => exact apart address isPart
    | inr outside =>
        rintro rfl
        apply outside
        rw [List.mem_append] at isOther
        rw [List.mem_append, List.mem_append]
        exact isOther.imp_right .inr
  refine ⟨beforeNodup, ⟨newNodup, afterNodup, ?_⟩, ?_⟩
  · intro address isNew other isOther
    apply distinct other (List.mem_append_right _ isOther) _ address isNew
    exact fun inPart isPart => partAfter inPart isPart other isOther
  · intro other isOther address isIn
    rw [List.mem_append] at isIn
    cases isIn with
    | inl isNew =>
        apply Ne.symm
        apply distinct other (List.mem_append_left _ isOther) _ address isNew
        exact fun inPart isPart =>
          (beforeRest other isOther inPart (List.mem_append_left _ isPart)).symm
    | inr isAfter =>
        exact beforeRest other isOther address (List.mem_append_right _ isAfter)

/-- Another child brings in no nodes but its own. -/
theorem mem_nodes_replace :
    ∀ address ∈ (before ++ new :: after).flatMap Subtrie.nodes,
      address ∈ (before ++ part :: after).flatMap Subtrie.nodes ∨
        address ∈ new.nodes := by
  intro address isIn
  simp only [List.flatMap_append, List.flatMap_cons, List.mem_append] at isIn ⊢
  obtain isBefore | isNew | isAfter := isIn
  · exact .inl (.inl isBefore)
  · exact .inr isNew
  · exact .inl (.inr (.inr isAfter))

/-- The last node of a subtrie is that of its last child. -/
theorem getLast?_nodes
    (self : Address)
    (before : List Subtrie)
    {last : Subtrie}
    {address : Address}
    (isLast : last.nodes.getLast? = some address) :
    (self :: (before ++ [last]).flatMap Subtrie.nodes).getLast? =
    some address := by
  rw [List.getLast?_cons, List.flatMap_append, List.flatMap_cons,
    List.flatMap_nil, List.append_nil, List.getLast?_append, isLast]
  rfl

/-- The nodes of the other children are not those of this one. -/
theorem apart_of_nodup
    (nodup : ((before ++ part :: after).flatMap Subtrie.nodes).Nodup)
    {other : Subtrie}
    (isOther : other ∈ before ∨ other ∈ after) :
    ∀ address ∈ other.nodes, address ∉ part.nodes := by
  intro address isNode isPart
  rw [List.flatMap_append, List.flatMap_cons, List.nodup_append,
    List.nodup_append] at nodup
  obtain ⟨_, ⟨_, _, partAfter⟩, beforeRest⟩ := nodup
  cases isOther with
  | inl isBefore =>
      exact beforeRest address
        (List.mem_flatMap.mpr ⟨other, isBefore, isNode⟩) address
        (List.mem_append_left _ isPart) rfl
  | inr isAfter =>
      exact partAfter address isPart address
        (List.mem_flatMap.mpr ⟨other, isAfter, isNode⟩) rfl

end Replacing

/-! ## A child of a node -/

namespace InnerNode

variable
  {heap : VectorHeap}
  {height transientID : Nat}
  {trie part : Subtrie}
  {before after : List Subtrie}
  (inner : InnerNode heap height trie transientID (before ++ part :: after))

include inner

/-- The nodes of a child are nodes of the trie. -/
theorem mem_nodes : ∀ address ∈ part.nodes, address ∈ trie.nodes := by
  intro address isPart
  rw [inner.nodes]
  exact List.mem_cons_of_mem _ (List.mem_flatMap.mpr ⟨part, by simp, isPart⟩)

/-- No node is below two children. -/
theorem parts_nodup (nodup : trie.nodes.Nodup) :
    ((before ++ part :: after).flatMap Subtrie.nodes).Nodup := by
  rw [inner.nodes, List.nodup_cons] at nodup
  exact nodup.2

/-- The root is not below itself. -/
theorem address_notMem (nodup : trie.nodes.Nodup) :
    trie.address ∉ (before ++ part :: after).flatMap Subtrie.nodes := by
  rw [inner.nodes, List.nodup_cons] at nodup
  exact nodup.1

/-- The root is not below a child. -/
theorem address_notMem_part (nodup : trie.nodes.Nodup) :
    trie.address ∉ part.nodes := by
  intro isPart
  exact inner.address_notMem nodup
    (List.mem_flatMap.mpr ⟨part, by simp, isPart⟩)

/-- No node is there twice below a child. -/
theorem part_nodup (nodup : trie.nodes.Nodup) : part.nodes.Nodup := by
  have all := inner.parts_nodup nodup
  rw [List.flatMap_append, List.flatMap_cons, List.nodup_append,
    List.nodup_append] at all
  exact all.2.1.1

/-- Who keeps a node alive keeps its children alive. -/
theorem pinned
    {held : Address → Int}
    (nodup : trie.nodes.Nodup)
    (selfPinned : Pinned heap held (· ∈ trie.nodes) trie.address) :
    Pinned heap held (· ∈ part.nodes) part.address := by
  have weaker : Pinned heap held (· ∈ part.nodes) trie.address :=
    selfPinned.weaken (fun _ positive => positive) inner.mem_nodes
  exact .referred _ _ _ weaker (inner.address_notMem_part nodup) inner.found
    (pointer_mem_references (by simp))

end InnerNode

/-! ## What a list looks like around a position -/

section Around

variable {α : Type} {before after : List α} {old : α} {slot : Nat}

/-- The child at a slot. -/
theorem getElem?_around (isSlot : before.length = slot) :
    (before ++ old :: after)[slot]? = some old := by
  subst isSlot
  simp

end Around

end Vector
end Runtime
end ClojureRt
