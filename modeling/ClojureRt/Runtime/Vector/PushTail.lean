import ClojureRt.Runtime.Vector.Rules

/-!
# Pushing a tail into a trie

`pushTail` appends a full leaf to a subtrie.  Where the subtrie has no room it
gives a node beside it, or at the root a node above both.  A node is changed in
place only where the leaf was pushed below it.
-/

namespace ClojureRt
namespace Runtime
namespace Vector

open RefCount RefCount.Program
open Sharing (Address RTValue NodeType)

section Objects

variable (objects : Address → Option Object)

/-- The last child of the node at an address. -/
def lastChild (self : Address) : Option Address :=
  match objects self with
  | some (.node node) =>
      match node.array.getLast? with
      | some (.pointer child) => some child
      | _ => none
  | _ => none

/-- The node at an address has fewer than 32 entries. -/
def nodeHasRoom (self : Address) : Bool :=
  match objects self with
  | some (.node node) => node.array.length < 32
  | _ => false

/-- A leaf can be pushed below a node at a height. -/
def hasRoom : Nat → Address → Bool
  | 0, _ => false
  | 1, self => nodeHasRoom objects self
  | height + 2, self =>
      (match lastChild objects self with
        | some child => hasRoom (height + 1) child
        | none => false) || nodeHasRoom objects self

end Objects

/-! ## One child replaced -/

/-- A node around a child that was replaced. -/
def Subtrie.around (self : Address) (before after : List Subtrie)
    (new : Subtrie) : Subtrie where
  address := self
  elements := (before ++ new :: after).flatMap Subtrie.elements
  nodes := self :: (before ++ new :: after).flatMap Subtrie.nodes

/-- The children of a node that is there after an effect. -/
theorem children_around
    {heap mid final : VectorHeap}
    {height transientID : Nat}
    {part : Subtrie}
    {before after : List Subtrie}
    {self : Address}
    {new : Subtrie}
    {change : Address → Int}
    {changed : Address → Prop}
    (children : ∀ child ∈ before ++ part :: after, Trie heap height child)
    (nodup : ((before ++ part :: after).flatMap Subtrie.nodes).Nodup)
    (effect : Effect heap final change changed)
    (nonneg : ∀ address, 0 ≤ final.excess address)
    (found : final.object? self =
      some (.node ⟨.internalNode, transientID,
        (before ++ new :: after).map Subtrie.pointer⟩))
    (apart : ∀ address ∈ (before ++ part :: after).flatMap Subtrie.nodes,
      changed address → address ∈ part.nodes)
    (isNew : Trie mid height new)
    (same : ∀ address ∈ new.nodes,
      final.object? address = mid.object? address) :
    ∀ child ∈ before ++ new :: after, Trie final height child := by
  apply children_of_found effect nonneg found
  intro child isChild
  rw [List.mem_append, List.mem_cons] at isChild
  have sibling : child ∈ before ∨ child ∈ after →
      Trie heap height child ∧ ∀ address ∈ child.nodes, ¬ changed address := by
    intro isSibling
    have isMember : child ∈ before ++ part :: after := by
      rw [List.mem_append, List.mem_cons]
      exact isSibling.imp_right .inr
    refine ⟨children child isMember, ?_⟩
    intro address isNode isChanged
    apply apart_of_nodup nodup isSibling address isNode
    exact apart address (List.mem_flatMap.mpr ⟨child, isMember, isNode⟩)
      isChanged
  obtain isBefore | rfl | isAfter := isChild
  · exact .inl (sibling (.inl isBefore))
  · exact .inr ⟨isNew, same⟩
  · exact .inl (sibling (.inr isAfter))

/-! ## What a push gives -/

/-- What `pushTail` gives. -/
structure Pushed
    (heap after : VectorHeap)
    (height : Nat)
    (isRoot : Bool)
    (trie tail new : Subtrie)
    (copied : Bool)
    (changed : Address → Prop) :
    Prop where
  isTrie : Trie after (if copied || !isRoot then height else height + 1) new
  elements : new.elements = (if copied || isRoot then trie.elements else []) ++
    tail.elements
  full : copied = false → trie.elements.length = capacity height
  nodup : new.nodes.Nodup
  nodes : ∀ address ∈ new.nodes, address ∈ trie.nodes ∨ address ∈ tail.nodes ∨
    heap.next ≤ address
  ends : new.nodes.getLast? = some tail.address
  apart : copied = false → isRoot = false → ∀ address ∈ new.nodes,
    address ∉ trie.nodes
  effect : Effect heap after
    (own new.address - own trie.address - own tail.address) changed
  changed_nodes : ∀ address, changed address → address ∈ trie.nodes
  unchanged : copied = false → ∀ address, ¬ changed address

/-- What was pushed below a node: a replacement for its last child, or a new
child. -/
structure PushedBelow
    (heap mid : VectorHeap)
    (height : Nat)
    (last tail below : Subtrie)
    (copied : Bool)
    (changed : Address → Prop) :
    Prop where
  isTrie : Trie mid height below
  elements : below.elements = (if copied then last.elements else []) ++
    tail.elements
  full : copied = false → last.elements.length = capacity height
  nodup : below.nodes.Nodup
  nodes : ∀ address ∈ below.nodes, (copied = true ∧ address ∈ last.nodes) ∨
    address ∈ tail.nodes ∨ heap.next ≤ address
  ends : below.nodes.getLast? = some tail.address
  effect : Effect heap mid (own below.address - own tail.address) changed
  changed_nodes : ∀ address, changed address → address ∈ last.nodes
  unchanged : copied = false → ∀ address, ¬ changed address

/-- A leaf was pushed below the last child of a node whose caller owns it and
the leaf. -/
structure Attaching
    (heap mid : VectorHeap)
    (height transientID : Nat)
    (trie last tail below : Subtrie)
    (before : List Subtrie)
    (held : Address → Int)
    (copied : Bool)
    (changed : Address → Prop) :
    Prop where
  inner : InnerNode heap height trie transientID (before ++ [last])
  children : ∀ child ∈ before ++ [last], Trie heap height child
  nodup : trie.nodes.Nodup
  tailNodes : ∀ address ∈ tail.nodes, address ∉ trie.nodes ∧ address < heap.next
  nonneg : ∀ address, 0 ≤ held address
  owned : Owned heap (held + own trie.address + own tail.address)
  pushed : PushedBelow heap mid height last tail below copied changed

namespace Attaching

variable
  {heap mid : VectorHeap}
  {height transientID : Nat}
  {trie last tail below : Subtrie}
  {before : List Subtrie}
  {held : Address → Int}
  {copied : Bool}
  {changed : Address → Prop}
  (context :
    Attaching heap mid height transientID trie last tail below before held
      copied changed)

include context

/-- The caller owns the node and the leaf. -/
theorem excess_le (address : Address) :
    own trie.address address + own tail.address address ≤
      heap.excess address := by
  have atAddress := context.owned.le_excess address
  have := context.nonneg address
  simp only [Pi.add_apply] at atAddress
  omega

/-- The children before the last one are full. -/
theorem full_before : ∀ part ∈ before,
    part.elements.length = capacity height := by
  have full := context.inner.packed.full
  rwa [List.dropLast_concat] at full

/-- There is room for the last child. -/
theorem length_lt : before.length < 32 := by
  have atMost := context.inner.packed.atMost
  rw [List.length_append, List.length_singleton] at atMost
  exact atMost

/-- The node is there as it was when the leaf has been pushed below it. -/
theorem found :
    mid.object? trie.address = some (.node
      ⟨.internalNode, transientID,
        (before ++ [last]).map Subtrie.pointer⟩) := by
  have positive : 0 < mid.excess trie.address := by
    have := context.excess_le trie.address
    have := own_nonneg below.address trie.address
    rw [context.pushed.effect.excess]
    simp only [Pi.sub_apply, own_self] at *
    omega
  obtain ⟨object, isObject⟩ := Heap.object_of_owned positive
  have unchanged : ¬ changed trie.address := by
    intro isChanged
    exact context.inner.address_notMem_part context.nodup
      (context.pushed.changed_nodes _ isChanged)
  rwa [context.pushed.effect.object_eq context.inner.found unchanged
    isObject] at isObject

/-- Other than nodes of the last child, nothing that was pushed was in the
trie. -/
theorem nodes_apart :
    ∀ address ∈ below.nodes, (copied = true ∧ address ∈ last.nodes) ∨
      address ∉ trie.nodes := by
  intro address isBelow
  obtain isLast | isTail | fresh := context.pushed.nodes address isBelow
  · exact .inl isLast
  · exact .inr (context.tailNodes address isTail).1
  · right
    intro isNode
    have isTrie : Trie heap (height + 1) trie :=
      ⟨transientID, _, context.inner, context.children⟩
    exact absurd (isTrie.nodes_lt address isNode) (Nat.not_lt.mpr fresh)

/-- The nodes of the children are nodes of the trie. -/
theorem mem_nodes {address : Address}
    (isNode : address ∈ (before ++ [last]).flatMap Subtrie.nodes) :
    address ∈ trie.nodes := by
  rw [context.inner.nodes]
  exact List.mem_cons_of_mem _ isNode

/-- The root is one of the nodes. -/
theorem address_mem_nodes : trie.address ∈ trie.nodes := by
  rw [context.inner.nodes]
  exact List.mem_cons_self

/-- The node is not below what was pushed. -/
theorem address_notMem : trie.address ∉ below.nodes := by
  intro isBelow
  cases context.nodes_apart _ isBelow with
  | inl isLast => exact context.inner.address_notMem_part context.nodup isLast.2
  | inr outside => exact outside context.address_mem_nodes

/-- The children with the last one replaced have different nodes. -/
theorem nodup_replaced : ((before ++ [below]).flatMap Subtrie.nodes).Nodup := by
  apply nodup_replace (context.inner.parts_nodup context.nodup)
    context.pushed.nodup
  intro address isBelow
  refine (context.nodes_apart address isBelow).imp And.right
    fun outside isOld => ?_
  exact outside (context.mem_nodes isOld)

/-- With another last child there are nodes of the trie, the leaf and new
ones. -/
theorem mem_nodes_of_replaced {address : Address}
    (isIn : address ∈ (before ++ [below]).flatMap Subtrie.nodes) :
    address ∈ trie.nodes ∨ address ∈ tail.nodes ∨ heap.next ≤ address := by
  cases mem_nodes_replace address isIn with
  | inl isOld => exact .inl (context.mem_nodes isOld)
  | inr isBelow =>
      obtain isLast | rest := context.pushed.nodes address isBelow
      · exact .inl (context.inner.mem_nodes address isLast.2)
      · exact .inr rest

/-- With another last child the leaf has the last elements. -/
theorem elements_replaced (isCopied : copied = true) :
    (before ++ [below]).flatMap Subtrie.elements = trie.elements ++
    tail.elements := by
  rw [context.inner.elements]
  simp [context.pushed.elements, isCopied]

/-- The node is changed in place. -/
theorem reused
    (isCopied : copied = true)
    (isRoot : Bool)
    (vectorTransientID : Nat) :
    Runs (attachSubtree isRoot trie.address
        ⟨.internalNode, transientID, (before ++ [last]).map Subtrie.pointer⟩
        true
        vectorTransientID (below.address, true)) mid
      fun result final => ∃ new, new.address = result.1 ∧ result.2 = true ∧
        Pushed heap final (height + 1) isRoot trie tail new true
          (fun address => changed address ∨ address = trie.address) := by
  have found := context.found
  unfold attachSubtree
  simp only [List.map_append, List.map_cons, List.map_nil, List.dropLast_concat,
    List.getLast?_concat, if_true] at found ⊢
  apply Runs.bind
  apply runs_unboxPtr rfl
  apply Runs.bind
  apply runs_storeNode context.pushed.effect found
  intro stored isStored others storedEffect
  apply Runs.bind
  apply Runs.release storedEffect
  · intro address
    have := context.excess_le address
    have := own_nonneg trie.address address
    simp only [Subtrie.pointer, refsAll_append, refsAll_cons, refsAll_nil,
      refs_pointer, Pi.add_apply, Pi.sub_apply, Pi.zero_apply]
    omega
  intro final kept released finalEffect
  apply Runs.pure
  have effect :
      Effect heap final (own trie.address - own trie.address - own tail.address)
      (fun address => changed address ∨ address = trie.address) := by
    apply finalEffect.weaken
    · funext address
      simp only [Subtrie.pointer, refsAll_append, refsAll_cons, refsAll_nil,
        refs_pointer, Pi.add_apply, Pi.sub_apply, Pi.zero_apply]
      ring
    · exact fun _ _ isChanged => isChanged
  have storedNonneg : ∀ address, 0 ≤ stored.excess address := by
    intro address
    have := context.excess_le address
    have := own_nonneg trie.address address
    have := own_nonneg last.address address
    rw [storedEffect.excess]
    simp only [Subtrie.pointer, refsAll_append, refsAll_cons, refsAll_nil,
      refs_pointer, Pi.add_apply, Pi.sub_apply, Pi.zero_apply]
    omega
  have finalExcess : ∀ address,
      own trie.address address ≤ final.excess address := by
    intro address
    have := context.excess_le address
    rw [effect.excess]
    simp only [Pi.sub_apply]
    omega
  have isStoredTrie :
      Trie stored (height + 1)
      (Subtrie.around trie.address before [] below) := by
    have isStoredMap : stored.object? trie.address = some (.node
        ⟨.internalNode, transientID,
          (before ++ [below]).map Subtrie.pointer⟩) := by
      simpa [Subtrie.pointer] using isStored
    refine ⟨transientID, before ++ [below],
      ⟨isStoredMap, rfl, rfl,
        Packed.append context.length_lt context.full_before⟩, ?_⟩
    apply children_around context.children
      (context.inner.parts_nodup context.nodup) storedEffect
      storedNonneg isStoredMap _ context.pushed.isTrie
    · intro address isBelow
      exact others address fun same => context.address_notMem (same ▸ isBelow)
    · intro address isNode either
      cases either with
      | inl isChanged => exact context.pushed.changed_nodes address isChanged
      | inr same =>
          exact absurd (same ▸ isNode)
            (context.inner.address_notMem context.nodup)
  have alive : 0 < final.excess trie.address := by
    have atSelf := finalExcess trie.address
    rw [own_self] at atSelf
    omega
  refine ⟨Subtrie.around trie.address before [] below, rfl, rfl, ?_⟩
  exact {
    isTrie := by
      simp only [Bool.true_or, if_true]
      apply isStoredTrie.frame released
      · exact fun address => (own_nonneg _ _).trans (finalExcess address)
      · exact fun _ _ never => never
      · exact Heap.object_of_owned alive
    elements := context.elements_replaced isCopied
    full := fun never => by cases never
    nodup := by
      rw [Subtrie.around, List.nodup_cons]
      refine ⟨?_, context.nodup_replaced⟩
      intro isIn
      cases mem_nodes_replace _ isIn with
      | inl isOld => exact context.inner.address_notMem context.nodup isOld
      | inr isBelow => exact context.address_notMem isBelow
    nodes := by
      intro address isNode
      rw [Subtrie.around, List.mem_cons] at isNode
      obtain rfl | isIn := isNode
      · exact .inl context.address_mem_nodes
      · exact context.mem_nodes_of_replaced isIn
    ends := getLast?_nodes _ _ context.pushed.ends
    apart := fun never => by cases never
    effect := effect
    changed_nodes := by
      rintro address (isChanged | rfl)
      · exact context.inner.mem_nodes address
          (context.pushed.changed_nodes address isChanged)
      · exact context.address_mem_nodes
    unchanged := fun never => by cases never }

/-- A new node in place of the old one, which is given up. -/
theorem allocated
    {first : VectorHeap}
    {change : Address → Int}
    (sameFirst : first.object? = mid.object?)
    (firstEffect : Effect heap first change fun _ => False)
    {parts : List Subtrie}
    (packed : Packed height parts)
    (each : ∀ child ∈ parts, child ∈ before ++ [last] ∨ child = below)
    (partsNodup : (parts.flatMap Subtrie.nodes).Nodup)
    (balance : change - refsAll (parts.map Subtrie.pointer) = -own tail.address)
    (newID : Nat)
    (isCopied : Bool) :
    Runs (do
        let new ← allocate
          (.node ⟨.internalNode, newID, parts.map Subtrie.pointer⟩)
        release trie.address
        pure (new, isCopied)) first
      fun result final => ∃ new : Subtrie, new.address = result.1 ∧
        result.2 = isCopied ∧
        Trie final (height + 1) new ∧
          new.elements = parts.flatMap Subtrie.elements ∧
        new.nodes = new.address :: parts.flatMap Subtrie.nodes ∧
          new.nodes.Nodup ∧
        heap.next ≤ new.address ∧
        Effect heap final
          (own new.address - own trie.address - own tail.address)
          fun _ => False := by
  have balanceAt : ∀ address,
    change address - refsAll (parts.map Subtrie.pointer) address =
      -own tail.address address := congrFun balance
  have belowFirst : Trie first height below :=
    context.pushed.isTrie.of_objects fun address _ => congrFun sameFirst address
  have fresh : heap.next ≤ first.next := firstEffect.next_le
  have nodesBelow : ∀ address ∈ parts.flatMap Subtrie.nodes,
      address < first.next := by
    intro address isNode
    obtain ⟨child, isChild, isNode⟩ := List.mem_flatMap.mp isNode
    cases each child isChild with
    | inl isOld =>
        exact Nat.lt_of_lt_of_le
          ((context.children child isOld).nodes_lt address isNode) fresh
    | inr isBelow =>
        rw [isBelow] at isNode
        exact belowFirst.nodes_lt address isNode
  apply Runs.bind
  apply runs_allocateNode firstEffect
  intro stored isStored others storedEffect
  apply Runs.bind
  apply Runs.release storedEffect
  · intro address
    have := context.excess_le address
    have := balanceAt address
    have := own_nonneg first.next address
    simp only [Pi.add_apply, Pi.sub_apply]
    omega
  intro final kept released finalEffect
  apply Runs.pure
  have effect :
      Effect heap final (own first.next - own trie.address - own tail.address)
      fun _ => False := by
    apply finalEffect.weaken
    · funext address
      have := balanceAt address
      simp only [Pi.add_apply, Pi.sub_apply]
      omega
    · exact fun _ _ never => never
  have storedNonneg : ∀ address, 0 ≤ stored.excess address := by
    intro address
    have := context.excess_le address
    have := balanceAt address
    have := own_nonneg first.next address
    have := own_nonneg trie.address address
    rw [storedEffect.excess]
    simp only [Pi.add_apply, Pi.sub_apply]
    omega
  have finalExcess : ∀ address,
      own first.next address ≤ final.excess address := by
    intro address
    have := context.excess_le address
    rw [effect.excess]
    simp only [Pi.sub_apply]
    omega
  let new : Subtrie :=
    ⟨first.next, parts.flatMap Subtrie.elements,
      first.next :: parts.flatMap Subtrie.nodes⟩
  have isStoredTrie : Trie stored (height + 1) new := by
    refine ⟨newID, parts, ⟨isStored, rfl, rfl, packed⟩, ?_⟩
    apply children_of_found storedEffect storedNonneg isStored
    intro child isChild
    cases each child isChild with
    | inl isOld =>
        exact .inl ⟨context.children child isOld, fun _ _ never => never⟩
    | inr isBelow =>
        right
        rw [isBelow]
        refine ⟨belowFirst, fun address isNode => others address ?_⟩
        exact Nat.ne_of_lt (belowFirst.nodes_lt address isNode)
  have alive : 0 < final.excess first.next := by
    have atNew := finalExcess first.next
    rw [own_self] at atNew
    omega
  refine ⟨new, rfl, rfl, ?_, rfl, rfl, ?_, fresh, effect⟩
  · apply isStoredTrie.frame released
    · exact fun address => (own_nonneg _ _).trans (finalExcess address)
    · exact fun _ _ never => never
    · exact Heap.object_of_owned alive
  · rw [List.nodup_cons]
    exact ⟨fun isIn => absurd (nodesBelow _ isIn) (Nat.lt_irrefl _), partsNodup⟩

/-- The effect of pushing below where nothing is changed in place. -/
theorem effect_unchanged (unchanged : ∀ address, ¬ changed address) :
    Effect heap mid (own below.address - own tail.address) fun _ => False := by
  apply context.pushed.effect.weaken rfl
  exact fun address _ isChanged => unchanged address isChanged

/-- No count is below what the heap refers to. -/
theorem mid_nonneg : ∀ address, 0 ≤ mid.excess address := by
  intro address
  have := context.excess_le address
  have := own_nonneg below.address address
  have := own_nonneg trie.address address
  rw [context.pushed.effect.excess]
  simp only [Pi.sub_apply]
  omega

/-- The node is copied with its last child replaced. -/
theorem copied_node
    (isCopied : copied = true)
    (unchanged : ∀ address, ¬ changed address)
    (isRoot : Bool)
    (vectorTransientID : Nat) :
    Runs (attachSubtree isRoot trie.address
        ⟨.internalNode, transientID, (before ++ [last]).map Subtrie.pointer⟩
        false
        vectorTransientID (below.address, true)) mid
      fun result final => ∃ new, new.address = result.1 ∧ result.2 = true ∧
        Pushed heap final (height + 1) isRoot trie tail new true fun _ =>
          False := by
  have found := context.found
  unfold attachSubtree
  simp only [List.map_append, List.map_cons, List.map_nil, List.dropLast_concat,
    if_true, Bool.false_eq_true, if_false] at found ⊢
  apply Runs.bind
  apply runs_retainValues (context.effect_unchanged unchanged)
  · exact present_of_node context.mid_nonneg found (List.subset_append_left _ _)
  intro first sameFirst firstEffect
  have each : ∀ child ∈ before ++ [below], child ∈ before ++ [last] ∨
      child = below := by
    intro child isChild
    rw [List.mem_append, List.mem_singleton] at isChild
    exact isChild.imp_left (List.mem_append_left _)
  have allocates := context.allocated sameFirst firstEffect
    (Packed.append context.length_lt context.full_before) each
    context.nodup_replaced
    (by
      funext address
      simp only [List.map_append, List.map_cons, List.map_nil, Subtrie.pointer,
        refsAll_append, refsAll_cons, refsAll_nil, refs_pointer, Pi.add_apply,
        Pi.sub_apply, Pi.neg_apply, Pi.zero_apply]
      ring)
    transientID true
  rw [List.map_append] at allocates
  apply allocates.mono
  rintro result final ⟨new, isNew, isTrue, isTrie, elements, nodes, newNodup,
    fresh, effect⟩
  refine ⟨new, isNew, isTrue, ?_⟩
  exact {
    isTrie := isTrie
    elements := elements.trans (context.elements_replaced isCopied)
    full := fun never => by cases never
    nodup := newNodup
    nodes := by
      intro address isNode
      rw [nodes, List.mem_cons] at isNode
      obtain rfl | isIn := isNode
      · exact .inr (.inr fresh)
      · exact context.mem_nodes_of_replaced isIn
    ends := by
      rw [nodes]
      exact getLast?_nodes _ _ context.pushed.ends
    apart := fun never => by cases never
    effect := effect
    changed_nodes := fun _ never => never.elim
    unchanged := fun _ _ never => never }

/-- Where a new child came back, all children are full. -/
theorem full_all (notCopied : copied = false) :
    ∀ part ∈ before ++ [last], part.elements.length = capacity height := by
  intro part isPart
  rw [List.mem_append, List.mem_singleton] at isPart
  obtain isBefore | rfl := isPart
  · exact context.full_before part isBefore
  · exact context.pushed.full notCopied

/-- A new child is apart from the trie. -/
theorem nodes_outside (notCopied : copied = false) : ∀ address ∈ below.nodes,
    address ∉ trie.nodes ∧ (address ∈ tail.nodes ∨ heap.next ≤ address) := by
  intro address isBelow
  subst notCopied
  refine ⟨?_, ?_⟩
  · exact (context.nodes_apart address isBelow).resolve_left fun never => by
      cases never.1
  · exact (context.pushed.nodes address isBelow).resolve_left fun never => by
      cases never.1

/-- A new child has the elements of the leaf. -/
theorem elements_new (notCopied : copied = false) :
    below.elements = tail.elements := by
  simp [context.pushed.elements, notCopied]

/-- The node is copied with a new last child. -/
theorem appended
    (notCopied : copied = false)
    (room : before.length < 31)
    (isRoot reusable : Bool)
    (vectorTransientID : Nat) :
    Runs (attachSubtree isRoot trie.address
        ⟨.internalNode, transientID, (before ++ [last]).map Subtrie.pointer⟩
        reusable
        vectorTransientID (below.address, false)) mid
      fun result final => ∃ new, new.address = result.1 ∧ result.2 = true ∧
        Pushed heap final (height + 1) isRoot trie tail new true fun _ =>
          False := by
  have found := context.found
  have unchanged := context.pushed.unchanged notCopied
  have short : ((before ++ [last]).map Subtrie.pointer).length < 32 := by
    rw [List.length_map, List.length_append, List.length_singleton]
    omega
  unfold attachSubtree
  simp only [Bool.false_eq_true, if_false, if_pos short]
  apply Runs.bind
  apply runs_retainValues (context.effect_unchanged unchanged)
  · exact present_of_node context.mid_nonneg found fun _ isIn => isIn
  intro first sameFirst firstEffect
  have each : ∀ child ∈ (before ++ [last]) ++ [below],
      child ∈ before ++ [last] ∨ child = below := by
    intro child isChild
    rwa [List.mem_append, List.mem_singleton] at isChild
  have shorter : (before ++ [last]).length < 32 := by
    rwa [List.length_map] at short
  have partsNodup :
      (((before ++ [last]) ++ [below]).flatMap Subtrie.nodes).Nodup := by
    rw [List.flatMap_append, List.nodup_append]
    refine ⟨context.inner.parts_nodup context.nodup,
      by simpa using context.pushed.nodup, ?_⟩
    rintro address isOld other isBelow rfl
    have isIn : address ∈ below.nodes := by simpa using isBelow
    exact (context.nodes_outside notCopied address isIn).1
      (context.mem_nodes isOld)
  have allocates := context.allocated sameFirst firstEffect
    (Packed.append shorter (context.full_all notCopied)) each partsNodup
    (by
      funext address
      simp only [List.map_append, List.map_cons, List.map_nil, Subtrie.pointer,
        refsAll_append, refsAll_cons, refsAll_nil, refs_pointer, Pi.add_apply,
        Pi.sub_apply, Pi.neg_apply, Pi.zero_apply]
      ring)
    transientID true
  rw [List.map_append] at allocates
  apply allocates.mono
  rintro result final ⟨new, isNew, isTrue, isTrie, elements, nodes, newNodup,
    fresh, effect⟩
  refine ⟨new, isNew, isTrue, ?_⟩
  exact {
    isTrie := isTrie
    elements := by
      rw [elements, List.flatMap_append, ← context.inner.elements]
      simp [context.elements_new notCopied]
    full := fun never => by cases never
    nodup := newNodup
    nodes := by
      intro address isNode
      rw [nodes, List.mem_cons, List.flatMap_append, List.mem_append] at isNode
      obtain rfl | isOld | isBelow := isNode
      · exact .inr (.inr fresh)
      · exact .inl (context.mem_nodes isOld)
      · have isIn : address ∈ below.nodes := by simpa using isBelow
        exact .inr (context.nodes_outside notCopied address isIn).2
    ends := by
      rw [nodes]
      exact getLast?_nodes _ _ context.pushed.ends
    apart := fun never => by cases never
    effect := effect
    changed_nodes := fun _ never => never.elim
    unchanged := fun _ _ never => never }

/-- A node of 32 full children is full. -/
theorem full_node (notCopied : copied = false) (many : before.length = 31) :
    trie.elements.length = capacity (height + 1) :=
  length_of_full context.inner.elements context.full_before
    (context.pushed.full notCopied) many

/-- A full node below the root stays as it is and a new node is put beside
it. -/
theorem beside
    (notCopied : copied = false)
    (many : before.length = 31)
    (reusable : Bool)
    (vectorTransientID : Nat) :
    Runs (attachSubtree false trie.address
        ⟨.internalNode, transientID, (before ++ [last]).map Subtrie.pointer⟩
        reusable
        vectorTransientID (below.address, false)) mid
      fun result final => ∃ new, new.address = result.1 ∧ result.2 = false ∧
        Pushed heap final (height + 1) false trie tail new false fun _ =>
          False := by
  have unchanged := context.pushed.unchanged notCopied
  have long : ¬ ((before ++ [last]).map Subtrie.pointer).length < 32 := by
    rw [List.length_map, List.length_append, List.length_singleton]
    omega
  unfold attachSubtree
  simp only [Bool.false_eq_true, if_false, if_neg long]
  have packed : Packed height ([] ++ [below]) :=
    Packed.append (by simp) (by simp)
  have allocates := context.allocated rfl (context.effect_unchanged unchanged)
    packed (by simp) (by simpa using context.pushed.nodup)
    (by
      funext address
      simp only [List.nil_append, List.map_cons, List.map_nil, Subtrie.pointer,
        refsAll_cons, refsAll_nil, refs_pointer, Pi.add_apply, Pi.sub_apply,
        Pi.neg_apply, Pi.zero_apply]
      ring)
    vectorTransientID false
  apply allocates.mono
  rintro result final ⟨new, isNew, isFalse, isTrie, elements, nodes, newNodup,
    fresh, effect⟩
  refine ⟨new, isNew, isFalse, ?_⟩
  have newNodes : ∀ address ∈ new.nodes, address ∉ trie.nodes ∧
      (address ∈ tail.nodes ∨ heap.next ≤ address) := by
    intro address isNode
    rw [nodes, List.mem_cons] at isNode
    obtain rfl | isBelow := isNode
    · refine ⟨fun isOld => ?_, .inr fresh⟩
      have wasTrie : Trie heap (height + 1) trie :=
        ⟨transientID, _, context.inner, context.children⟩
      exact absurd (wasTrie.nodes_lt _ isOld) (Nat.not_lt.mpr fresh)
    · apply context.nodes_outside notCopied
      simpa using isBelow
  exact {
    isTrie := isTrie
    elements := by
      rw [elements]
      simp [context.elements_new notCopied]
    full := fun _ => context.full_node notCopied many
    nodup := newNodup
    nodes := fun address isNode => .inr (newNodes address isNode).2
    ends := by
      rw [nodes]
      exact getLast?_nodes _ [] context.pushed.ends
    apart := fun _ _ address isNode => (newNodes address isNode).1
    effect := effect
    changed_nodes := fun _ never => never.elim
    unchanged := fun _ _ never => never }

/-- The node is the root of a trie. -/
theorem isTrie : Trie heap (height + 1) trie :=
  ⟨transientID, _, context.inner, context.children⟩

/-- A full root gets a node above it. -/
theorem newRoot
    (notCopied : copied = false)
    (many : before.length = 31)
    (reusable : Bool)
    (vectorTransientID : Nat) :
    Runs (attachSubtree true trie.address
        ⟨.internalNode, transientID, (before ++ [last]).map Subtrie.pointer⟩
        reusable
        vectorTransientID (below.address, false)) mid
      fun result final => ∃ new, new.address = result.1 ∧ result.2 = false ∧
        Pushed heap final (height + 1) true trie tail new false fun _ =>
          False := by
  have unchanged := context.pushed.unchanged notCopied
  have long : ¬ ((before ++ [last]).map Subtrie.pointer).length < 32 := by
    rw [List.length_map, List.length_append, List.length_singleton]
    omega
  unfold attachSubtree
  simp only [Bool.false_eq_true, if_false, if_neg long, if_true]
  apply Runs.bind
  apply runs_allocateNode (context.effect_unchanged unchanged)
  intro first isDown othersFirst firstEffect
  apply Runs.bind
  apply runs_allocateNode firstEffect
  intro final isNew others finalEffect
  apply Runs.pure
  have downFresh : heap.next ≤ mid.next := context.pushed.effect.next_le
  have firstNext : mid.next < first.next := Heap.lt_next_of_object isDown
  have effect :
      Effect heap final (own first.next - own trie.address - own tail.address)
      fun _ => False := by
    apply finalEffect.weaken
    · funext address
      simp only [refsAll_cons, refsAll_nil, refs_pointer, Pi.add_apply,
        Pi.sub_apply, Pi.zero_apply]
      ring
    · exact fun _ _ never => never
  have finalNonneg : ∀ address, 0 ≤ final.excess address := by
    intro address
    have := context.excess_le address
    have := own_nonneg first.next address
    rw [effect.excess]
    simp only [Pi.sub_apply]
    omega
  let down : Subtrie := ⟨mid.next, below.elements, mid.next :: below.nodes⟩
  let new : Subtrie :=
    ⟨first.next, [trie, down].flatMap Subtrie.elements,
      first.next :: [trie, down].flatMap Subtrie.nodes⟩
  have downBelow : ∀ address ∈ below.nodes, address < mid.next :=
    context.pushed.isTrie.nodes_lt
  have belowFirst : Trie first height below := by
    apply context.pushed.isTrie.of_objects
    intro address isBelow
    exact othersFirst address (Nat.ne_of_lt (downBelow address isBelow))
  have downPacked : Packed height ([] ++ [below]) :=
    Packed.append (by simp) (by simp)
  have newPacked : Packed (height + 1) ([trie] ++ [down]) := by
    apply Packed.append (by simp)
    intro part isPart
    rw [List.mem_singleton.mp isPart]
    exact context.full_node notCopied many
  have isDownTrie : Trie first (height + 1) down := by
    refine ⟨vectorTransientID, [below], ⟨isDown, ?_, ?_, downPacked⟩, ?_⟩
    · simp [down]
    · simp [down]
    · intro child isChild
      rwa [List.mem_singleton.mp isChild]
  have isNewTrie : Trie final (height + 2) new := by
    refine ⟨vectorTransientID, [trie, down], ⟨isNew, rfl, rfl, newPacked⟩, ?_⟩
    apply children_of_found effect finalNonneg isNew
    intro child isChild
    rw [List.mem_cons, List.mem_singleton] at isChild
    obtain isOld | isDownChild := isChild
    · rw [isOld]
      exact .inl ⟨context.isTrie, fun _ _ never => never⟩
    · rw [isDownChild]
      refine .inr ⟨isDownTrie, fun address isNode => others address ?_⟩
      exact Nat.ne_of_lt (isDownTrie.nodes_lt address isNode)
  have downNodes : ∀ address ∈ down.nodes, address ∉ trie.nodes ∧
      (address ∈ tail.nodes ∨ heap.next ≤ address) := by
    intro address isNode
    rw [List.mem_cons] at isNode
    obtain rfl | isBelow := isNode
    · exact ⟨fun isOld =>
        absurd (context.isTrie.nodes_lt _ isOld) (Nat.not_lt.mpr downFresh),
        .inr downFresh⟩
    · exact context.nodes_outside notCopied address isBelow
  refine ⟨new, rfl, rfl, ?_⟩
  exact {
    isTrie := isNewTrie
    elements := by simp [new, down, context.elements_new notCopied]
    full := fun _ => context.full_node notCopied many
    nodup := by
      have downNodup : down.nodes.Nodup := by
        rw [List.nodup_cons]
        exact ⟨fun isIn => absurd (downBelow _ isIn) (Nat.lt_irrefl _),
          context.pushed.nodup⟩
      simp only [new, List.flatMap_cons, List.flatMap_nil, List.append_nil]
      rw [List.nodup_cons, List.mem_append, List.nodup_append]
      refine ⟨?_, context.nodup, downNodup, ?_⟩
      · rintro (isOld | isDown)
        · have := context.isTrie.nodes_lt _ isOld
          exact absurd (Nat.lt_of_lt_of_le this (downFresh.trans firstNext.le))
            (Nat.lt_irrefl _)
        · exact absurd (isDownTrie.nodes_lt _ isDown) (Nat.lt_irrefl _)
      · rintro address isOld other isDown rfl
        exact (downNodes address isDown).1 isOld
    nodes := by
      intro address isNode
      simp only [new, List.flatMap_cons, List.flatMap_nil, List.append_nil,
        List.mem_cons, List.mem_append] at isNode
      obtain rfl | isOld | isDown := isNode
      · exact .inr (.inr (downFresh.trans firstNext.le))
      · exact .inl isOld
      · exact .inr (downNodes address isDown).2
    ends := by
      apply getLast?_nodes first.next [trie]
      rw [List.getLast?_cons, context.pushed.ends]
      rfl
    apart := fun _ never => by cases never
    effect := effect
    changed_nodes := fun _ never => never.elim
    unchanged := fun _ _ never => never }

/-- All cases.  A node is changed in place where it is reused and the leaf found
room below it. -/
theorem attaches
    (isRoot reusable : Bool)
    (notReusable : reusable = false → ∀ address, ¬ changed address)
    (vectorTransientID : Nat) :
    Runs (attachSubtree isRoot trie.address
        ⟨.internalNode, transientID, (before ++ [last]).map Subtrie.pointer⟩
        reusable
        vectorTransientID (below.address, copied)) mid
      fun result final => ∃ new changed', new.address = result.1 ∧
        result.2 = (copied || decide (before.length < 31)) ∧
        Pushed heap final (height + 1) isRoot trie tail new result.2 changed' ∧
        (reusable = false → ∀ address, ¬ changed' address) := by
  cases isCopied : copied with
  | true =>
      cases reusable with
      | true =>
          apply (context.reused isCopied isRoot vectorTransientID).mono
          rintro result final ⟨new, isNew, isTrue, isPushed⟩
          refine ⟨new, _, isNew, isTrue, isTrue ▸ isPushed, ?_⟩
          exact fun never => by cases never
      | false =>
          apply (context.copied_node isCopied (notReusable rfl) isRoot
            vectorTransientID).mono
          rintro result final ⟨new, isNew, isTrue, isPushed⟩
          exact ⟨new, _, isNew, isTrue, isTrue ▸ isPushed,
            fun _ _ never => never⟩
  | false =>
      by_cases room : before.length < 31
      · apply (context.appended isCopied room isRoot reusable
          vectorTransientID).mono
        rintro result final ⟨new, isNew, isTrue, isPushed⟩
        refine ⟨new, _, isNew, ?_, isTrue ▸ isPushed, fun _ _ never => never⟩
        rw [isTrue]
        simp [room]
      · have many : before.length = 31 := by
          have := context.length_lt
          omega
        have runs : Runs (attachSubtree isRoot trie.address
            ⟨.internalNode, transientID, (before ++ [last]).map Subtrie.pointer⟩
            reusable
            vectorTransientID (below.address, false)) mid
            fun result final => ∃ new, new.address = result.1 ∧
              result.2 = false ∧
              Pushed heap final (height + 1) isRoot trie tail new false fun _ =>
                False := by
          cases isRoot with
          | true =>
              exact context.newRoot isCopied many reusable vectorTransientID
          | false =>
              exact context.beside isCopied many reusable vectorTransientID
        apply runs.mono
        rintro result final ⟨new, isNew, isFalse, isPushed⟩
        refine ⟨new, _, isNew, ?_, isFalse ▸ isPushed, fun _ _ never => never⟩
        rw [isFalse]
        simp [room]

end Attaching

/-! ## The recursion -/

section Pushing

variable
  {heap : VectorHeap}
  {height transientID : Nat}
  {trie last tail : Subtrie}
  {before : List Subtrie}
  {held : Address → Int}

/-- The last child is found. -/
theorem lastChild_eq
    (inner : InnerNode heap height trie transientID (before ++ [last])) :
    lastChild heap.object? trie.address = some last.address := by
  simp [lastChild, inner.found, Subtrie.pointer]

/-- There is room for another child if there are fewer than 32. -/
theorem nodeHasRoom_eq
    (inner : InnerNode heap height trie transientID (before ++ [last])) :
    nodeHasRoom heap.object? trie.address = decide (before.length < 31) := by
  simp only [nodeHasRoom, inner.found, List.length_map, List.length_append,
    List.length_singleton]
  congr 1
  exact propext (by omega)

/-- `pushTail` at a height appends a leaf to every subtrie that the caller
owns. -/
def PushesAt (height vectorTransientID : Nat) : Prop :=
  ∀ (heap : VectorHeap) (trie tail : Subtrie) (held : Address → Int)
    (isRoot allowsReuse : Bool),
    Trie heap height trie → Trie heap 0 tail → isRoot = true ∨ 1 ≤ height →
    trie.nodes.Nodup → (∀ address ∈ tail.nodes, address ∉ trie.nodes) →
    (∀ address, 0 ≤ held address) →
    Owned heap (held + own trie.address + own tail.address) →
    Runs (pushTail height isRoot (some trie.address) tail.address allowsReuse
        vectorTransientID) heap
      fun result final => ∃ new changed, new.address = result.1 ∧
        result.2 = hasRoom heap.object? height trie.address ∧
        Pushed heap final height isRoot trie tail new result.2 changed ∧
        (allowsReuse = false → ∀ address, ¬ changed address)

/-- A leaf as the root gets a node above it. -/
theorem pushesAt_leaf (vectorTransientID : Nat) :
    PushesAt 0 vectorTransientID := by
  intro heap trie tail held isRoot allowsReuse isTrie isTail rootOrInner nodup
    apart nonneg owned
  have isRootTrue : isRoot = true := rootOrInner.resolve_right (by omega)
  subst isRootTrue
  obtain ⟨transientID, leaf⟩ := isTrie
  have isTrie : Trie heap 0 trie := ⟨transientID, leaf⟩
  rw [pushTail, pushInto]
  · apply Runs.bind
    apply runs_loadNode leaf.found
    apply Runs.bind
    apply runs_allocateNode (Effect.refl heap)
    intro final isNew others finalEffect
    apply Runs.pure
    have effect :
        Effect heap final (own heap.next - own trie.address - own tail.address)
        fun _ => False := by
      apply finalEffect.weaken
      · funext address
        simp only [refsAll_cons, refsAll_nil, refs_pointer, Pi.add_apply,
          Pi.sub_apply, Pi.zero_apply]
        ring
      · exact fun _ _ never => never
    have finalNonneg : ∀ address, 0 ≤ final.excess address := by
      intro address
      have atAddress := owned.le_excess address
      have := nonneg address
      have := own_nonneg heap.next address
      rw [effect.excess]
      simp only [Pi.add_apply, Pi.sub_apply] at atAddress ⊢
      omega
    let new : Subtrie :=
      ⟨heap.next, [trie, tail].flatMap Subtrie.elements,
        heap.next :: [trie, tail].flatMap Subtrie.nodes⟩
    have packed : Packed 0 ([trie] ++ [tail]) := by
      apply Packed.append (by simp)
      intro part isPart
      rw [List.mem_singleton.mp isPart, leaf.full]
      rfl
    refine ⟨new, fun _ => False, rfl, rfl, ?_, fun _ _ never => never⟩
    exact {
      isTrie := by
        refine ⟨vectorTransientID, [trie, tail], ⟨isNew, rfl, rfl, packed⟩, ?_⟩
        intro child isChild
        have present := Heap.object_of_reference finalNonneg isNew
          (pointer_mem_references isChild)
        have wasTrie : Trie heap 0 child := by
          rw [List.mem_cons, List.mem_singleton] at isChild
          obtain rfl | rfl := isChild
          · exact isTrie
          · exact isTail
        exact wasTrie.frame effect finalNonneg (fun _ _ never => never) present
      elements := by simp [new]
      full := fun _ => leaf.full
      nodup := by
        obtain ⟨tailID, tailLeaf⟩ := isTail
        have tailNodup : tail.nodes.Nodup := by
          rw [tailLeaf.nodes]
          exact List.nodup_singleton _
        simp only [new, List.flatMap_cons, List.flatMap_nil, List.append_nil]
        rw [List.nodup_cons, List.mem_append, List.nodup_append]
        refine ⟨?_, nodup, tailNodup, ?_⟩
        · rintro (isOld | isTailNode)
          · exact absurd (isTrie.nodes_lt _ isOld) (Nat.lt_irrefl _)
          · have isTail : Trie heap 0 tail := ⟨tailID, tailLeaf⟩
            exact absurd (isTail.nodes_lt _ isTailNode) (Nat.lt_irrefl _)
        · rintro address isOld other isTailNode rfl
          exact apart address isTailNode isOld
      nodes := by
        intro address isNode
        simp only [new, List.flatMap_cons, List.flatMap_nil, List.append_nil,
          List.mem_cons, List.mem_append] at isNode
        obtain rfl | isOld | isTailNode := isNode
        · exact .inr (.inr (Nat.le_refl _))
        · exact .inl isOld
        · exact .inr (.inl isTailNode)
      ends := by
        obtain ⟨tailID, tailLeaf⟩ := isTail
        apply getLast?_nodes heap.next [trie]
        rw [tailLeaf.nodes]
        rfl
      apart := fun _ never => by cases never
      effect := effect
      changed_nodes := fun _ never => never.elim
      unchanged := fun _ _ never => never }
  · intro _ never
    omega

/-- At the lowest inner level the leaf itself is the new child. -/
theorem pushedBelow_leaf
    (isLast : Trie heap 0 last)
    (isTail : Trie heap 0 tail) :
    PushedBelow heap heap 0 last tail tail false fun _ => False where
  isTrie := isTail
  elements := by simp
  full := by
    intro _
    obtain ⟨transientID, leaf⟩ := isLast
    exact leaf.full
  nodup := by
    obtain ⟨transientID, leaf⟩ := isTail
    rw [leaf.nodes]
    exact List.nodup_singleton _
  nodes := fun _ isNode => .inr (.inl isNode)
  ends := by
    obtain ⟨transientID, leaf⟩ := isTail
    rw [leaf.nodes]
    rfl
  effect := by simpa using Effect.refl heap
  changed_nodes := fun _ never => never.elim
  unchanged := fun _ _ never => never

/-- Above the leaves the leaf is attached itself. -/
theorem pushesAt_lowest (vectorTransientID : Nat) :
    PushesAt 1 vectorTransientID := by
  intro heap trie tail held isRoot allowsReuse isTrie isTail _ nodup apart nonneg owned
  obtain ⟨transientID, parts, inner, children⟩ := isTrie
  obtain ⟨before, last, rfl, _⟩ := inner.packed.exists_last
  have context : Attaching heap heap 0 transientID trie last tail tail before
      held false
      fun _ => False := {
    inner := inner
    children := children
    nodup := nodup
    tailNodes := fun address isNode =>
      ⟨apart address isNode, isTail.nodes_lt address isNode⟩
    nonneg := nonneg
    owned := owned
    pushed := pushedBelow_leaf (children last (by simp)) isTail }
  rw [pushTail, pushInto]
  · apply Runs.bind
    apply runs_loadNode inner.found
    apply Runs.bind
    apply runs_reusesNode inner.found
    apply Runs.bind
    apply Runs.pure
    apply (context.attaches isRoot _ (fun _ _ never => never)
      vectorTransientID).mono
    rintro result final ⟨new, changed, isNew, isCopied, isPushed, isChanged⟩
    refine ⟨new, changed, isNew, ?_, isPushed, ?_⟩
    · rw [isCopied, hasRoom, nodeHasRoom_eq inner, Bool.false_or]
    · rintro rfl
      exact isChanged rfl
  · intro _ never
    omega

/-- What a push below the root gives for the node above. -/
theorem pushedBelow_of_pushed
    {first mid : VectorHeap}
    {below : Subtrie}
    {copied : Bool}
    {changed : Address → Prop}
    (retained : Effect heap first (own last.address) fun _ => False)
    (pushed : Pushed first mid height false last tail below copied changed) :
    PushedBelow heap mid height last tail below copied changed where
  isTrie := by simpa using pushed.isTrie
  elements := by simpa using pushed.elements
  full := pushed.full
  nodup := pushed.nodup
  nodes := by
    intro address isNode
    obtain isLast | isTail | fresh := pushed.nodes address isNode
    · refine .inl ⟨?_, isLast⟩
      by_contra notCopied
      exact pushed.apart (by simpa using notCopied) rfl address isNode isLast
    · exact .inr (.inl isTail)
    · exact .inr (.inr (retained.next_le.trans fresh))
  ends := pushed.ends
  effect := by
    apply (retained.trans pushed.effect).weaken
    · funext address
      simp only [Pi.add_apply, Pi.sub_apply]
      ring
    · intro address _ either
      exact either.resolve_left fun never => never
  changed_nodes := pushed.changed_nodes
  unchanged := pushed.unchanged

/-- The leaf is pushed below the last child first. -/
theorem pushesAt_inner
    {vectorTransientID : Nat}
    (below : PushesAt (height + 1) vectorTransientID) :
    PushesAt (height + 2) vectorTransientID := by
  intro heap trie tail held isRoot allowsReuse isTrie isTail _ nodup apart nonneg owned
  obtain ⟨transientID, parts, inner, children⟩ := isTrie
  obtain ⟨before, last, rfl, _⟩ := inner.packed.exists_last
  have isLast : Trie heap (height + 1) last := children last (by simp)
  rw [pushTail, pushInto]
  apply Runs.bind
  apply runs_loadNode inner.found
  apply Runs.bind
  apply runs_reusesNode inner.found
  generalize isReusable : (allowsReuse && (heap.count trie.address == 1 ||
    transientID == vectorTransientID)) = reusable
  have isEntry : ((before ++ [last]).map Subtrie.pointer).getLast? =
      some (.pointer last.address) := by
    simp [Subtrie.pointer]
  apply Runs.bind
  apply Runs.bind
  apply runs_unboxPtr isEntry
  obtain ⟨lastNode, lastFound⟩ := isLast.exists_object
  apply Runs.bind
  apply Runs.retain (Effect.refl heap) lastFound
  intro first same firstEffect
  rw [zero_add] at firstEffect
  have firstOwned : Owned first (held + own trie.address + own last.address +
      own tail.address) := by
    constructor
    · intro address
      have := owned.nonneg address
      have := own_nonneg last.address address
      simp only [Pi.add_apply] at *
      omega
    · intro address
      have := owned.le_excess address
      rw [firstEffect.excess]
      simp only [Pi.add_apply] at *
      omega
  have heldNonneg : ∀ address, 0 ≤ (held + own trie.address) address := by
    intro address
    have := nonneg address
    have := own_nonneg trie.address address
    simp only [Pi.add_apply]
    omega
  have tailApart : ∀ address ∈ tail.nodes, address ∉ last.nodes :=
    fun address isNode isIn =>
    apart address isNode (inner.mem_nodes address isIn)
  apply (below first last tail (held + own trie.address) false reusable
    (isLast.of_objects fun address _ => congrFun same address)
    (isTail.of_objects fun address _ => congrFun same address)
    (.inr (by omega)) (inner.part_nodup nodup) tailApart heldNonneg
    firstOwned).mono
  rintro result mid ⟨new, changed, isNew, isCopied, isPushed, isChanged⟩
  have context : Attaching heap mid (height + 1) transientID trie last tail new
      before held result.2 changed := {
    inner := inner
    children := children
    nodup := nodup
    tailNodes := fun address isNode =>
      ⟨apart address isNode, isTail.nodes_lt address isNode⟩
    nonneg := nonneg
    owned := owned
    pushed := pushedBelow_of_pushed firstEffect isPushed }
  rw [same] at isCopied
  have attached := context.attaches isRoot reusable isChanged vectorTransientID
  rw [isNew] at attached
  apply attached.mono
  rintro attachedResult final ⟨newNode, changed', isNewNode, isAttached,
    attachedPushed, inPlace⟩
  refine ⟨newNode, changed', isNewNode, ?_, attachedPushed, ?_⟩
  · rw [isAttached, hasRoom, lastChild_eq inner, nodeHasRoom_eq inner, isCopied]
  · rintro rfl
    apply inPlace
    rw [← isReusable, Bool.false_and]

/-- `pushTail` appends a leaf, at every height. -/
theorem pushesAt (height vectorTransientID : Nat) :
    PushesAt height vectorTransientID := by
  induction height with
  | zero => exact pushesAt_leaf vectorTransientID
  | succ height inductionHypothesis =>
      cases height with
      | zero => exact pushesAt_lowest vectorTransientID
      | succ height => exact pushesAt_inner inductionHypothesis

end Pushing

end Vector
end Runtime
end ClojureRt
