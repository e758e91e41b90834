import ClojureRt.Runtime.Vector.PopTail

/-!
# Vectors on the heap

A vector is laid out as a trie, if it has one, and a tail.  The trie is no
higher than its elements need, and where there is a trie the tail has an
element, so that the shape of the layout follows from the number of elements.
-/

namespace ClojureRt
namespace Runtime
namespace Vector

open RefCount RefCount.Program
open Sharing (Address RTValue NodeType)

/-- The trie of a vector, if it has one, and its tail. -/
structure Layout where
  height : Nat
  root : Option Subtrie
  tail : Subtrie
  flat : root = none → height = 0
  tight : ∀ trie ∈ root.toList, ∀ lower, height = lower + 1 →
    capacity lower < trie.elements.length
  tailNodes : tail.nodes = [tail.address]
  atMost : tail.elements.length ≤ 32
  nonempty : ∀ trie ∈ root.toList, tail.elements ≠ []
  nodup : (root.toList.flatMap Subtrie.nodes ++ tail.nodes).Nodup

namespace Layout

/-- The elements in their order. -/
def elements (layout : Layout) : List RTValue :=
  layout.root.toList.flatMap Subtrie.elements ++ layout.tail.elements

/-- The nodes of the trie, and the tail. -/
def nodes (layout : Layout) : List Address :=
  layout.root.toList.flatMap Subtrie.nodes ++ layout.tail.nodes

theorem mem_nodes (layout : Layout) {address : Address} :
    address ∈ layout.nodes ↔
      (∃ trie ∈ layout.root.toList, address ∈ trie.nodes) ∨
      address = layout.tail.address := by
  rw [nodes, List.mem_append, List.mem_flatMap, layout.tailNodes,
    List.mem_singleton]

theorem tail_mem_nodes (layout : Layout) : layout.tail.address ∈ layout.nodes :=
  layout.mem_nodes.mpr (.inr rfl)

theorem root_nodup (layout : Layout) {trie : Subtrie}
    (isRoot : trie ∈ layout.root.toList) :
    trie.nodes.Nodup := by
  have nodup := layout.nodup
  rw [Option.mem_toList] at isRoot
  rw [isRoot, List.nodup_append] at nodup
  simpa using nodup.1

theorem tail_notMem_root (layout : Layout) {trie : Subtrie}
    (isRoot : trie ∈ layout.root.toList) :
    layout.tail.address ∉ trie.nodes := by
  intro isNode
  have nodup := layout.nodup
  rw [List.nodup_append] at nodup
  have inRoot := List.mem_flatMap.mpr ⟨trie, isRoot, isNode⟩
  exact nodup.2.2 _ inRoot layout.tail.address (by simp [layout.tailNodes]) rfl

/-- The layout with another tail. -/
def withTail
    (layout : Layout)
    (address : Address)
    (elements : List RTValue)
    (atMost : elements.length ≤ 32)
    (nonempty : ∀ trie ∈ layout.root.toList, elements ≠ [])
    (apart : ∀ trie ∈ layout.root.toList, address ∉ trie.nodes) : Layout where
  height := layout.height
  root := layout.root
  tail := ⟨address, elements, [address]⟩
  flat := layout.flat
  tight := layout.tight
  tailNodes := rfl
  atMost := atMost
  nonempty := nonempty
  nodup := by
    have nodup := layout.nodup
    rw [List.nodup_append] at nodup ⊢
    refine ⟨nodup.1, List.nodup_singleton _, ?_⟩
    rintro other isRoot _ isTail rfl
    rw [List.mem_singleton] at isTail
    obtain ⟨trie, isTrie, isNode⟩ := List.mem_flatMap.mp isRoot
    exact apart trie isTrie (isTail ▸ isNode)

/-- The layout with a trie in place of another. -/
def withRoot
    (height : Nat)
    (trie tail : Subtrie)
    (tight : ∀ lower, height = lower + 1 →
      capacity lower < trie.elements.length)
    (tailNodes : tail.nodes = [tail.address])
    (atMost : tail.elements.length ≤ 32)
    (nonempty : tail.elements ≠ [])
    (nodup : trie.nodes.Nodup)
    (apart : tail.address ∉ trie.nodes) : Layout where
  height := height
  root := some trie
  tail := tail
  flat := fun never => by cases never
  tight := by
    intro other isRoot
    rw [Option.toList_some, List.mem_singleton] at isRoot
    rwa [isRoot]
  tailNodes := tailNodes
  atMost := atMost
  nonempty := fun _ _ => nonempty
  nodup := by
    rw [tailNodes, List.nodup_append]
    refine ⟨by simpa using nodup, List.nodup_singleton _, ?_⟩
    rintro other isNode _ isTail rfl
    rw [List.mem_singleton] at isTail
    apply apart
    rw [← isTail]
    simpa using isNode

end Layout

/-- A vector without a trie. -/
def leafLayout (address : Address) (elements : List RTValue)
    (atMost : elements.length ≤ 32) : Layout where
  height := 0
  root := none
  tail := ⟨address, elements, [address]⟩
  flat := fun _ => rfl
  tight := fun _ isTrie => absurd isTrie List.not_mem_nil
  tailNodes := rfl
  atMost := atMost
  nonempty := fun _ isTrie => absurd isTrie List.not_mem_nil
  nodup := List.nodup_singleton address

/-- A leaf outside of the trie, which need not be full. -/
def IsTail (heap : VectorHeap) (tail : Subtrie) : Prop :=
  ∃ transientID,
    heap.object? tail.address =
      some (.node ⟨.leafNode, transientID, tail.elements⟩)

/-- A header for a layout. -/
structure Fits (vector : PersistentVector) (layout : Layout) : Prop where
  count : vector.count = layout.elements.length
  shift : vector.shift = 5 * layout.height
  root : vector.root = layout.root.map Subtrie.address
  tail : vector.tail = some layout.tail.address

/-- The vector at an address. -/
structure Lays
    (heap : VectorHeap)
    (address : Address)
    (vector : PersistentVector)
    (layout : Layout) :
    Prop where
  found : heap.object? address = some (.vector vector)
  fits : Fits vector layout
  isTrie : ∀ trie ∈ layout.root.toList, Trie heap layout.height trie
  isTail : IsTail heap layout.tail

/-! ## References between the parts -/

theorem root_mem_references
    {vector : PersistentVector}
    {layout : Layout}
    (fits : Fits vector layout)
    {trie : Subtrie}
    (isRoot : trie ∈ layout.root.toList) :
    trie.address ∈ Referencing.references (Object.vector vector) := by
  refine List.mem_append_left _ (List.mem_append_left _ ?_)
  rw [Option.mem_toList] at isRoot
  simp [fits.root, isRoot]

theorem tail_mem_references
    {vector : PersistentVector}
    {layout : Layout}
    (fits : Fits vector layout) :
    layout.tail.address ∈ Referencing.references (Object.vector vector) := by
  refine List.mem_append_left _ (List.mem_append_right _ ?_)
  simp [fits.tail]

/-- The nodes of a subtrie are nodes on the heap. -/
theorem Trie.nodes_found
    {heap : VectorHeap}
    {height : Nat}
    {trie : Subtrie}
    (isTrie : Trie heap height trie) :
    ∀ address ∈ trie.nodes, ∃ node,
      heap.object? address = some (.node node) := by
  induction height generalizing trie with
  | zero =>
      obtain ⟨transientID, leaf⟩ := isTrie
      intro address isNode
      rw [leaf.nodes, List.mem_singleton] at isNode
      rw [isNode]
      exact ⟨_, leaf.found⟩
  | succ height inductionHypothesis =>
      obtain ⟨transientID, parts, inner, children⟩ := isTrie
      intro address isNode
      rw [inner.nodes, List.mem_cons, List.mem_flatMap] at isNode
      obtain rfl | ⟨part, isPart, isNode⟩ := isNode
      · exact ⟨_, inner.found⟩
      · exact inductionHypothesis (children part isPart) address isNode

namespace Lays

variable
  {heap : VectorHeap}
  {self : Address}
  {vector : PersistentVector}
  {layout : Layout}
  (lays : Lays heap self vector layout)

include lays

theorem nodes_found : ∀ address ∈ layout.nodes,
    ∃ node, heap.object? address = some (.node node) := by
  intro address isNode
  rw [layout.mem_nodes] at isNode
  obtain ⟨trie, isRoot, isNode⟩ | rfl := isNode
  · exact (lays.isTrie trie isRoot).nodes_found address isNode
  · obtain ⟨transientID, found⟩ := lays.isTail
    exact ⟨_, found⟩

theorem self_notMem : self ∉ layout.nodes := by
  intro isNode
  obtain ⟨node, found⟩ := lays.nodes_found self isNode
  rw [lays.found] at found
  cases found

theorem tail_ne_self : layout.tail.address ≠ self := by
  intro same
  apply lays.self_notMem
  rw [← same]
  exact layout.tail_mem_nodes

theorem nodes_lt : ∀ address ∈ layout.nodes, address < heap.next := by
  intro address isNode
  obtain ⟨node, found⟩ := lays.nodes_found address isNode
  exact Heap.lt_next_of_object found

/-- A new address is no node of the layout. -/
theorem next_notMem : heap.next ∉ layout.nodes :=
  fun isNode => Nat.lt_irrefl _ (lays.nodes_lt _ isNode)

theorem self_lt : self < heap.next :=
  Heap.lt_next_of_object lays.found

theorem root_present : ∀ address, vector.root = some address →
    ∃ object, heap.object? address = some object := by
  intro address isRoot
  rw [lays.fits.root, Option.map_eq_some_iff] at isRoot
  obtain ⟨trie, isTrie, rfl⟩ := isRoot
  obtain ⟨node, found⟩ :=
    (lays.isTrie trie (Option.mem_toList.mpr isTrie)).exists_object
  exact ⟨_, found⟩

/-- The elements of the trie are those before the tail. -/
theorem tailOffset :
    wordSub vector.count layout.tail.elements.length =
      (layout.root.toList.flatMap Subtrie.elements).length := by
  have atMost : layout.tail.elements.length ≤ vector.count := by
    rw [lays.fits.count, Layout.elements, List.length_append]
    omega
  rw [wordSub, if_pos atMost, lays.fits.count, Layout.elements,
    List.length_append]
  omega

end Lays

/-! ## Building and keeping a layout -/

/-- A vector is laid out where its parts are there as they were or were built on
the way. -/
theorem lays_of_parts
    {heap mid final : VectorHeap}
    {change : Address → Int}
    {changed : Address → Prop}
    (effect : Effect heap final change changed)
    (nonneg : ∀ address, 0 ≤ final.excess address)
    {self : Address}
    {vector : PersistentVector}
    {layout : Layout}
    (found : final.object? self = some (.vector vector))
    (fits : Fits vector layout)
    (root : ∀ trie ∈ layout.root.toList,
      (Trie heap layout.height trie ∧ ∀ address ∈ trie.nodes,
        ¬ changed address) ∨
        (Trie mid layout.height trie ∧
          ∀ address ∈ trie.nodes, final.object? address = mid.object? address))
    (tail : (IsTail heap layout.tail ∧ ¬ changed layout.tail.address) ∨
      (IsTail mid layout.tail ∧
        final.object? layout.tail.address = mid.object? layout.tail.address)) :
    Lays final self vector layout where
  found := found
  fits := fits
  isTrie := by
    intro trie isRoot
    have present :=
      Heap.object_of_reference nonneg found (root_mem_references fits isRoot)
    cases root trie isRoot with
    | inl old => exact old.1.frame effect nonneg old.2 present
    | inr new => exact new.1.of_objects new.2
  isTail := by
    obtain ⟨⟨transientID, isTail⟩, unchanged⟩ | ⟨⟨transientID, isTail⟩, same⟩ :=
      tail
    · obtain ⟨object, isObject⟩ :=
        Heap.object_of_reference nonneg found (tail_mem_references fits)
      rw [effect.object_eq isTail unchanged isObject] at isObject
      exact ⟨transientID, isObject⟩
    · exact ⟨transientID, same.trans isTail⟩

/-- A vector that is there as before is laid out as before if none of its nodes
was changed. -/
theorem Lays.frame
    {heap after : VectorHeap}
    {change : Address → Int}
    {changed : Address → Prop}
    (effect : Effect heap after change changed)
    (nonneg : ∀ address, 0 ≤ after.excess address)
    {self : Address}
    {vector : PersistentVector}
    {layout : Layout}
    (lays : Lays heap self vector layout)
    (apart : ∀ address ∈ layout.nodes, ¬ changed address)
    {header : PersistentVector}
    (found : after.object? self = some (.vector header))
    (fits : Fits header layout) :
    Lays after self header layout := by
  apply lays_of_parts effect nonneg found fits
  · intro trie isRoot
    refine .inl
      ⟨lays.isTrie trie isRoot, fun address isNode => apart address ?_⟩
    exact layout.mem_nodes.mpr (.inl ⟨trie, isRoot, isNode⟩)
  · exact .inl ⟨lays.isTail, apart _ layout.tail_mem_nodes⟩
  · exact after

/-! ## What an operation does to a vector -/

/-- What an operation gives for a vector: the new one, with the references of
the old one and those that were consumed given up. -/
structure Updated
    (heap after : VectorHeap)
    (old : Address)
    (consumed : Address → Int)
    (new : Address)
    (header : PersistentVector)
    (layout : Layout) :
    Prop where
  lays : Lays after new header layout
  excess : ∀ address,
    after.excess address = heap.excess address +
      (own new - own old - consumed) address

/-- A vector that the caller owns, together with what an operation takes besides
it.  Its header has no metadata that is counted: a header that is copied does
not retain it. -/
structure Using
    (heap : VectorHeap)
    (handle : Address)
    (vector : PersistentVector)
    (layout : Layout)
    (consumed : Address → Int) :
    Prop where
  lays : Lays heap handle vector layout
  owned : Owned heap (own handle + consumed)
  plain : addresses vector.metadata = []

namespace Using

variable
  {heap mid : VectorHeap}
  {self : Address}
  {vector header : PersistentVector}
  {layout layout' : Layout}
  {consumed change : Address → Int}
  {changed : Address → Prop}
  (used : Using heap self vector layout consumed)

include used

theorem excess_le (address : Address) :
    own self address + consumed address ≤ heap.excess address :=
  used.owned.le_excess address

theorem refs_metadata : refs vector.metadata = 0 := by
  rw [refs, used.plain, owns_nil]

/-- What is left when the consumed references are given up is owned. -/
theorem mid_nonneg
    {new : Address}
    (effect : Effect heap mid (own new - consumed) changed) :
    ∀ address, own self address + own new address ≤ mid.excess address := by
  intro address
  have := used.excess_le address
  rw [effect.excess, Pi.sub_apply]
  omega

/-- A new header, where nothing was changed in place. -/
theorem runs_copyHeader
    (effect : Effect heap mid change fun _ => False)
    (fits : Fits header layout')
    (root : ∀ trie ∈ layout'.root.toList,
      Trie heap layout'.height trie ∨ Trie mid layout'.height trie)
    (tail : IsTail heap layout'.tail ∨ IsTail mid layout'.tail)
    (balance : change - owns (Referencing.references (Object.vector header)) =
      -consumed)
    {post : Address → VectorHeap → Prop}
    (holds : ∀ new after, Updated heap after self consumed new header layout' →
      post new after) :
    Runs (do
        let new ← allocate (.vector header)
        release self
        pure new) mid post := by
  have balanceAt : ∀ address,
      change address - owns (Referencing.references (Object.vector header))
        address =
        -consumed address := congrFun balance
  apply Runs.bind
  apply Runs.allocate effect
  intro stored isNew others _ allocated
  have total : Effect heap stored (own mid.next - consumed) fun _ => False := by
    apply allocated.weaken _ fun _ _ never => never
    funext address
    have := balanceAt address
    simp only [Pi.add_apply, Pi.sub_apply]
    omega
  have enough := used.mid_nonneg total
  have isStored : Lays stored mid.next header layout' := by
    apply lays_of_parts total _ isNew fits
    · intro trie isRoot
      refine (root trie isRoot).imp (fun old => ⟨old, fun _ _ never => never⟩)
        fun isTrie => ?_
      refine ⟨isTrie, fun address isNode => others address ?_⟩
      exact Nat.ne_of_lt (isTrie.nodes_lt address isNode)
    · refine tail.imp (fun old => ⟨old, fun never => never⟩) fun isTail =>
        ⟨isTail, ?_⟩
      obtain ⟨_, found⟩ := isTail
      exact others _ (Nat.ne_of_lt (Heap.lt_next_of_object found))
    · intro address
      have := enough address
      have := own_nonneg self address
      have := own_nonneg mid.next address
      omega
  apply Runs.bind
  apply Runs.release total
  · intro address
    have atAddress := enough address
    rw [total.excess] at atAddress
    have := own_nonneg mid.next address
    omega
  intro after kept released afterEffect
  have afterEnough : ∀ address,
      own mid.next address ≤ after.excess address := by
    intro address
    have := enough address
    rw [released.excess, Pi.neg_apply]
    omega
  have alive : 0 < after.excess mid.next := by
    have atNew := afterEnough mid.next
    rw [own_self] at atNew
    omega
  obtain ⟨object, found⟩ := Heap.object_of_owned alive
  have wasStored := kept mid.next object found
  rw [isNew, Option.some.injEq] at wasStored
  rw [← wasStored] at found
  apply Runs.pure
  apply holds
  exact {
    lays := isStored.frame released
      (fun address => (own_nonneg _ _).trans (afterEnough address))
      (fun _ _ never => never) found fits
    excess := by
      intro address
      rw [afterEffect.excess]
      simp only [Pi.sub_apply]
      omega }

/-- A header that is changed in place. -/
theorem runs_storeHeader
    (effect : Effect heap mid change changed)
    {old : PersistentVector}
    (found : mid.object? self = some (.vector old))
    (apart : self ∉ layout'.nodes)
    (fits : Fits header layout')
    (root : ∀ trie ∈ layout'.root.toList,
      (Trie heap layout'.height trie ∧ ∀ address ∈ trie.nodes,
        ¬ changed address) ∨
        Trie mid layout'.height trie)
    (tail : (IsTail heap layout'.tail ∧ ¬ changed layout'.tail.address) ∨
      IsTail mid layout'.tail)
    (balance : change + (owns (Referencing.references (Object.vector old)) -
      owns (Referencing.references (Object.vector header))) = -consumed)
    {post : Address → VectorHeap → Prop}
    (holds : ∀ after, Updated heap after self consumed self header layout' →
      post self after) :
    Runs (do
        store self (.vector header)
        pure self) mid post := by
  apply Runs.bind
  apply Runs.store effect found
  intro after isStored others stored
  rw [balance] at stored
  have nonneg : ∀ address, 0 ≤ after.excess address := by
    intro address
    have := used.excess_le address
    have := own_nonneg self address
    rw [stored.excess, Pi.neg_apply]
    omega
  have same : ∀ address ∈ layout'.nodes,
      after.object? address = mid.object? address := by
    rintro address isNode
    apply others
    rintro rfl
    exact apart isNode
  apply Runs.pure
  apply holds
  exact {
    lays := by
      apply lays_of_parts stored nonneg isStored fits
      · intro trie isRoot
        have inLayout : ∀ address ∈ trie.nodes, address ∈ layout'.nodes :=
          fun address isNode =>
          layout'.mem_nodes.mpr (.inl ⟨trie, isRoot, isNode⟩)
        refine (root trie isRoot).imp (fun isOld => ⟨isOld.1, ?_⟩) fun isTrie =>
          ⟨isTrie, fun address isNode => same address (inLayout address isNode)⟩
        rintro address isNode (isChanged | rfl)
        · exact isOld.2 address isNode isChanged
        · exact apart (inLayout _ isNode)
      · refine tail.imp (fun isOld => ⟨isOld.1, ?_⟩) fun isTail =>
          ⟨isTail, same _ layout'.tail_mem_nodes⟩
        rintro (isChanged | isSelf)
        · exact isOld.2 isChanged
        · exact apart (isSelf ▸ layout'.tail_mem_nodes)
    excess := by
      intro address
      rw [stored.excess]
      simp only [Pi.sub_apply, Pi.neg_apply]
      omega }

end Using

end Vector
end Runtime
end ClojureRt
