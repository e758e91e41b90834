import ClojureRt.Runtime.Vector.PushTail

/-!
# Popping a leaf from a trie

`popTail` takes the last leaf from a subtrie and gives what is left of it.  A
node is changed in place where its parent is and where it is not shared, or
where it belongs to the same transient.
-/

namespace ClojureRt
namespace Runtime
namespace Vector

open RefCount RefCount.Program
open Sharing (Address RTValue NodeType)

/-- The reference to a new root, where it is not the old one. -/
def gained (old new : Address) : Address → Int :=
  if new = old then 0 else own new

/-- Nothing is gained a negative number of times. -/
theorem gained_nonneg (old new other : Address) : 0 ≤ gained old new other := by
  unfold gained
  split
  · exact Int.le_refl 0
  · exact own_nonneg new other

/-- The reference to what is left of a subtrie, where it has another root than
before. -/
def gainedRest (old : Address) : Option Subtrie → Address → Int
  | some new => gained old new.address
  | none => 0

/-- Nothing is gained a negative number of times. -/
theorem gainedRest_nonneg (old : Address) (rest : Option Subtrie)
    (other : Address) :
    0 ≤ gainedRest old rest other := by
  cases rest with
  | none => exact Int.le_refl 0
  | some new => exact gained_nonneg old new.address other

/-- What `popTail` gives: the leaf, and what is left of the subtrie. -/
structure Popped
    (heap after : VectorHeap)
    (height : Nat)
    (trie : Subtrie)
    (allowsReuse : Bool)
    (rest : Option Subtrie)
    (leaf : Subtrie)
    (changed : Address → Prop) :
    Prop where
  isLeaf : Trie after 0 leaf
  isTrie : ∀ new ∈ rest.toList, Trie after height new
  elements : trie.elements = rest.toList.flatMap Subtrie.elements ++
    leaf.elements
  nodup : (rest.toList.flatMap Subtrie.nodes).Nodup
  nodes : ∀ address ∈ rest.toList.flatMap Subtrie.nodes,
    address ∈ trie.nodes ∨ heap.next ≤ address
  apart : leaf.address ∉ rest.toList.flatMap Subtrie.nodes
  leaf_mem : leaf.address ∈ trie.nodes
  leaf_last : trie.nodes.getLast? = some leaf.address
  effect : Effect heap after
    (own leaf.address + gainedRest trie.address rest) changed
  changed_nodes : ∀ address, changed address → address ∈ trie.nodes ∧
    address ≠ leaf.address
  copied : allowsReuse = false → ∀ address, ¬ changed address
  copies : allowsReuse = false → ∀ new ∈ rest.toList, heap.next ≤ new.address

/-- A node above some children. -/
def Subtrie.above (self : Address) (parts : List Subtrie) : Subtrie where
  address := self
  elements := parts.flatMap Subtrie.elements
  nodes := self :: parts.flatMap Subtrie.nodes

/-- The last leaf below the last child of a node that somebody keeps alive was
popped. -/
structure Popping
    (heap mid : VectorHeap)
    (height transientID : Nat)
    (trie last : Subtrie)
    (before : List Subtrie)
    (rest : Option Subtrie)
    (leaf : Subtrie)
    (held : Address → Int)
    (reusable : Bool)
    (changed : Address → Prop) :
    Prop where
  inner : InnerNode heap height trie transientID (before ++ [last])
  children : ∀ child ∈ before ++ [last], Trie heap height child
  nodup : trie.nodes.Nodup
  owned : Owned heap held
  pinned : Pinned heap held (· ∈ trie.nodes) trie.address
  popped : Popped heap mid height last reusable rest leaf changed

namespace Popping

variable
  {heap mid : VectorHeap}
  {height transientID : Nat}
  {trie last : Subtrie}
  {before : List Subtrie}
  {rest : Option Subtrie}
  {leaf : Subtrie}
  {held : Address → Int}
  {reusable : Bool}
  {changed : Address → Prop}
  (context :
    Popping heap mid height transientID trie last before rest leaf held reusable
      changed)

include context

/-- The node is the root of a trie. -/
theorem isTrie : Trie heap (height + 1) trie :=
  ⟨transientID, _, context.inner, context.children⟩

/-- The reference to the leaf, and the one to what is left of the last child. -/
theorem mid_excess (address : Address) :
    held address + own leaf.address address + gainedRest last.address rest
      address ≤
      mid.excess address := by
  have := context.owned.le_excess address
  rw [context.popped.effect.excess, Pi.add_apply]
  omega

/-- No count is below what the heap refers to. -/
theorem mid_nonneg : ∀ address, 0 ≤ mid.excess address := by
  intro address
  have := context.mid_excess address
  have := context.owned.nonneg address
  have := own_nonneg leaf.address address
  have := gainedRest_nonneg last.address rest address
  omega

/-- What changed is below the last child. -/
theorem changed_mem {address : Address} (isChanged : changed address) :
    address ∈ last.nodes :=
  (context.popped.changed_nodes address isChanged).1

/-- The node itself has not changed yet. -/
theorem address_unchanged : ¬ changed trie.address := fun isChanged =>
  context.inner.address_notMem_part context.nodup
    (context.changed_mem isChanged)

/-- The node is there as it was when the leaf has been popped. -/
theorem found :
    mid.object? trie.address = some (.node
      ⟨.internalNode, transientID,
        (before ++ [last]).map Subtrie.pointer⟩) := by
  have keeps : ∀ address, held address ≤ mid.excess address := by
    intro address
    have := context.mid_excess address
    have := own_nonneg leaf.address address
    have := gainedRest_nonneg last.address rest address
    omega
  obtain ⟨object, isObject⟩ := context.pinned.present context.popped.effect
    (fun address isChanged =>
      context.inner.mem_nodes address (context.changed_mem isChanged))
    context.owned.nonneg keeps
  rwa [context.popped.effect.object_eq context.inner.found
    context.address_unchanged isObject]
    at isObject

/-- The children before the last one are full. -/
theorem full_before : ∀ part ∈ before,
    part.elements.length = capacity height := by
  have full := context.inner.packed.full
  rwa [List.dropLast_concat] at full

/-- What is left is packed. -/
theorem packed (nonempty : before ++ rest.toList ≠ []) :
    Packed height (before ++ rest.toList) := by
  have atMost := context.inner.packed.atMost
  rw [List.length_append, List.length_singleton] at atMost
  cases rest with
  | some new => exact Packed.append atMost context.full_before
  | none =>
      rw [Option.toList_none, List.append_nil] at nonempty ⊢
      refine ⟨nonempty, by omega, ?_⟩
      exact fun part isPart =>
        context.full_before part (List.dropLast_subset before isPart)

/-- The leaf has the last elements. -/
theorem elements : trie.elements =
    (before ++ rest.toList).flatMap Subtrie.elements ++ leaf.elements := by
  rw [context.inner.elements, List.flatMap_append, List.flatMap_append,
    List.append_assoc, ← context.popped.elements]
  simp

/-- The other children are apart from the last one. -/
theorem mem_before_nodes {address : Address}
    (isIn : address ∈ before.flatMap Subtrie.nodes) :
    address ∈ trie.nodes ∧ address ∉ last.nodes := by
  obtain ⟨part, isPart, isNode⟩ := List.mem_flatMap.mp isIn
  have inTrie : address ∈ trie.nodes := by
    rw [context.inner.nodes]
    refine List.mem_cons_of_mem _ (List.mem_flatMap.mpr ⟨part, ?_, isNode⟩)
    exact List.mem_append_left _ isPart
  exact ⟨inTrie,
    apart_of_nodup (context.inner.parts_nodup context.nodup) (.inl isPart)
    address isNode⟩

/-- What is left has nodes of the trie and new ones. -/
theorem mem_nodes {address : Address}
    (isIn : address ∈ (before ++ rest.toList).flatMap Subtrie.nodes) :
    address ∈ trie.nodes ∨ heap.next ≤ address := by
  rw [List.flatMap_append, List.mem_append] at isIn
  cases isIn with
  | inl isBefore => exact .inl (context.mem_before_nodes isBefore).1
  | inr isRest =>
      exact (context.popped.nodes address isRest).imp_left
        (context.inner.mem_nodes address)

/-- No node is there twice. -/
theorem nodup_parts :
    ((before ++ rest.toList).flatMap Subtrie.nodes).Nodup := by
  have all := context.inner.parts_nodup context.nodup
  rw [List.flatMap_append, List.nodup_append] at all ⊢
  refine ⟨all.1, context.popped.nodup, ?_⟩
  rintro address isBefore other isRest rfl
  obtain ⟨inTrie, notLast⟩ := context.mem_before_nodes isBefore
  cases context.popped.nodes address isRest with
  | inl isLast => exact notLast isLast
  | inr fresh =>
      exact absurd (context.isTrie.nodes_lt address inTrie)
        (Nat.not_lt.mpr fresh)

/-- The leaf is not among what is left. -/
theorem leaf_apart : leaf.address ∉
    (before ++ rest.toList).flatMap Subtrie.nodes := by
  rw [List.flatMap_append, List.mem_append]
  rintro (isBefore | isRest)
  · exact (context.mem_before_nodes isBefore).2 context.popped.leaf_mem
  · exact context.popped.apart isRest

/-- The leaf was in the trie. -/
theorem leaf_mem : leaf.address ∈ trie.nodes :=
  context.inner.mem_nodes _ context.popped.leaf_mem

/-- The leaf was the last node of the trie. -/
theorem leaf_last : trie.nodes.getLast? = some leaf.address := by
  rw [context.inner.nodes]
  exact getLast?_nodes _ _ context.popped.leaf_last

/-- The node is not below itself. -/
theorem address_notMem : trie.address ∉
    (before ++ rest.toList).flatMap Subtrie.nodes := by
  have notPart := context.inner.address_notMem context.nodup
  rw [List.flatMap_append, List.mem_append] at notPart ⊢
  rintro (isBefore | isRest)
  · exact notPart (.inl isBefore)
  · cases context.popped.nodes _ isRest with
    | inl isLast => exact context.inner.address_notMem_part context.nodup isLast
    | inr fresh =>
        exact absurd (Heap.lt_next_of_object context.inner.found)
          (Nat.not_lt.mpr fresh)

/-- A node above what is left, in a heap in which what is left of the last child
is as it was. -/
theorem trie_above
    {stored : VectorHeap}
    {self : Address}
    {newID : Nat}
    {change : Address → Int}
    {changed' : Address → Prop}
    (effect : Effect heap stored change changed')
    (nonneg : ∀ address, 0 ≤ stored.excess address)
    (found : stored.object? self = some (.node
      ⟨.internalNode, newID, (before ++ rest.toList).map Subtrie.pointer⟩))
    (unchanged : ∀ address ∈ before.flatMap Subtrie.nodes, ¬ changed' address)
    (same : ∀ address ∈ rest.toList.flatMap Subtrie.nodes,
      stored.object? address = mid.object? address)
    (nonempty : before ++ rest.toList ≠ []) :
    Trie stored (height + 1) (Subtrie.above self (before ++ rest.toList)) := by
  refine ⟨newID, before ++ rest.toList,
    ⟨found, rfl, rfl, context.packed nonempty⟩, ?_⟩
  apply children_of_found effect nonneg found
  intro child isChild
  rw [List.mem_append] at isChild
  cases isChild with
  | inl isBefore =>
      refine .inl ⟨context.children child (List.mem_append_left _ isBefore), ?_⟩
      exact fun address isNode =>
        unchanged address (List.mem_flatMap.mpr ⟨child, isBefore, isNode⟩)
  | inr isRest =>
      refine .inr ⟨context.popped.isTrie child isRest, ?_⟩
      exact fun address isNode =>
        same address (List.mem_flatMap.mpr ⟨child, isRest, isNode⟩)

/-- The node is changed in place. -/
theorem stored {α : Type} (result : α) :
    Runs (do
        store trie.address (.node
          ⟨.internalNode, transientID,
            (before ++ rest.toList).map Subtrie.pointer⟩)
        releaseWhen (rest.map Subtrie.address != some last.address)
          (some last.address)
        pure result) mid
      fun value final => value = result ∧ Trie final 0 leaf ∧
        (before ++ rest.toList ≠ [] →
          Trie final (height + 1)
            (Subtrie.above trie.address (before ++ rest.toList))) ∧
        Effect heap final (own leaf.address)
          (fun address => changed address ∨ address = trie.address) := by
  have excess := context.mid_excess
  have nonneg := context.owned.nonneg
  -- what the release gives back is what the store took from the last child
  have balance : own leaf.address + gainedRest last.address rest +
      (refsAll ((before ++ [last]).map Subtrie.pointer) -
        refsAll ((before ++ rest.toList).map Subtrie.pointer)) -
      (if rest.map Subtrie.address != some last.address then own
        last.address else 0) =
        own leaf.address := by
    cases rest with
    | none => simp [gainedRest, Subtrie.pointer]
    | some new =>
        by_cases same : new.address = last.address
        · simp [gainedRest, gained, Subtrie.pointer, same]
        · simp [gainedRest, gained, Subtrie.pointer, same]
  have balanceAt : ∀ address,
      own leaf.address address + gainedRest last.address rest address +
      (refsAll ((before ++ [last]).map Subtrie.pointer) address -
        refsAll ((before ++ rest.toList).map Subtrie.pointer) address) -
      (if rest.map Subtrie.address != some last.address then own
        last.address else 0) address =
        own leaf.address address := congrFun balance
  have released : ∀ address,
      0 ≤ (if rest.map Subtrie.address != some last.address then own
        last.address else 0)
        address := by
    intro address
    split
    · exact own_nonneg _ _
    · exact Int.le_refl 0
  apply Runs.bind
  apply runs_storeNode context.popped.effect context.found
  intro stored isStored others storedEffect
  have storedExcess : ∀ address, held address +
      (own leaf.address address +
        (if rest.map Subtrie.address != some last.address then own
          last.address else 0) address) ≤
      stored.excess address := by
    intro address
    have := context.owned.le_excess address
    have := balanceAt address
    rw [storedEffect.excess]
    simp only [Pi.add_apply, Pi.sub_apply]
    omega
  apply Runs.bind
  apply runs_releaseWhen storedEffect
  · intro toRelease address
    have atAddress := storedExcess address
    rw [storedEffect.excess, if_pos toRelease] at atAddress
    have := nonneg address
    have := own_nonneg leaf.address address
    rw [owns_some]
    omega
  intro final _ releasedEffect finalEffect
  apply Runs.pure
  rw [owns_some] at releasedEffect finalEffect
  have effect : Effect heap final (own leaf.address)
      (fun address => changed address ∨ address = trie.address) :=
    finalEffect.weaken balance fun _ _ isChanged => isChanged
  have finalExcess : ∀ address, held address + own leaf.address address ≤
      final.excess address := by
    intro address
    have := context.owned.le_excess address
    rw [effect.excess]
    omega
  have isStoredTrie : before ++ rest.toList ≠ [] →
      Trie stored (height + 1)
        (Subtrie.above trie.address (before ++ rest.toList)) := by
    apply context.trie_above storedEffect
    · intro address
      have := storedExcess address
      have := nonneg address
      have := own_nonneg leaf.address address
      have := released address
      omega
    · exact isStored
    · rintro address isNode (isChanged | same)
      · exact (context.mem_before_nodes isNode).2
          (context.changed_mem isChanged)
      · apply context.address_notMem
        rw [← same, List.flatMap_append]
        exact List.mem_append_left _ isNode
    · intro address isNode
      apply others
      rintro rfl
      apply context.address_notMem
      rw [List.flatMap_append]
      exact List.mem_append_right _ isNode
  have stillThere := context.pinned.present effect
    (by
      rintro address (isChanged | rfl)
      · exact context.inner.mem_nodes address (context.changed_mem isChanged)
      · exact context.isTrie.address_mem_nodes)
    nonneg
    (by
      intro address
      have := finalExcess address
      have := own_nonneg leaf.address address
      omega)
  have finalNonneg : ∀ address, 0 ≤ final.excess address := by
    intro address
    have := finalExcess address
    have := nonneg address
    have := own_nonneg leaf.address address
    omega
  refine ⟨rfl, ?_, ?_, effect⟩
  · have leafTrie : Trie stored 0 leaf := by
      apply context.popped.isLeaf.of_objects
      intro address isNode
      apply others
      rintro rfl
      obtain ⟨leafID, isLeaf⟩ := context.popped.isLeaf
      rw [isLeaf.nodes, List.mem_singleton] at isNode
      apply context.inner.address_notMem_part context.nodup
      rw [isNode]
      exact context.popped.leaf_mem
    apply leafTrie.frame releasedEffect finalNonneg (fun _ _ never => never)
    apply Heap.object_of_owned
    have := finalExcess leaf.address
    have := nonneg leaf.address
    rw [own_self] at *
    omega
  · intro nonempty
    exact (isStoredTrie nonempty).frame releasedEffect finalNonneg
      (fun _ _ never => never) stillThere

/-- A new node above what is left. -/
theorem allocated
    (unchanged : ∀ address, ¬ changed address)
    (copies : ∀ new ∈ rest.toList, new.address ≠ last.address)
    {first : VectorHeap}
    (sameFirst : first.object? = mid.object?)
    (firstEffect : Effect heap first
      (own leaf.address + gainedRest last.address rest +
        refsAll (before.map Subtrie.pointer))
      changed)
    (newID : Nat) :
    Runs (allocate (.node
        ⟨.internalNode, newID, (before ++ rest.toList).map Subtrie.pointer⟩))
          first
      fun address final => heap.next ≤ address ∧
        address ∉ (before ++ rest.toList).flatMap Subtrie.nodes ∧
        Trie final 0 leaf ∧
        (before ++ rest.toList ≠ [] →
          Trie final (height + 1)
            (Subtrie.above address (before ++ rest.toList))) ∧
        Effect heap final (own leaf.address + own address) fun _ => False := by
  have fresh : heap.next ≤ first.next := firstEffect.next_le
  apply runs_allocateNode firstEffect
  intro final isNew others finalEffect
  have effect : Effect heap final (own leaf.address + own first.next) fun _ =>
      False := by
    apply finalEffect.weaken
    · cases rest with
      | none =>
          funext address
          simp only [gainedRest, Option.toList_none, List.append_nil,
            Pi.add_apply, Pi.sub_apply, Pi.zero_apply]
          ring
      | some new =>
          have different := copies new (by simp)
          funext address
          simp only [gainedRest, gained, if_neg different, Option.toList_some,
            List.map_append, List.map_cons, List.map_nil, Subtrie.pointer,
            refsAll_append, refsAll_cons, refsAll_nil, refs_pointer,
            Pi.add_apply, Pi.sub_apply, Pi.zero_apply]
          ring
    · exact fun address _ isChanged => unchanged address isChanged
  have finalExcess : ∀ address,
      own leaf.address address ≤ final.excess address := by
    intro address
    have := context.owned.le_excess address
    have := context.owned.nonneg address
    have := own_nonneg first.next address
    rw [effect.excess, Pi.add_apply]
    omega
  have finalNonneg : ∀ address, 0 ≤ final.excess address :=
    fun address => (own_nonneg _ _).trans (finalExcess address)
  have inFirst : ∀ {height' : Nat} {part : Subtrie}, Trie mid height' part →
      ∀ address ∈ part.nodes, address < first.next := by
    intro height' part isPart
    exact (isPart.of_objects fun address _ =>
      congrFun sameFirst address).nodes_lt
  have sameRest : ∀ {height' : Nat} {part : Subtrie}, Trie mid height' part →
      ∀ address ∈ part.nodes, final.object? address = mid.object? address := by
    intro height' part isPart address isNode
    rw [others address (Nat.ne_of_lt (inFirst isPart address isNode)),
      sameFirst]
  refine ⟨fresh, ?_, ?_, ?_, effect⟩
  · intro isIn
    rw [List.flatMap_append, List.mem_append] at isIn
    cases isIn with
    | inl isBefore =>
        have below :=
          context.isTrie.nodes_lt _ (context.mem_before_nodes isBefore).1
        exact absurd below (Nat.not_lt.mpr fresh)
    | inr isRest =>
        obtain ⟨part, isPart, isNode⟩ := List.mem_flatMap.mp isRest
        exact absurd (inFirst (context.popped.isTrie part isPart) _ isNode)
          (Nat.lt_irrefl _)
  · exact context.popped.isLeaf.of_objects (sameRest context.popped.isLeaf)
  · apply context.trie_above effect finalNonneg isNew
    · exact fun _ _ never => never
    · intro address isNode
      obtain ⟨part, isPart, isNode⟩ := List.mem_flatMap.mp isNode
      exact sameRest (context.popped.isTrie part isPart) address isNode

/-- What is left where the node keeps a child. -/
theorem popped_above
    {final : VectorHeap}
    {self : Address}
    {changed' : Address → Prop}
    (isLeaf : Trie final 0 leaf)
    (isAbove :
      Trie final (height + 1) (Subtrie.above self (before ++ rest.toList)))
    (apart : self ∉ (before ++ rest.toList).flatMap Subtrie.nodes)
    (selfOrFresh : (reusable = true ∧ self = trie.address) ∨ heap.next ≤ self)
    (effect : Effect heap final (own leaf.address + gained trie.address self)
      changed')
    (inPlace : ∀ address, changed' address →
      reusable = true ∧ (changed address ∨ address = trie.address)) :
    Popped heap final (height + 1) trie reusable
      (some (Subtrie.above self (before ++ rest.toList))) leaf changed' := by
  have selfMem : self ∈ trie.nodes ∨ heap.next ≤ self := by
    refine selfOrFresh.imp_left ?_
    rintro ⟨_, rfl⟩
    exact context.isTrie.address_mem_nodes
  have leafNotRoot : leaf.address ≠ trie.address := by
    intro same
    apply context.inner.address_notMem_part context.nodup
    rw [← same]
    exact context.popped.leaf_mem
  have single : (some (Subtrie.above self (before ++ rest.toList))).toList =
      [Subtrie.above self (before ++ rest.toList)] := rfl
  have nodes :
      (some (Subtrie.above self (before ++ rest.toList))).toList.flatMap
      Subtrie.nodes = self :: (before ++ rest.toList).flatMap
        Subtrie.nodes := by
    simp [Subtrie.above]
  exact {
    isLeaf := isLeaf
    isTrie := by
      intro new isNew
      rw [single, List.mem_singleton] at isNew
      rwa [isNew]
    elements := by
      rw [context.elements, single]
      simp [Subtrie.above]
    nodup := by
      rw [nodes, List.nodup_cons]
      exact ⟨apart, context.nodup_parts⟩
    nodes := by
      intro address isNode
      rw [nodes, List.mem_cons] at isNode
      obtain rfl | isIn := isNode
      · exact selfMem
      · exact context.mem_nodes isIn
    apart := by
      rw [nodes, List.mem_cons]
      rintro (same | isIn)
      · obtain ⟨_, isRoot⟩ | fresh := selfOrFresh
        · exact leafNotRoot (same.trans isRoot)
        · have below := context.isTrie.nodes_lt _ context.leaf_mem
          rw [same] at below
          exact absurd below (Nat.not_lt.mpr fresh)
      · exact context.leaf_apart isIn
    leaf_mem := context.leaf_mem
    leaf_last := context.leaf_last
    effect := effect
    changed_nodes := by
      intro address isChanged
      obtain wasChanged | rfl := (inPlace address isChanged).2
      · exact ⟨context.inner.mem_nodes address (context.changed_mem wasChanged),
          (context.popped.changed_nodes address wasChanged).2⟩
      · exact ⟨context.isTrie.address_mem_nodes, leafNotRoot.symm⟩
    copied := by
      intro notReusable address isChanged
      rw [(inPlace address isChanged).1] at notReusable
      cases notReusable
    copies := by
      intro notReusable new isNew
      rw [single, List.mem_singleton] at isNew
      rw [isNew]
      refine selfOrFresh.resolve_left ?_
      rintro ⟨isReusable, _⟩
      rw [isReusable] at notReusable
      cases notReusable }

end Popping

/-! ## The recursion -/

/-- What was copied is right for a caller that allows reuse. -/
theorem Popped.weaken
    {heap after : VectorHeap}
    {height : Nat}
    {trie leaf : Subtrie}
    {reusable allowsReuse : Bool}
    {rest : Option Subtrie}
    {changed : Address → Prop}
    (popped : Popped heap after height trie reusable rest leaf changed)
    (allowed : reusable = true → allowsReuse = true) :
    Popped heap after height trie allowsReuse rest leaf changed := by
  have notReusable : allowsReuse = false → reusable = false := by
    intro notAllowed
    by_contra isReusable
    rw [allowed (by simpa using isReusable)] at notAllowed
    cases notAllowed
  exact {
    popped with
    copied := fun notAllowed => popped.copied (notReusable notAllowed)
    copies := fun notAllowed => popped.copies (notReusable notAllowed) }

/-- `popTail` at a height pops the last leaf of every subtrie that somebody
keeps alive. -/
def PopsAt (height vectorTransientID : Nat) : Prop :=
  ∀ (heap : VectorHeap) (trie : Subtrie) (held : Address → Int)
    (allowsReuse : Bool),
    Trie heap height trie → trie.nodes.Nodup → Owned heap held →
    Pinned heap held (· ∈ trie.nodes) trie.address →
    Runs (popTail height trie.address allowsReuse vectorTransientID) heap
      fun result after => ∃ rest leaf changed,
        result = (rest.map Subtrie.address, leaf.address) ∧
        Popped heap after height trie allowsReuse rest leaf changed

/-- A leaf is popped whole. -/
theorem popsAt_leaf (vectorTransientID : Nat) : PopsAt 0 vectorTransientID := by
  intro heap trie held allowsReuse isTrie nodup owned pinned
  obtain ⟨transientID, leaf⟩ := isTrie
  have isTrie : Trie heap 0 trie := ⟨transientID, leaf⟩
  rw [popTail, popNode]
  apply Runs.bind
  apply runs_loadNode leaf.found
  apply Runs.bind
  apply Runs.retain (Effect.refl heap) leaf.found
  intro final same finalEffect
  apply Runs.pure
  refine ⟨none, trie, fun _ => False, rfl, ?_⟩
  exact {
    isLeaf := isTrie.of_objects fun address _ => congrFun same address
    isTrie := by simp
    elements := by simp
    nodup := by simp
    nodes := by simp
    apart := by simp
    leaf_mem := isTrie.address_mem_nodes
    leaf_last := by
      rw [leaf.nodes]
      rfl
    effect := by simpa [gainedRest] using finalEffect
    changed_nodes := fun _ never => never.elim
    copied := fun _ _ never => never
    copies := by simp }

section Inner

variable
  {heap mid : VectorHeap}
  {height transientID vectorTransientID : Nat}
  {trie last leaf : Subtrie}
  {before : List Subtrie}
  {rest : Option Subtrie}
  {held : Address → Int}
  {changed : Address → Prop}

/-- The node loses its only child. -/
theorem Popping.popped_none
    {reusable : Bool}
    (context :
      Popping heap mid height transientID trie last before rest leaf held
        reusable changed)
    (empty : before ++ rest.toList = [])
    {final : VectorHeap}
    {changed' : Address → Prop}
    (isLeaf : Trie final 0 leaf)
    (effect : Effect heap final (own leaf.address) changed')
    (inPlace : ∀ address, changed' address →
      reusable = true ∧ (changed address ∨ address = trie.address)) :
    Popped heap final (height + 1) trie reusable none leaf changed' where
  isLeaf := isLeaf
  isTrie := by simp
  elements := by
    rw [context.elements, empty]
    simp
  nodup := by simp
  nodes := by simp
  apart := by simp
  leaf_mem := context.leaf_mem
  leaf_last := context.leaf_last
  effect := by simpa [gainedRest] using effect
  changed_nodes := by
    intro address isChanged
    obtain wasChanged | rfl := (inPlace address isChanged).2
    · exact ⟨context.inner.mem_nodes address (context.changed_mem wasChanged),
        (context.popped.changed_nodes address wasChanged).2⟩
    · refine ⟨context.isTrie.address_mem_nodes, fun same => ?_⟩
      apply context.inner.address_notMem_part context.nodup
      rw [same]
      exact context.popped.leaf_mem
  copied := by
    intro notReusable address isChanged
    rw [(inPlace address isChanged).1] at notReusable
    cases notReusable
  copies := by simp

/-- The last child is exchanged or dropped in the node. -/
theorem Popping.runs_inPlace
    (context :
      Popping heap mid height transientID trie last before rest leaf held true
        changed) :
    Runs (popInPlace trie.address last.address
        ⟨.internalNode, transientID, (before ++ [last]).map Subtrie.pointer⟩
        (rest.map Subtrie.address, leaf.address)) mid
      fun result final => ∃ rest',
        result = (rest'.map Subtrie.address, leaf.address) ∧
        Popped heap final (height + 1) trie true rest' leaf
          fun address => changed address ∨ address = trie.address := by
  have dropped : ((before ++ [last]).map Subtrie.pointer).dropLast =
      before.map Subtrie.pointer := by
    simp
  have above : before ++ rest.toList ≠ [] → ∀ {final : VectorHeap},
      Trie final 0 leaf →
      (before ++ rest.toList ≠ [] →
        Trie final (height + 1)
          (Subtrie.above trie.address (before ++ rest.toList))) →
      Effect heap final (own leaf.address)
        (fun address => changed address ∨ address = trie.address) →
      Popped heap final (height + 1) trie true
        (some (Subtrie.above trie.address (before ++ rest.toList))) leaf
        fun address => changed address ∨ address = trie.address := by
    intro nonempty final isLeaf isAbove effect
    exact context.popped_above isLeaf (isAbove nonempty) context.address_notMem
      (.inl ⟨rfl, rfl⟩)
      (by simpa [gained] using effect) (fun _ isChanged => ⟨rfl, isChanged⟩)
  cases rest with
  | some new =>
      have runs :=
        context.stored ((some trie.address : Option Address), leaf.address)
      rw [Option.toList_some, List.map_append] at runs
      unfold popInPlace
      simp only [Option.map_some, dropped]
      apply runs.mono
      rintro result final ⟨rfl, isLeaf, isAbove, effect⟩
      exact ⟨_, rfl, above (by simp) isLeaf isAbove effect⟩
  | none =>
      have runs := context.stored
        ((if before.isEmpty then none else some trie.address : Option Address),
          leaf.address)
      rw [Option.toList_none, List.append_nil] at runs
      unfold popInPlace
      simp only [Option.map_none, dropped, List.isEmpty_map]
      apply runs.mono
      rintro result final ⟨rfl, isLeaf, isAbove, effect⟩
      cases before with
      | nil =>
          exact ⟨none, rfl, context.popped_none rfl isLeaf effect
            fun _ isChanged => ⟨rfl, isChanged⟩⟩
      | cons part before =>
          refine ⟨_, rfl, above (by simp) isLeaf ?_ effect⟩
          simpa using isAbove

/-- A copy of the node gets what is left of the last child, or does without
it. -/
theorem Popping.runs_copied
    (context :
      Popping heap mid height transientID trie last before rest leaf held false
        changed) :
    Runs (popCopy ⟨.internalNode, transientID,
        (before ++ [last]).map Subtrie.pointer⟩
        vectorTransientID (rest.map Subtrie.address, leaf.address)) mid
      fun result final => ∃ rest',
        result = (rest'.map Subtrie.address, leaf.address) ∧
        Popped heap final (height + 1) trie false rest' leaf fun _ =>
          False := by
  have unchanged := context.popped.copied rfl
  have belowLast : ∀ new ∈ rest.toList, new.address ≠ last.address := by
    rintro new isNew same
    have fresh := context.popped.copies rfl new isNew
    have isLast := (context.children last (by simp)).nodes_lt _
      (context.children last (by simp)).address_mem_nodes
    rw [same] at fresh
    exact absurd isLast (Nat.not_lt.mpr fresh)
  have dropped : ((before ++ [last]).map Subtrie.pointer).dropLast =
      before.map Subtrie.pointer := by
    simp
  have found := context.found
  rw [List.map_append] at found
  unfold popCopy
  rw [dropped]
  apply Runs.bind
  apply runs_retainValues context.popped.effect
  · exact present_of_node context.mid_nonneg found (List.subset_append_left _ _)
  intro first sameFirst firstEffect
  have allocates :=
    context.allocated unchanged belowLast sameFirst firstEffect
      vectorTransientID
  have above : ∀ {self : Address} {final : VectorHeap}, heap.next ≤ self →
      self ∉ (before ++ rest.toList).flatMap Subtrie.nodes → Trie final 0 leaf →
      Trie final (height + 1) (Subtrie.above self (before ++ rest.toList)) →
      Effect heap final (own leaf.address + own self) (fun _ => False) →
      Popped heap final (height + 1) trie false
        (some (Subtrie.above self (before ++ rest.toList))) leaf fun _ =>
          False := by
    intro self final fresh apart isLeaf isAbove effect
    have different : self ≠ trie.address := by
      rintro rfl
      exact absurd (Heap.lt_next_of_object context.inner.found)
        (Nat.not_lt.mpr fresh)
    exact context.popped_above isLeaf isAbove apart (.inr fresh)
      (by simpa [gained, different] using effect) (fun _ never => never.elim)
  cases rest with
  | some new =>
      apply Runs.bind
      rw [Option.toList_some, List.map_append] at allocates
      apply allocates.mono
      rintro self final ⟨fresh, apart, isLeaf, isAbove, effect⟩
      apply Runs.pure
      exact ⟨_, rfl, above fresh apart isLeaf (isAbove (by simp)) effect⟩
  | none =>
      apply Runs.bind
      rw [Option.toList_none, List.append_nil] at allocates
      apply allocates.mono
      rintro self final ⟨fresh, apart, isLeaf, isAbove, effect⟩
      rw [List.isEmpty_map]
      cases before with
      | cons part before =>
          apply Runs.pure
          refine ⟨_, rfl, above fresh ?_ isLeaf ?_ effect⟩
          · simpa using apart
          · simpa using isAbove (by simp)
      | nil =>
          simp only [List.isEmpty_nil, if_true]
          have excess := context.owned.le_excess
          have nonneg := context.owned.nonneg
          apply Runs.bind
          apply Runs.release effect
          · intro address
            have := excess address
            have := nonneg address
            have := own_nonneg leaf.address address
            simp only [Pi.add_apply]
            omega
          intro freed _ released freedEffect
          apply Runs.pure
          rw [add_sub_cancel_right] at freedEffect
          refine ⟨none, rfl, ?_⟩
          apply context.popped_none rfl _ freedEffect fun _ never => never.elim
          have freedExcess : ∀ address,
              own leaf.address address ≤ freed.excess address := by
            intro address
            have := excess address
            have := nonneg address
            rw [freedEffect.excess]
            omega
          apply isLeaf.frame released
            (fun address => (own_nonneg _ _).trans (freedExcess address))
            (fun _ _ never => never)
          apply Heap.object_of_owned
          have := freedExcess leaf.address
          rw [own_self] at this
          omega

/-- The last leaf below the last child is popped first. -/
theorem popsAt_inner
    (below : PopsAt height vectorTransientID) :
    PopsAt (height + 1) vectorTransientID := by
  intro heap trie held allowsReuse isTrie nodup owned pinned
  obtain ⟨transientID, parts, inner, children⟩ := isTrie
  obtain ⟨before, last, rfl, _⟩ := inner.packed.exists_last
  have isEntry : ((before ++ [last]).map Subtrie.pointer).getLast? =
      some (.pointer last.address) := by
    simp [Subtrie.pointer]
  rw [popTail, popNode]
  apply Runs.bind
  apply runs_loadNode inner.found
  apply Runs.bind
  apply runs_popsNode inner.found
  generalize isReusable : (allowsReuse && (heap.count trie.address == 1 ||
    (transientID != 0 && transientID == vectorTransientID))) = reusable
  apply Runs.bind
  apply runs_unboxPtr isEntry
  apply Runs.bind
  apply (below heap last held reusable (children last (by simp))
    (inner.part_nodup nodup) owned (inner.pinned nodup pinned)).mono
  rintro _ mid ⟨rest, leaf, changed, rfl, popped⟩
  have context : Popping heap mid height transientID trie last before rest leaf
      held reusable
      changed := ⟨inner, children, nodup, owned, pinned, popped⟩
  cases reusable with
  | false =>
      simp only [Bool.false_eq_true, if_false]
      apply context.runs_copied.mono
      rintro result final ⟨rest', rfl, isPopped⟩
      exact ⟨rest', leaf, _, rfl, isPopped.weaken fun never => by cases never⟩
  | true =>
      rw [Bool.and_eq_true_iff] at isReusable
      simp only [if_true]
      apply context.runs_inPlace.mono
      rintro result final ⟨rest', rfl, isPopped⟩
      exact ⟨rest', leaf, _, rfl, isPopped.weaken fun _ => isReusable.1⟩

end Inner

/-- `popTail` pops the last leaf, at every height. -/
theorem popsAt (height vectorTransientID : Nat) :
    PopsAt height vectorTransientID := by
  induction height with
  | zero => exact popsAt_leaf vectorTransientID
  | succ height inductionHypothesis => exact popsAt_inner inductionHypothesis

end Vector
end Runtime
end ClojureRt
