import ClojureRt.Runtime.VectorSeq.Rules

/-!
# Positions of iterators

An iterator is at a position of a vector when its block is the block of the
position and its index in the block is that of the position.  `iteratorNext`
goes to the next position; at the last one it only counts up.
-/

open ClojureRt.Runtime.Vector
  (PersistentVector PersistentVectorNode Layout Lays addresses blockOf
    getElem?_blockOf)

namespace ClojureRt
namespace Runtime
namespace VectorSeq

open RefCount RefCount.Program
open Sharing (Address RTValue NodeType)

/-- The block of a position. -/
def IsBlock
    (heap : SeqHeap)
    (layout : Layout)
    (position : Nat)
    (block : Address) : Prop :=
  block ∈ layout.nodes ∧ ∃ transientID, (vectors heap).object? block =
    some (.node ⟨.leafNode, transientID, blockOf layout.elements position⟩)

/-- The iterator is at a position of the vector. -/
structure At
    (heap : SeqHeap)
    (it : PersistentVectorIterator)
    (vector : PersistentVector)
    (layout : Layout)
    (position : Nat) : Prop where
  lays : Lays (vectors heap) it.parent vector layout
  inside : position < layout.elements.length
  index : it.index = position
  block : ∃ block ∈ it.block, IsBlock heap layout position block
  blockIndex : it.blockIndex = position % 32

section Iterators

variable
  {heap : SeqHeap}
  {self : Address}
  {it : PersistentVectorIterator}
  {vector : PersistentVector}
  {layout : Layout}
  {position : Nat}

theorem runs_nthBlock
    (lays : Lays (vectors heap) self vector layout)
    (inside : position < layout.elements.length)
    {post : Option Address → SeqHeap → Prop}
    (holds : ∀ block, IsBlock heap layout position block →
      post (some block) heap) :
    Runs (nthBlock self position) heap post := by
  apply runs_reading
  apply lays.runs_nthBlock inside
  intro block transientID isNode found
  exact holds block ⟨isNode, transientID, found⟩

/-- The position of an iterator in a vector that is there as before. -/
theorem At.of_objects
    {after : SeqHeap}
    (isAt : At heap it vector layout position)
    (sameParent : (vectors after).object? it.parent = (vectors heap).object?
      it.parent)
    (same : ∀ address ∈ layout.nodes,
      (vectors after).object? address = (vectors heap).object? address) :
    At after it vector layout position where
  lays := lays_of_objects isAt.lays sameParent same
  inside := isAt.inside
  index := isAt.index
  block := by
    obtain ⟨block, isBlock, isNode, transientID, found⟩ := isAt.block
    exact ⟨block, isBlock, isNode, transientID,
      by rw [same block isNode, found]⟩
  blockIndex := isAt.blockIndex

theorem At.of_vectors
    {after : SeqHeap}
    (isAt : At heap it vector layout position)
    (same : ∀ address,
      (vectors after).object? address = (vectors heap).object? address) :
    At after it vector layout position :=
  isAt.of_objects (same _) fun address _ => same address

/-- The position of an iterator on a heap that only grew. -/
theorem At.of_kept
    {after : SeqHeap}
    (isAt : At heap it vector layout position)
    (kept : ∀ address object, heap.object? address = some object →
      after.object? address = some object) :
    At after it vector layout position where
  lays := lays_of_kept isAt.lays kept
  inside := isAt.inside
  index := isAt.index
  block := by
    obtain ⟨block, isBlock, isNode, transientID, found⟩ := isAt.block
    refine ⟨block, isBlock, isNode, transientID, object_of_node.mpr ?_⟩
    exact kept block _ (object_of_node.mp found)
  blockIndex := isAt.blockIndex

/-- The position in a vector that is reached from references, from which
everything is as before. -/
theorem At.of_reached
    {after : SeqHeap}
    {rest : Address → Int}
    (isAt : At heap it vector layout position)
    (same : ∀ address, Reached heap rest address →
      after.object? address = heap.object? address)
    (reached : Reached heap rest it.parent) :
    At after it vector layout position := by
  apply isAt.of_objects (vectors_eq (same _ reached))
  intro address isNode
  exact vectors_eq (same address (reached_layout isAt.lays reached isNode))

/-- The position of an iterator in a vector that others hold. -/
theorem At.traded
    {after : SeqHeap}
    {taken given rest : Address → Int}
    (isAt : At heap it vector layout position)
    (trade : Trade heap after taken given)
    (nonneg : ∀ other, 0 ≤ rest other)
    (backed : Backed heap (taken + rest))
    (reached : Reached heap rest it.parent) :
    At after it vector layout position :=
  isAt.of_reached (trade.frame rest nonneg backed) reached

/-- The iterator of a vector starts at the first position. -/
theorem runs_iterator
    (lays : Lays (vectors heap) self vector layout)
    (nonempty : 0 < layout.elements.length)
    {post : PersistentVectorIterator → SeqHeap → Prop}
    (holds : ∀ it, it.parent = self → At heap it vector layout 0 →
      post it heap) :
    Runs (iterator self) heap post := by
  unfold iterator
  apply Runs.bind
  apply runs_loadVector lays.found
  rw [if_pos (by rwa [lays.fits.count])]
  apply Runs.bind
  apply runs_nthBlock lays nonempty
  intro block isBlock
  exact Runs.pure
    (holds _ rfl ⟨lays, nonempty, rfl, ⟨block, rfl, isBlock⟩, rfl⟩)

/-- The node that an iterator is in. -/
theorem At.runs_block
    {Result : Type}
    (isAt : At heap it vector layout position)
    {next : PersistentVectorNode → Code Result}
    {post : Result → SeqHeap → Prop}
    (runs : ∀ block transientID, it.block = some block → block ∈ layout.nodes →
      (vectors heap).object? block =
        some (.node
          ⟨.leafNode, transientID, blockOf layout.elements position⟩) →
      Runs (next ⟨.leafNode, transientID, blockOf layout.elements position⟩)
        heap post) :
    Runs (do
      let block ← nonNull it.block
      let node ← loadNode block
      next node) heap post := by
  obtain ⟨block, isBlock, isNode, transientID, found⟩ := isAt.block
  rw [isBlock]
  apply Runs.bind
  apply Runs.pure
  apply Runs.bind
  apply runs_loadNode found
  exact runs block transientID isBlock isNode found

/-- The element at the position. -/
theorem runs_iteratorGet
    (isAt : At heap it vector layout position)
    {value : RTValue}
    (isElement : layout.elements[position]? = some value)
    {post : RTValue → SeqHeap → Prop}
    (holds : ∀ block node, (vectors heap).object? block = some (.node node) →
      value ∈ node.array → post value heap) :
    Runs (iteratorGet it) heap post := by
  unfold iteratorGet
  apply isAt.runs_block
  intro block transientID _ _ found
  have isSlot := getElem?_blockOf layout.elements position
  rw [isElement, ← isAt.blockIndex] at isSlot
  apply runs_slotValue isSlot
  exact holds block _ found (List.mem_of_getElem? isSlot)

/-- Within a block the next position is in the same block. -/
theorem blockOf_succ
    {elements : List RTValue}
    (sameBlock : position % 32 + 1 < 32) :
    blockOf elements (position + 1) = blockOf elements position := by
  have same : (position + 1) / 32 = position / 32 := by omega
  rw [blockOf, blockOf, same]

theorem length_blockOf (elements : List RTValue) (position : Nat) :
    (blockOf elements position).length =
    min 32 (elements.length - 32 * (position / 32)) := by
  rw [blockOf, List.length_take, List.length_drop]

theorem runs_iteratorNext
    (isAt : At heap it vector layout position)
    {post : PersistentVectorIterator → SeqHeap → Prop}
    (atNext : ∀ after, after.parent = it.parent →
      At heap after vector layout (position + 1) →
      post after heap)
    (atEnd : ∀ after, after.parent = it.parent → after.index = position + 1 →
      position + 1 = layout.elements.length → post after heap) :
    Runs (iteratorNext it) heap post := by
  have inside := isAt.inside
  have lengthBlock := length_blockOf layout.elements position
  unfold iteratorNext
  apply isAt.runs_block
  intro block transientID isBlock isNode found
  dsimp only
  rw [isAt.blockIndex, isAt.index]
  split
  · next within =>
      rw [lengthBlock] at within
      have sameBlock : position % 32 + 1 < 32 := by omega
      apply Runs.pure
      refine atNext _ (by rfl) ?_
      refine ⟨isAt.lays,
        by omega, rfl, ⟨block, isBlock, isNode, transientID, ?_⟩, ?_⟩
      · rw [blockOf_succ sameBlock, found]
      · dsimp only
        omega
  · next beyond =>
      rw [lengthBlock] at beyond
      apply Runs.bind
      apply runs_loadVector isAt.lays.found
      rw [isAt.lays.fits.count]
      split
      · next isEnd => exact Runs.pure (atEnd _ rfl rfl isEnd.symm)
      · next more =>
          apply Runs.bind
          apply runs_nthBlock isAt.lays (by omega)
          intro newBlock isNew
          apply Runs.pure
          refine atNext _ (by rfl) ?_
          refine ⟨isAt.lays, by omega, rfl, ⟨newBlock, rfl, isNew⟩, ?_⟩
          dsimp only
          omega

end Iterators

end VectorSeq
end Runtime
end ClojureRt
