import ClojureRt.Runtime.Vector.Layout
import Mathlib.Algebra.BigOperators.Ring.List

/-!
# Reading a vector

The block of an index is the leaf with the 32 elements around it, or the tail.
What `nth` and the other reading operations give follows from the elements of
the layout alone.
-/

namespace ClojureRt
namespace Runtime
namespace Vector

open RefCount RefCount.Program
open Sharing (Address RTValue NodeType)

/-! ## Blocks -/

/-- The elements of the block of an index. -/
def blockOf (elements : List RTValue) (index : Nat) : List RTValue :=
  (elements.drop (32 * (index / 32))).take 32

theorem getElem?_blockOf (elements : List RTValue) (index : Nat) :
    (blockOf elements index)[index % 32]? = elements[index]? := by
  have remainder : index % 32 < 32 := Nat.mod_lt _ (by decide)
  rw [blockOf, List.getElem?_take_of_lt remainder, List.getElem?_drop,
    Nat.div_add_mod]

/-- A block that lies within the second of three lists. -/
theorem blockOf_middle
    {before middle after : List RTValue}
    {index : Nat}
    (aligned : 32 ∣ before.length)
    (whole : 32 ∣ middle.length)
    (inside : index < middle.length) :
    blockOf (before ++ middle ++ after) (before.length + index) =
      blockOf middle index := by
  obtain ⟨count, isCount⟩ := aligned
  obtain ⟨blocks, isBlocks⟩ := whole
  have start : 32 * ((before.length + index) / 32) = before.length +
      32 * (index / 32) := by
    rw [isCount, Nat.mul_add_div (by decide), Nat.mul_add]
  have fits : 32 ≤ (middle.drop (32 * (index / 32))).length := by
    rw [List.length_drop]
    omega
  have below : 32 * (index / 32) ≤ middle.length := by omega
  rw [blockOf, blockOf, start, List.append_assoc, List.drop_length_add_append,
    List.drop_append_of_le_length below, List.take_append_of_le_length fits]

/-- All leaves of a trie are full. -/
theorem Trie.dvd_length
    {heap : VectorHeap}
    {height : Nat}
    {trie : Subtrie}
    (isTrie : Trie heap height trie) : 32 ∣ trie.elements.length := by
  induction height generalizing trie with
  | zero =>
      obtain ⟨transientID, leaf⟩ := isTrie
      rw [leaf.full]
  | succ height inductionHypothesis =>
      obtain ⟨transientID, parts, inner, children⟩ := isTrie
      rw [inner.elements, List.length_flatMap]
      apply List.dvd_sum
      intro length isLength
      obtain ⟨part, isPart, rfl⟩ := List.mem_map.mp isLength
      exact inductionHypothesis (children part isPart)

theorem dvd_capacity (height : Nat) : 32 ∣ capacity height :=
  Dvd.intro_left (32 ^ height) rfl

section Reading

variable
  {heap : VectorHeap}
  {self : Address}
  {vector : PersistentVector}
  {layout : Layout}

/-- The way down ends at the leaf of the index. -/
theorem runs_descend
    {height index : Nat}
    {trie : Subtrie}
    (isTrie : Trie heap height trie)
    (inside : index % capacity height < trie.elements.length)
    {post : Address → VectorHeap → Prop}
    (holds : ∀ block transientID, block ∈ trie.nodes →
      heap.object? block = some (.node
        ⟨.leafNode, transientID,
          blockOf trie.elements (index % capacity height)⟩) →
      post block heap) :
    Runs (descend height trie.address index) heap post := by
  induction height generalizing trie with
  | zero =>
      obtain ⟨transientID, leaf⟩ := isTrie
      have isWhole : blockOf trie.elements (index % capacity 0) =
          trie.elements := by
        have remainder : index % capacity 0 < 32 := Nat.mod_lt _ (by decide)
        rw [blockOf, Nat.div_eq_of_lt remainder, Nat.mul_zero, List.drop_zero,
          List.take_of_length_le (by rw [leaf.full])]
      apply Runs.pure
      apply holds trie.address transientID (by simp [leaf.nodes])
      rw [isWhole, leaf.found]
  | succ height inductionHypothesis =>
      obtain ⟨transientID, parts, inner, children⟩ := isTrie
      obtain ⟨before, part, after, rfl, onPath⟩ :=
        exists_onPath inner children inside
      have full : ∀ other ∈ before,
          other.elements.length = capacity height := by
        intro other isOther
        apply inner.packed.full
        rw [List.dropLast_append_of_ne_nil (by simp)]
        exact List.mem_append_left _ isOther
      rw [descend]
      apply Runs.bind
      apply runs_loadNode inner.found
      apply Runs.bind
      apply runs_unboxPtr
      · rw [← onPath.slot, List.getElem?_map, getElem?_around rfl]
        rfl
      apply inductionHypothesis (children part (by simp)) onPath.inside
      intro block leafID isNode found
      apply holds block leafID (inner.mem_nodes block isNode)
      have sameBlock : blockOf trie.elements (index % capacity (height + 1)) =
          blockOf part.elements (index % capacity height) := by
        rw [inner.elements, onPath.position, List.flatMap_append,
          List.flatMap_cons, ← List.append_assoc]
        apply blockOf_middle _ (children part (by simp)).dvd_length
          onPath.inside
        rw [length_flatMap_full full]
        exact (dvd_capacity height).mul_right _
      rw [sameBlock]
      exact found

namespace Lays

/-- The elements of the trie come before those of the tail. -/
theorem elements_append_tail
    {trie : Subtrie}
    (isRoot : layout.root = some trie) :
    layout.elements = trie.elements ++ layout.tail.elements := by
  simp [Layout.elements, isRoot]

theorem dvd_offset (lays : Lays heap self vector layout) :
    32 ∣ (layout.root.toList.flatMap Subtrie.elements).length := by
  cases isRoot : layout.root with
  | none => simp
  | some trie =>
      have inRoot : trie ∈ layout.root.toList := Option.mem_toList.mpr isRoot
      simpa using (lays.isTrie trie inRoot).dvd_length

/-- The block of an index in the tail is the tail. -/
theorem blockOf_tail
    (lays : Lays heap self vector layout)
    {index : Nat}
    (inTail : wordSub vector.count layout.tail.elements.length ≤ index)
    (inside : index < layout.elements.length) :
    blockOf layout.elements index = layout.tail.elements := by
  obtain ⟨blocks, isBlocks⟩ := lays.dvd_offset
  have atMost := layout.atMost
  rw [lays.tailOffset] at inTail
  rw [Layout.elements, List.length_append] at inside
  have start :
      32 * (index / 32) =
      (layout.root.toList.flatMap Subtrie.elements).length := by
    omega
  rw [blockOf, start, Layout.elements, List.drop_left,
    List.take_of_length_le atMost]

/-- The trie of an index before the tail. -/
theorem exists_root
    (lays : Lays heap self vector layout)
    {index : Nat}
    (before : ¬ wordSub vector.count layout.tail.elements.length ≤ index) :
    ∃ trie, layout.root = some trie ∧ index < trie.elements.length := by
  rw [lays.tailOffset] at before
  cases isRoot : layout.root with
  | none => simp [isRoot] at before
  | some trie => exact ⟨trie, rfl, by simpa [isRoot] using before⟩

/-- The way down from the root, for an index before the tail. -/
theorem runs_descend
    (lays : Lays heap self vector layout)
    {index : Nat}
    (before : ¬ wordSub vector.count layout.tail.elements.length ≤ index)
    {β : Type}
    {next : Address → Code β}
    {post : β → VectorHeap → Prop}
    (holds : ∀ block transientID, block ∈ layout.nodes →
      heap.object? block =
        some (.node ⟨.leafNode, transientID, blockOf layout.elements index⟩) →
      Runs (next block) heap post) :
    Runs (do
      let root ← nonNull vector.root
      let block ← descend (vector.shift / 5) root index
      next block) heap post := by
  obtain ⟨trie, isRoot, inside⟩ := lays.exists_root before
  have inRoot : trie ∈ layout.root.toList := Option.mem_toList.mpr isRoot
  have isTrie := lays.isTrie trie inRoot
  have isHeight : vector.shift / 5 = layout.height := by
    rw [lays.fits.shift]
    omega
  have small : index % capacity layout.height = index :=
    Nat.mod_eq_of_lt (inside.trans_le isTrie.length_bounds.2)
  rw [lays.fits.root, isRoot, isHeight]
  apply Runs.bind
  apply Runs.pure
  apply Runs.bind
  apply Vector.runs_descend isTrie (by rwa [small])
  rw [small]
  intro block transientID isNode found
  have sameBlock :
      blockOf layout.elements index = blockOf trie.elements index := by
    have middle : blockOf ([] ++ trie.elements ++ layout.tail.elements)
        (([] : List RTValue).length + index) = blockOf trie.elements index :=
      blockOf_middle (dvd_zero 32) isTrie.dvd_length inside
    rwa [List.nil_append, List.length_nil, zero_add,
      ← elements_append_tail isRoot] at middle
  apply holds block transientID
    (layout.mem_nodes.mpr (.inl ⟨trie, inRoot, isNode⟩))
  rw [sameBlock]
  exact found

theorem runs_nthBlock
    (lays : Lays heap self vector layout)
    {index : Nat}
    (inside : index < layout.elements.length)
    {post : Option Address → VectorHeap → Prop}
    (holds : ∀ block transientID, block ∈ layout.nodes →
      heap.object? block =
        some (.node ⟨.leafNode, transientID, blockOf layout.elements index⟩) →
      post (some block) heap) :
    Runs (nthBlock self index) heap post := by
  obtain ⟨tailID, foundTail⟩ := lays.isTail
  unfold nthBlock
  apply Runs.bind
  apply runs_loadVector lays.found
  rw [if_neg (by rw [lays.fits.count]; omega), lays.fits.tail]
  apply Runs.bind
  apply Runs.pure
  apply Runs.bind
  apply runs_loadNode foundTail
  by_cases inTail : wordSub vector.count layout.tail.elements.length ≤ index
  · rw [if_pos inTail]
    apply Runs.pure
    apply holds layout.tail.address tailID layout.tail_mem_nodes
    rw [lays.blockOf_tail inTail inside, foundTail]
  · rw [if_neg inTail]
    apply lays.runs_descend inTail
    intro block transientID isNode found
    exact Runs.pure (holds block transientID isNode found)

/-- What `nth` reads is the element at the index. -/
theorem runs_element
    (lays : Lays heap self vector layout)
    {index : Nat}
    {value : RTValue}
    (isElement : layout.elements[index]? = some value)
    {post : RTValue → VectorHeap → Prop}
    (holds : ∀ source, source ∈ layout.nodes →
      (∀ address ∈ addresses value, address ∈ heap.referencesAt source) →
      post value heap) :
    Runs (element vector index) heap post := by
  obtain ⟨inside, _⟩ := List.getElem?_eq_some_iff.mp isElement
  obtain ⟨tailID, foundTail⟩ := lays.isTail
  have inBlock := getElem?_blockOf layout.elements index
  rw [isElement] at inBlock
  have refers {block : Address} {transientID : Nat} {elements : List RTValue}
      (found : heap.object? block =
        some (.node ⟨.leafNode, transientID, elements⟩))
      {slot : Nat} (isSlot : elements[slot]? = some value) :
      ∀ address ∈ addresses value, address ∈ heap.referencesAt block := by
    intro address isIn
    apply mem_referencesAt found
    exact List.mem_flatMap.mpr ⟨value, List.mem_of_getElem? isSlot, isIn⟩
  unfold element
  rw [lays.fits.tail]
  apply Runs.bind
  apply Runs.pure
  apply Runs.bind
  apply runs_loadNode foundTail
  dsimp only
  by_cases inTail : wordSub vector.count layout.tail.elements.length ≤ index
  · have isSlot : layout.tail.elements[index -
        wordSub vector.count layout.tail.elements.length]? = some value := by
      rw [lays.tailOffset] at inTail ⊢
      rwa [Layout.elements, List.getElem?_append_right inTail] at isElement
    rw [if_pos inTail, isSlot]
    exact Runs.pure
      (holds layout.tail.address layout.tail_mem_nodes
      (refers foundTail isSlot))
  · have mask : index &&& 31 = index % 32 :=
      Nat.and_two_pow_sub_one_eq_mod index 5
    rw [if_neg inTail]
    apply lays.runs_descend inTail
    intro block transientID isNode found
    apply Runs.bind
    apply runs_loadNode found
    rw [mask, inBlock]
    exact Runs.pure (holds block isNode (refers found inBlock))

end Lays

end Reading

end Vector
end Runtime
end ClojureRt
