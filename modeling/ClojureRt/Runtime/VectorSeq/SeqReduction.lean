import ClojureRt.Runtime.VectorSeq.Iterators
import ClojureRt.Runtime.VectorSeq.NodeReduction

/-!
# The fold over a seq

The reduction of a chunked seq goes along the blocks of the trie from the
position on, and then along the tail.  It retains every element, so that it does
not matter who else holds the vector.  `reduce2` of a vector takes the first
element and reduces the seq from the second one on.
-/

open ClojureRt.Runtime.Vector
  (PersistentVector PersistentVectorNode Layout Lays blockOf addresses wordSub
    refs refs_nonneg refs_pointer refs_immediate)

namespace ClojureRt
namespace Runtime
namespace VectorSeq

open RefCount RefCount.Program
open Sharing (Address RTValue NodeType)

/-! ## The slots of blocks -/

theorem inSlots_range' (array : List RTValue) (start : Nat) :
    InSlots array (List.range' start (array.length - start))
      (array.drop start) := by
  apply List.ext_getElem
  · rw [List.length_map, List.length_map, List.length_range', List.length_drop]
  intro index inRange inDrop
  rw [List.length_map, List.length_drop] at inDrop
  rw [List.getElem_map, List.getElem_map, List.getElem_range',
    List.getElem_drop, Nat.one_mul,
    List.getElem?_eq_getElem (by omega)]

/-- The slots of the elements of a block from a position on. -/
theorem inSlots_block
    {block : List RTValue}
    {position : Nat}
    (full : block.length = 32) :
    InSlots block
      ((List.range' position (32 * (position / 32) + 32 - position)).map
        (· &&& 31))
      (block.drop (position % 32)) := by
  have slots : (List.range' position (32 * (position / 32) + 32 - position)).map
    (· &&& 31) =
      List.range' (position % 32) (block.length - position % 32) := by
    apply List.ext_getElem
    · rw [List.length_map, List.length_range', List.length_range']
      omega
    intro index inRange inBlock
    rw [List.length_range'] at inBlock
    have mask : (position + index) &&& 31 = (position + index) % 32 :=
      Nat.and_two_pow_sub_one_eq_mod _ 5
    rw [List.getElem_map, List.getElem_range', List.getElem_range', Nat.one_mul,
      mask]
    omega
  rw [slots]
  exact inSlots_range' block (position % 32)

/-- A block and what comes after it. -/
theorem drop_eq_block_append
    {elements : List RTValue}
    {position stop : Nat}
    (fits : 32 * (position / 32) + 32 ≤ stop) :
    (elements.take stop).drop position =
      (blockOf elements position).drop (position % 32) ++
        (elements.take stop).drop (32 * (position / 32) + 32) := by
  have start : 32 * (position / 32) + position % 32 = position :=
    Nat.div_add_mod position 32
  have first : ((elements.take stop).drop position).take (32 - position % 32) =
      (blockOf elements position).drop (position % 32) := by
    rw [blockOf, List.drop_take, List.drop_take, List.drop_drop,
      List.take_take, start,
      Nat.min_eq_left (by omega)]
  have second : ((elements.take stop).drop position).drop (32 - position % 32) =
      (elements.take stop).drop (32 * (position / 32) + 32) := by
    rw [List.drop_drop]
    congr 1
    omega
  rw [← first, ← second, List.take_append_drop]

/-! ## The fold -/

section Fold

variable
  {invoke : RTValue → RTValue → Code RTValue}
  {domain : RTValue → Prop}
  {held rest : Address → Int}
  {heap : SeqHeap}
  {self : Address}
  {vector : PersistentVector}
  {layout : Layout}

/-- Where the tail of a vector starts. -/
def tailStart (layout : Layout) : Nat :=
  (layout.root.toList.flatMap Vector.Subtrie.elements).length

theorem take_tailStart (layout : Layout) :
    layout.elements.take (tailStart layout) =
      layout.root.toList.flatMap Vector.Subtrie.elements := by
  rw [Layout.elements, tailStart, List.take_left]

theorem drop_eq_append_tail (layout : Layout) (position : Nat) :
    layout.elements.drop position =
      (layout.elements.take (tailStart layout)).drop position ++
      layout.tail.elements.drop (position - tailStart layout) := by
  rw [take_tailStart, Layout.elements, List.drop_append, tailStart]

theorem runs_reduceBlocks
    (implements : Implements refs held domain .consumes invoke)
    (heldNonneg : ∀ address, 0 ≤ held address)
    (restNonneg : ∀ address, 0 ≤ rest address)
    (lays : Lays (vectors heap) self vector layout)
    (reached : Reached heap rest self)
    {fuel i : Nat}
    {acc : RTValue}
    (enough : tailStart layout - i ≤ fuel)
    (accIn : domain acc)
    (elementsIn : ∀ value ∈ layout.elements, domain value)
    (backed : Backed heap (refs acc + held + rest)) :
    Runs (ChunkedSeq.reduceBlocks invoke self (tailStart layout) fuel i acc)
      heap (Folds refs held domain invoke heap 0 acc
        ((layout.elements.take (tailStart layout)).drop i) 0) := by
  have resultNonneg := result_nonneg heldNonneg
  have atMost : tailStart layout ≤ layout.elements.length := by
    rw [Layout.elements, List.length_append]
    exact Nat.le_add_right _ _
  have finished (beyond : tailStart layout ≤ i) :
      (layout.elements.take (tailStart layout)).drop i = [] := by
    rw [List.drop_eq_nil_iff, List.length_take]
    omega
  have accBacked :=
    (backed.left (resultNonneg acc) restNonneg).of_eq (zero_add _).symm
  induction fuel generalizing heap i acc with
  | zero =>
      rw [finished (by omega)]
      exact Runs.pure
        (Folds.nil resultNonneg accIn (Trade.refl heap 0) accBacked)
  | succ fuel inductionHypothesis =>
      rw [ChunkedSeq.reduceBlocks]
      split
      · next before =>
          obtain ⟨blocks, isBlocks⟩ := lays.dvd_offset
          have isStart : tailStart layout = 32 * blocks := isBlocks
          have mask : i &&& 31 = i % 32 := Nat.and_two_pow_sub_one_eq_mod i 5
          have isEnd : i - (i &&& 31) + 32 = 32 * (i / 32) + 32 := by omega
          have limit :
              (if i - (i &&& 31) + 32 < tailStart layout then i -
              (i &&& 31) + 32
              else tailStart layout) = 32 * (i / 32) + 32 := by
            split
            · exact isEnd
            · omega
          have full : (blockOf layout.elements i).length = 32 := by
            rw [length_blockOf]
            omega
          have blockIn : ∀ value ∈ (blockOf layout.elements i).drop (i % 32),
              domain value := by
            intro value isIn
            exact elementsIn value (List.mem_of_mem_drop (List.mem_of_mem_take
              (List.mem_of_mem_drop isIn)))
          dsimp only
          rw [limit, drop_eq_block_append (by omega)]
          apply Runs.bind
          apply runs_nthBlock lays (by omega)
          rintro block ⟨isNode, transientID, found⟩
          apply Runs.bind
          apply Runs.pure
          apply Runs.bind
          apply (runs_reduceSlots implements heldNonneg restNonneg found
            (reached_layout lays reached isNode) (inSlots_block full) accIn
            blockIn backed).mono
          intro first between folds
          have trade := folds.trade.of_eq (zero_add _) (zero_add _)
          have betweenBacked :=
            trade.backed backed (resultNonneg first.1) restNonneg
          apply Runs.bind
          apply (inductionHypothesis
            (lays_traded lays trade restNonneg backed reached)
            (trade.reached backed restNonneg reached) (by omega) folds.inDomain
            betweenBacked _
            ((betweenBacked.left (resultNonneg _) restNonneg).of_eq
              (zero_add _).symm)).mono
          · intro more after rest
            exact Runs.pure (folds.append resultNonneg rest fun _ => le_rfl)
          · intro beyond
            rw [List.drop_eq_nil_iff, List.length_take]
            omega
      · next beyond =>
          rw [finished (by omega)]
          exact Runs.pure
            (Folds.nil resultNonneg accIn (Trade.refl heap 0) accBacked)

theorem runs_reduceTail_seq
    (implements : Implements refs held domain .consumes invoke)
    (heldNonneg : ∀ address, 0 ≤ held address)
    (restNonneg : ∀ address, 0 ≤ rest address)
    (lays : Lays (vectors heap) self vector layout)
    (reached : Reached heap rest self)
    {startIdx : Nat}
    {acc : RTValue}
    (accIn : domain acc)
    (elementsIn : ∀ value ∈ layout.elements, domain value)
    (backed : Backed heap (refs acc + held + rest)) :
    Runs (ChunkedSeq.reduceTail invoke vector (tailStart layout) startIdx acc)
      heap (Folds refs held domain invoke heap 0 acc
        (layout.tail.elements.drop (startIdx - tailStart layout)) 0) := by
  have resultNonneg := result_nonneg heldNonneg
  obtain ⟨transientID, found⟩ := lays.isTail
  unfold ChunkedSeq.reduceTail
  rw [lays.fits.count, lays.fits.tail]
  split
  · have tailIdx :
      (if startIdx < tailStart layout then 0 else startIdx - tailStart layout) =
        startIdx - tailStart layout := by
      split
      · omega
      · rfl
    have tailIn :
        ∀ value ∈ layout.tail.elements.drop (startIdx - tailStart layout),
        domain value := by
      intro value isIn
      exact elementsIn value
        (List.mem_append_right _ (List.mem_of_mem_drop isIn))
    dsimp only
    rw [tailIdx]
    apply Runs.bind
    apply Runs.pure
    apply Runs.bind
    apply runs_loadNode found
    exact runs_reduceSlots implements heldNonneg restNonneg found
      (reached_layout lays reached layout.tail_mem_nodes) (inSlots_range' _ _)
      accIn tailIn backed
  · next beyond =>
      have finished : layout.tail.elements.drop (startIdx - tailStart layout) =
          [] := by
        rw [Layout.elements, List.length_append] at beyond
        rw [List.drop_eq_nil_iff, tailStart]
        omega
      rw [finished]
      exact Runs.pure (Folds.nil resultNonneg accIn (Trade.refl heap 0)
        ((backed.left (resultNonneg acc) restNonneg).of_eq (zero_add _).symm))

/-- The reduction of a seq is the left fold over the elements from its position
on. -/
theorem ChunkedSeq.runs_reduce
    {f start : RTValue}
    {it : PersistentVectorIterator}
    (implements : Implements refs (refs f) domain .consumes invoke)
    (found : heap.object? self = some (.chunkedSeq it))
    (lays : Lays (vectors heap) it.parent vector layout)
    (startIn : domain start)
    (elementsIn : ∀ value ∈ layout.elements, domain value)
    (backed : Backed heap (own self + (refs start + refs f))) :
    Runs (ChunkedSeq.reduce invoke self f start) heap fun reduction after =>
      Folded refs (refs f) invoke heap start (layout.elements.drop it.index)
        reduction after ∧
        Trade heap after (own self + (refs start + refs f))
          (refs reduction.1) := by
  have selfNonneg := own_nonneg self
  have resultNonneg := result_nonneg (refs_nonneg f)
  have swapped : Backed heap (refs start + refs f + own self) :=
    backed.of_eq (add_comm _ _)
  have reached : Reached heap (own self) it.parent :=
    (Reached.of_own self).referred found (List.mem_singleton_self _)
  obtain ⟨transientID, foundTail⟩ := lays.isTail
  have isStart : wordSub vector.count layout.tail.elements.length =
      tailStart layout :=
    lays.tailOffset
  unfold ChunkedSeq.reduce
  apply Runs.bind
  apply runs_loadChunkedSeq found
  apply Runs.bind
  apply runs_loadVector lays.found
  rw [lays.fits.tail]
  apply Runs.bind
  apply Runs.bind
  apply runs_loadNode foundTail
  apply Runs.pure
  dsimp only
  rw [isStart, drop_eq_append_tail]
  apply Runs.bind
  apply (runs_reduceBlocks implements (refs_nonneg f) selfNonneg lays reached
    le_rfl startIn elementsIn swapped).mono
  intro first between folds
  have trade := folds.trade.of_eq (zero_add _) (zero_add _)
  have betweenBacked := trade.backed swapped (resultNonneg first.1) selfNonneg
  apply Runs.bind
  apply (runs_reduceTail_seq implements (refs_nonneg f) selfNonneg
    (lays_traded lays trade selfNonneg swapped reached)
    (trade.reached swapped selfNonneg reached) folds.inDomain elementsIn
    betweenBacked).mono
  intro rest passed more
  have whole := (folds.append resultNonneg more fun _ => le_rfl).keep selfNonneg
  rw [zero_add] at whole
  exact runs_finish_folds whole backed

/-- The seq is written in place.  Whoever holds it, the vectors are as
before. -/
theorem runs_storeSeq
    {it moved : PersistentVectorIterator}
    (found : heap.object? self = some (.chunkedSeq it))
    (sameParent : moved.parent = it.parent)
    {post : Unit → SeqHeap → Prop}
    (holds : ∀ after, after.object? self = some (.chunkedSeq moved) →
      (∀ address,
        (vectors after).object? address = (vectors heap).object? address) →
      (∀ other, other ≠ self → after.object? other = heap.object? other) →
      after.excess = heap.excess → post () after) :
    Runs (store self (.chunkedSeq moved)) heap post := by
  have samePlain : plain (.chunkedSeq moved) = plain (.chunkedSeq it) :=
    congrArg (fun parent => Vector.Object.other [parent]) sameParent
  apply Runs.store (Effect.refl heap) found
  intro after stored others effect
  apply holds after stored
    (vectors_eq_of_stored found stored others samePlain) others
  funext address
  rw [effect.excess, references_of_plain samePlain, sub_self, add_zero,
    Pi.zero_apply, add_zero]

/-- The write of `reduce2` to the seq, and what happens after it. -/
structure Advanced
    (heap : SeqHeap)
    (address : Address)
    (it : PersistentVectorIterator)
    (taken given last : Address → Int)
    (after : SeqHeap) : Prop where
  stored : ∃ moved written, written.object? address = some (.chunkedSeq moved) ∧
    moved.parent = it.parent ∧ moved.index = it.index + 1 ∧
    (∀ other, other ≠ address → written.object? other = heap.object? other) ∧
    (∀ other, written.excess other = heap.excess other +
      (given other - taken other)) ∧
    Trade written after given last

/-- Before the calls `reduce2` retains the first element and advances the seq,
whoever holds it.  What is left to do is the reduction of the seq from the next
position on. -/
theorem ChunkedSeq.reduce2_eq
    {f : RTValue}
    {it : PersistentVectorIterator}
    {value : RTValue}
    (invoke : RTValue → RTValue → Code RTValue)
    (invokeDynamic : Code RTValue)
    (found : heap.object? self = some (.chunkedSeq it))
    (isAt : At heap it vector layout it.index)
    (isElement : layout.elements[it.index]? = some value)
    (backed : Backed heap (own self + refs f)) :
    ∃ moved written,
      ChunkedSeq.reduce2 invoke invokeDynamic self f heap =
        (if layout.elements.length ≤ it.index + 1 then do
          release self
          releaseValue f
          pure (value, [])
        else ChunkedSeq.reduce invoke self f value) written ∧
      written.object? self = some (.chunkedSeq moved) ∧
      moved.parent = it.parent ∧ moved.index = it.index + 1 ∧
      (∀ other, other ≠ self → written.object? other = heap.object? other) ∧
      (∀ other, written.excess other = heap.excess other + refs value other) ∧
      Lays (vectors written) moved.parent vector layout ∧
      Backed written (own self + (refs value + refs f)) := by
  have inside : ¬ layout.elements.length ≤ it.index :=
    Nat.not_le.mpr isAt.inside
  obtain ⟨_, _, isIt, rfl, rfl⟩ :
    Runs (loadChunkedSeq self) heap fun loaded after =>
      it = loaded ∧ heap = after := runs_loadChunkedSeq found ⟨rfl, rfl⟩
  obtain ⟨_, _, isParent, rfl, rfl⟩ :
    Runs (loadVector it.parent) heap fun loaded after =>
      vector = loaded ∧ heap = after :=
        runs_loadVector isAt.lays.found ⟨rfl, rfl⟩
  obtain ⟨_, _, isFirst, rfl, rfl, block, node, isNode, isIn⟩ :
      Runs (iteratorGet it) heap fun first after => value = first ∧
        heap = after ∧
        ∃ block node, (vectors heap).object? block = some (.node node) ∧
          value ∈ node.array := by
    apply runs_iteratorGet isAt isElement
    exact fun block node isNode isIn => ⟨rfl, rfl, block, node, isNode, isIn⟩
  obtain ⟨_, retained, isRetained, same, retain⟩ :
      Runs (retainValue value) heap fun _ after =>
        after.object? = heap.object? ∧ Trade heap after 0 (refs value) := by
    apply runs_retainValue backed.excess_nonneg
    · intro address isAddress
      refine ⟨block, _, object_of_node.mp isNode, ?_⟩
      exact List.mem_flatMap.mpr ⟨_, isIn, isAddress⟩
    · exact fun _ same trade => ⟨same, trade⟩
  have retainedAt := isAt.of_vectors fun address =>
    vectors_eq (congrFun same address)
  have order : refs value + (own self + refs f) = own self +
    (refs value + refs f) := by abel
  have retainedBacked :=
    (retain.backed (backed.of_eq (zero_add _).symm) (refs_nonneg _)
    (nonneg_add (own_nonneg self) (refs_nonneg f))).of_eq order
  have retainedFound : retained.object? self = some (.chunkedSeq it) := by
    rw [same, found]
  obtain ⟨moved, _, isMoved, rfl, sameParent, isIndex⟩ :
      Runs (iteratorNext it) retained fun moved after =>
        retained = after ∧ moved.parent = it.parent ∧
          moved.index = it.index + 1 := by
    apply runs_iteratorNext retainedAt
    · exact fun moved sameParent movedAt => ⟨rfl, sameParent, movedAt.index⟩
    · exact fun moved sameParent isIndex _ => ⟨rfl, sameParent, isIndex⟩
  -- the seq is written, whoever holds it
  obtain ⟨_, written, isWritten, isStored, vectorsSame, others, excessSame⟩ :
      Runs (store self (.chunkedSeq moved)) retained fun _ written =>
        written.object? self = some (.chunkedSeq moved) ∧
        (∀ address,
          (vectors written).object? address = (vectors retained).object?
          address) ∧
        (∀ other, other ≠ self →
          written.object? other = retained.object? other) ∧
        written.excess = retained.excess :=
    runs_storeSeq retainedFound sameParent
      fun _ stored vectorsSame others excess =>
      ⟨stored, vectorsSame, others, excess⟩
  refine ⟨moved, written, ?_, isStored, sameParent, isIndex, ?_, ?_, ?_, ?_⟩
  · unfold ChunkedSeq.reduce2
    rw [bind_eq isIt, bind_eq isParent, isAt.lays.fits.count, if_neg inside,
      bind_eq isFirst, bind_eq isRetained, bind_eq isMoved, bind_eq isWritten,
      isIndex]
  · intro other distinct
    rw [others other distinct, same]
  · intro other
    rw [excessSame, retain.excess, Pi.zero_apply, sub_zero]
  · rw [sameParent]
    exact lays_of_objects retainedAt.lays (vectorsSame _) fun address _ =>
      vectorsSame address
  · exact ⟨retainedBacked.nonneg,
      fun address => excessSame ▸ retainedBacked.le_excess address⟩

/-- `reduce2` at a position gives the fold from its element on, and advances the
seq. -/
theorem ChunkedSeq.runs_reduce2_at
    {f : RTValue}
    {it : PersistentVectorIterator}
    {value : RTValue}
    (implements : Implements refs (refs f) domain .consumes invoke)
    (invokeDynamic : Code RTValue)
    (found : heap.object? self = some (.chunkedSeq it))
    (isAt : At heap it vector layout it.index)
    (isElement : layout.elements[it.index]? = some value)
    (elementsIn : ∀ value ∈ layout.elements, domain value)
    (backed : Backed heap (own self + refs f)) :
    Runs (ChunkedSeq.reduce2 invoke invokeDynamic self f) heap
      fun reduction after =>
      (∃ begun, Folded refs (refs f) invoke begun value
        (layout.elements.drop (it.index + 1)) reduction after) ∧
        Advanced heap self it (own self + refs f)
          (own self + (refs value + refs f)) (refs reduction.1) after := by
  have valueIn := elementsIn value (List.mem_of_getElem? isElement)
  obtain ⟨moved, written, same, isStored, sameParent, isIndex, others, excess,
    writtenLays,
    writtenBacked⟩ := ChunkedSeq.reduce2_eq invoke invokeDynamic found isAt
      isElement backed
  apply Runs.of_eq same
  have advanced {after : SeqHeap} {last : Address → Int}
      (trade : Trade written after (own self + (refs value + refs f)) last) :
      Advanced heap self it (own self + refs f)
        (own self + (refs value + refs f)) last after := by
    refine ⟨moved, written, isStored, sameParent, isIndex, others,
      fun other => ?_, trade⟩
    rw [excess]
    simp only [Pi.add_apply]
    omega
  split
  · next isEnd =>
      rw [List.drop_eq_nil_iff.mpr isEnd]
      have passed : Folds refs (refs f) domain invoke written (own self) value
          [] (own self)
          (value, []) written :=
        Folds.nil (result_nonneg (refs_nonneg f)) valueIn (Trade.refl written _)
          writtenBacked
      apply (runs_finish_folds passed writtenBacked).mono
      exact fun _ _ finished => ⟨⟨written, finished.1⟩, advanced finished.2⟩
  · apply (ChunkedSeq.runs_reduce implements isStored writtenLays valueIn
      elementsIn writtenBacked).mono
    intro reduction after reduced
    rw [isIndex] at reduced
    exact ⟨⟨written, reduced.1⟩, advanced reduced.2⟩

/-- `reduce2` of a seq is the fold from the element at its position on. -/
theorem ChunkedSeq.runs_reduce2
    {f : RTValue}
    {it : PersistentVectorIterator}
    (implements : Implements refs (refs f) domain .consumes invoke)
    {invokeDynamic : Code RTValue}
    (delivers : Delivers refs (refs f) domain invokeDynamic)
    (found : heap.object? self = some (.chunkedSeq it))
    (lays : Lays (vectors heap) it.parent vector layout)
    (isAt : it.index < layout.elements.length →
      At heap it vector layout it.index)
    (elementsIn : ∀ value ∈ layout.elements, domain value)
    (backed : Backed heap (own self + refs f)) :
    Runs (ChunkedSeq.reduce2 invoke invokeDynamic self f) heap
      (FoldedFirst refs (refs f) invoke invokeDynamic
        (layout.elements.drop it.index)) := by
  rcases lt_or_ge it.index layout.elements.length with inside | beyond
  · rw [List.drop_eq_getElem_cons inside]
    apply (ChunkedSeq.runs_reduce2_at implements invokeDynamic found
      (isAt inside) (List.getElem?_eq_getElem inside) elementsIn backed).mono
    exact fun _ _ reduced => reduced.1
  · unfold ChunkedSeq.reduce2
    apply Runs.bind
    apply runs_loadChunkedSeq found
    apply Runs.bind
    apply runs_loadVector lays.found
    rw [lays.fits.count, if_pos beyond, List.drop_eq_nil_iff.mpr beyond]
    apply Runs.bind
    apply Runs.release_trade (backed.left (own_nonneg self) (refs_nonneg f))
    intro released _ release
    have releasedBacked :=
      release.backed backed (fun _ => le_rfl) (refs_nonneg f)
    apply Runs.bind
    apply (delivers.runs_foldedFirst refs_nonneg (refs_nonneg f)
      (releasedBacked.of_eq (zero_add _))).mono
    exact fun _ _ folded => Runs.pure folded

/-! ## The fold of a vector from its first element on -/

theorem runs_secondPosition
    (lays : Lays (vectors heap) self vector layout)
    (several : 1 < layout.elements.length)
    {post : PersistentVectorIterator → SeqHeap → Prop}
    (holds : ∀ it, it.parent = self → At heap it vector layout 1 →
      post it heap) :
    Runs (secondPosition self) heap post := by
  unfold secondPosition
  apply Runs.bind
  apply runs_iterator lays (by omega)
  intro it isParent isAt
  apply isAt.runs_block
  intro block transientID isBlock isNode found
  have first : it.blockIndex = 0 := isAt.blockIndex
  have length :
      (blockOf layout.elements 0).length = min 32 layout.elements.length :=
    length_blockOf layout.elements 0
  have room : 0 < wordSub (blockOf layout.elements 0).length 1 := by
    rw [wordSub, if_pos (by omega)]
    omega
  rw [if_pos (by rwa [first])]
  apply Runs.pure
  refine holds _ isParent
    ⟨isAt.lays, several, rfl, ⟨block, isBlock, isNode, transientID, ?_⟩, ?_⟩
  · rw [blockOf_succ (by decide), found]
  · exact congrArg (· + 1) first

/-- A seq over a vector that its creator holds. -/
theorem runs_createSeq
    {parent : Address}
    {object : Object}
    (backed : Backed heap (own parent))
    (references : Referencing.references object = [parent])
    {post : Address → SeqHeap → Prop}
    (holds : ∀ new after, after.object? new = some object →
      (∀ other old, heap.object? other = some old →
        after.object? other = some old) →
      Trade heap after (own parent) (own parent + own new) → post new after) :
    Runs (retain parent) heap fun _ retained =>
      Runs (allocate object) retained post := by
  apply Runs.retain_own backed
  intro retained same retain
  apply Runs.allocate_trade
  intro after isNew others allocated
  rw [references, owns_singleton] at allocated
  have kept (other : Address) (old : Object)
      (found : heap.object? other = some old) :
      after.object? other = some old := by
    rw [← same] at found
    rw [others other (Nat.ne_of_lt (Heap.lt_next_of_object found)), found]
  apply holds _ after isNew kept
  exact (retain.andThen allocated (own_nonneg _) (own_nonneg _)).of_eq rfl
    (add_comm _ _)

theorem ChunkedSeq.runs_create
    {it : PersistentVectorIterator}
    (backed : Backed heap (own it.parent))
    {post : Address → SeqHeap → Prop}
    (holds : ∀ new after, after.object? new = some (.chunkedSeq it) →
      (∀ other object, heap.object? other = some object →
        after.object? other = some object) →
      Trade heap after (own it.parent) (own it.parent + own new) →
        post new after) :
    Runs (ChunkedSeq.create it) heap post := by
  unfold ChunkedSeq.create
  apply Runs.bind
  exact runs_createSeq backed rfl holds

/-- Before the calls `reduce2` retains the first element.  A vector of several
elements is left to the reduction of a new seq from the second element on. -/
theorem runs_reduce2_opening
    {f value : RTValue}
    {values : List RTValue}
    (invokeDynamic : Code RTValue)
    (lays : Lays (vectors heap) self vector layout)
    (areElements : layout.elements = value :: values)
    (backed : Backed heap (own self + refs f))
    {post : Reduction → SeqHeap → Prop}
    (single : ∀ taken,
      values = [] → Backed taken (own self + (refs value + refs f)) →
      Runs (do release self; releaseValue f; pure (value, [])) taken post)
    (several : ∀ taken seq it, taken.object? seq = some (.chunkedSeq it) →
      it.index = 1 →
      Lays (vectors taken) it.parent vector layout →
      Backed taken (own seq + (refs value + refs f)) →
      Runs (ChunkedSeq.reduce invoke seq f value) taken post) :
    Runs (reduce2 invoke invokeDynamic self f) heap post := by
  have selfNonneg := own_nonneg self
  have selfBacked := backed.left selfNonneg (refs_nonneg f)
  have isElement : layout.elements[0]? = some value := by rw [areElements]; rfl
  unfold reduce2
  apply Runs.bind
  apply runs_loadVector lays.found
  rw [lays.fits.count, areElements, if_neg (by simp)]
  apply Runs.bind
  apply Runs.retain_own selfBacked
  intro retained same retain
  have retainedLays : Lays (vectors retained) self vector layout :=
    lays_of_objects lays (vectors_eq (congrFun same self)) fun address _ =>
      vectors_eq (congrFun same address)
  have retainedBacked :=
    retain.backed backed (nonneg_add selfNonneg selfNonneg) (refs_nonneg f)
  have firstBacked := (retainedBacked.left (nonneg_add selfNonneg selfNonneg)
    (refs_nonneg f))
  apply Runs.bind
  apply runs_nth retainedLays isElement (firstBacked.left selfNonneg selfNonneg)
  intro taken take
  have takenLays :=
    lays_traded retainedLays take selfNonneg firstBacked (Reached.of_own self)
  have rearranged : own self + own self + refs f = own self +
    (own self + refs f) := by abel
  rw [rearranged] at retainedBacked
  have takenBacked := take.backed retainedBacked (refs_nonneg value)
    (nonneg_add selfNonneg (refs_nonneg f))
  have order : refs value + (own self + refs f) = own self +
    (refs value + refs f) := by abel
  rw [order] at takenBacked
  cases values with
  | nil =>
      rw [if_pos List.length_singleton]
      exact single taken rfl takenBacked
  | cons second values =>
      have isMore : 1 < layout.elements.length := by
        rw [areElements, List.length_cons, List.length_cons]
        omega
      have othersNonneg : ∀ address, 0 ≤ (refs value + refs f) address :=
        nonneg_add (refs_nonneg value) (refs_nonneg f)
      rw [if_neg (by simp)]
      apply Runs.bind
      apply runs_secondPosition takenLays isMore
      intro it isParent isAt
      have owned := takenBacked.left selfNonneg othersNonneg
      rw [← isParent] at owned
      apply Runs.bind
      apply ChunkedSeq.runs_create owned
      intro new created isNew kept create
      have createdLays := lays_of_kept takenLays kept
      rw [isParent] at create
      have newNonneg := own_nonneg new
      have createdBacked := create.backed takenBacked
        (nonneg_add selfNonneg newNonneg) othersNonneg
      have seqBacked :=
        createdBacked.left (nonneg_add selfNonneg newNonneg) othersNonneg
      have restBacked := createdBacked.of_eq (add_assoc _ _ _)
      have restNonneg := nonneg_add newNonneg othersNonneg
      apply Runs.bind
      apply Runs.release_trade (restBacked.left selfNonneg restNonneg)
      intro released _ release
      have releasedBacked :=
        (release.backed restBacked (fun _ => le_rfl) restNonneg).of_eq
        (zero_add _)
      have isSeq := release.frame _ newNonneg seqBacked new (Reached.of_own new)
      rw [isNew] at isSeq
      have parentReached : Reached created (own new) self :=
        (Reached.of_own new).referred isNew
        (isParent ▸ List.mem_singleton_self _)
      have releasedLays :=
        lays_traded createdLays release newNonneg seqBacked parentReached
      rw [← isParent] at releasedLays
      exact several released new it isSeq isAt.index releasedLays releasedBacked

/-- `reduce2` of a vector is the fold from its first element on. -/
theorem runs_reduce2
    {f : RTValue}
    (implements : Implements refs (refs f) domain .consumes invoke)
    {invokeDynamic : Code RTValue}
    (delivers : Delivers refs (refs f) domain invokeDynamic)
    (lays : Lays (vectors heap) self vector layout)
    (elementsIn : ∀ value ∈ layout.elements, domain value)
    (backed : Backed heap (own self + refs f)) :
    Runs (reduce2 invoke invokeDynamic self f) heap
      (FoldedFirst refs (refs f) invoke invokeDynamic layout.elements) := by
  cases areElements : layout.elements with
  | nil =>
      unfold reduce2
      apply Runs.bind
      apply runs_loadVector lays.found
      rw [lays.fits.count, areElements, if_pos List.length_nil]
      apply Runs.bind
      apply Runs.release_trade (backed.left (own_nonneg self) (refs_nonneg f))
      intro released _ release
      have releasedBacked :=
        release.backed backed (fun _ => le_rfl) (refs_nonneg f)
      apply Runs.bind
      apply (delivers.runs_foldedFirst refs_nonneg (refs_nonneg f)
        (releasedBacked.of_eq (zero_add _))).mono
      exact fun _ _ folded => Runs.pure folded
  | cons value values =>
      have valueIn : domain value :=
        elementsIn value (by rw [areElements]; exact .head _)
      apply runs_reduce2_opening invokeDynamic lays areElements backed
      · rintro taken rfl takenBacked
        have passed : Folds refs (refs f) domain invoke taken (own self) value
            [] (own self)
            (value, []) taken :=
          Folds.nil (result_nonneg (refs_nonneg f)) valueIn (Trade.refl taken _)
            takenBacked
        apply (runs_finish_folds passed takenBacked).mono
        exact fun _ _ finished => ⟨taken, finished.1⟩
      · intro taken seq it found isIndex takenLays takenBacked
        apply (ChunkedSeq.runs_reduce implements found takenLays valueIn
          elementsIn takenBacked).mono
        intro reduction after reduced
        rw [isIndex, areElements] at reduced
        exact ⟨taken, reduced.1⟩

end Fold

end VectorSeq
end Runtime
end ClojureRt
