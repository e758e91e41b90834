import ClojureRt.Lib.Trade
import ClojureRt.Runtime.Vector.Reading
import ClojureRt.Runtime.VectorSeq.Defs

/-!
# Rules for sequences

What is known of vectors on their own heap holds of the vectors on the heap of
the seqs, which the seqs only read.  A vector or a subtrie that others hold
stays as it is in a trade, and a write to an object that nothing refers to does
not reach into a subtrie.
-/

open ClojureRt.Runtime.Vector
  (PersistentVector PersistentVectorNode Subtrie Trie Layout Lays IsTail
    addresses refs refs_pointer refs_immediate refs_nonneg
    pointer_mem_references)

namespace ClojureRt
namespace Runtime
namespace VectorSeq

open RefCount RefCount.Program
open Sharing (Address RTValue)

/-! ## The vectors on the heap -/

section Vectors

variable {heap : SeqHeap} {address : Address}

theorem object?_vectors (heap : SeqHeap) (address : Address) :
    (vectors heap).object? address = (heap.object? address).map plain := by
  unfold Heap.object? vectors
  rw [Option.map_map, Option.map_map]
  rfl

theorem references_plain (object : Object) :
    Referencing.references (plain object) = Referencing.references object := by
  cases object <;> rfl

theorem referencesAt_vectors (heap : SeqHeap) (address : Address) :
    (vectors heap).referencesAt address = heap.referencesAt address := by
  unfold Heap.referencesAt
  have cells : (vectors heap).cells address =
      (heap.cells address).map fun cell =>
        ⟨cell.count, plain cell.object⟩ := rfl
  rw [cells]
  cases heap.cells address with
  | none => rfl
  | some cell => exact references_plain cell.object

theorem object_of_node {node : PersistentVectorNode} :
    (vectors heap).object? address = some (.node node) ↔
      heap.object? address = some (.runtime (.node node)) := by
  rw [object?_vectors, Option.map_eq_some_iff]
  constructor
  · rintro ⟨object, found, isNode⟩
    cases object with
    | runtime object =>
        obtain rfl : object = .node node := isNode
        exact found
    | chunkedSeq it => cases isNode
    | reverseSeq seq => cases isNode
    | arrayChunk chunk => cases isNode
  · intro found
    exact ⟨_, found, rfl⟩

theorem object_of_vector {vector : PersistentVector} :
    (vectors heap).object? address = some (.vector vector) ↔
      heap.object? address = some (.runtime (.vector vector)) := by
  rw [object?_vectors, Option.map_eq_some_iff]
  constructor
  · rintro ⟨object, found, isVector⟩
    cases object with
    | runtime object =>
        obtain rfl : object = .vector vector := isVector
        exact found
    | chunkedSeq it => cases isVector
    | reverseSeq seq => cases isVector
    | arrayChunk chunk => cases isVector
  · intro found
    exact ⟨_, found, rfl⟩

/-- An object of the vectors refers to what it refers to on the heap. -/
theorem references_of_vectors
    {object : Vector.Object}
    (found : (vectors heap).object? address = some object) :
    ∃ source, heap.object? address = some source ∧
      Referencing.references source = Referencing.references object := by
  rw [object?_vectors, Option.map_eq_some_iff] at found
  obtain ⟨source, isSource, rfl⟩ := found
  exact ⟨source, isSource, (references_plain source).symm⟩

end Vectors

/-! ## Reading -/

section Reading

variable {heap : SeqHeap} {address : Address}

theorem runs_reading
    {Result : Type}
    {code : Vector.Code Result}
    {post : Result → SeqHeap → Prop}
    (runs : Runs code (vectors heap) fun result _ => post result heap) :
    Runs (reading code) heap post := by
  obtain ⟨result, after, isResult, holds⟩ := runs
  refine ⟨result, heap, ?_, holds⟩
  unfold reading
  rw [isResult]
  rfl

theorem runs_loadNode
    {node : PersistentVectorNode}
    (found : (vectors heap).object? address = some (.node node))
    {post : PersistentVectorNode → SeqHeap → Prop}
    (holds : post node heap) : Runs (loadNode address) heap post :=
  runs_reading (Vector.runs_loadNode found holds)

theorem runs_loadVector
    {vector : PersistentVector}
    (found : (vectors heap).object? address = some (.vector vector))
    {post : PersistentVector → SeqHeap → Prop}
    (holds : post vector heap) : Runs (loadVector address) heap post :=
  runs_reading (Vector.runs_loadVector found holds)

theorem runs_loadChunkedSeq
    {it : PersistentVectorIterator}
    (found : heap.object? address = some (.chunkedSeq it))
    {post : PersistentVectorIterator → SeqHeap → Prop}
    (holds : post it heap) : Runs (loadChunkedSeq address) heap post := by
  unfold loadChunkedSeq
  apply Runs.bind
  apply Runs.load found
  exact Runs.pure holds

theorem runs_slotValue
    {array : List RTValue}
    {slot : Nat}
    {value : RTValue}
    (isSlot : array[slot]? = some value)
    {post : RTValue → SeqHeap → Prop}
    (holds : post value heap) : Runs (slotValue array slot) heap post := by
  unfold slotValue
  rw [isSlot]
  exact Runs.pure holds

theorem runs_retainValue
    (nonneg : ∀ other, 0 ≤ heap.excess other)
    {value : RTValue}
    (refers : ∀ address ∈ addresses value, ∃ source, heap.Refers source address)
    {post : Unit → SeqHeap → Prop}
    (holds : ∀ after, after.object? = heap.object? →
      Trade heap after 0 (refs value) →
      post () after) :
    Runs (retainValue value) heap post := by
  cases value with
  | immediate word =>
      apply Runs.pure
      apply holds heap rfl
      rw [refs_immediate]
      exact Trade.refl heap 0
  | pointer address =>
      rw [refs_pointer] at holds
      obtain ⟨source, isReferred⟩ := refers address List.mem_cons_self
      exact Runs.retain_trade nonneg isReferred holds

theorem runs_releaseValue
    {value : RTValue}
    (backed : Backed heap (refs value))
    {post : Unit → SeqHeap → Prop}
    (holds : ∀ after, Trade heap after (refs value) 0 → post () after) :
    Runs (releaseValue value) heap post := by
  cases value with
  | immediate word =>
      apply Runs.pure
      apply holds heap
      rw [refs_immediate]
      exact Trade.refl heap 0
  | pointer address =>
      rw [refs_pointer] at backed holds
      exact Runs.release_trade backed fun after _ trade => holds after trade

end Reading

/-! ## What is held -/

section Held

variable
  {heap after : SeqHeap}
  {taken given rest : Address → Int}

/-- What an object of the vectors refers to is reached with it. -/
theorem reached_of_vectors
    {source target : Address}
    {object : Vector.Object}
    (reached : Reached heap rest source)
    (found : (vectors heap).object? source = some object)
    (refers : target ∈ Referencing.references object) :
    Reached heap rest target := by
  obtain ⟨sourceObject, isSource, references⟩ := references_of_vectors found
  exact reached.referred isSource (references ▸ refers)

theorem reached_node
    {height : Nat}
    {trie : Subtrie}
    (isTrie : Trie (vectors heap) height trie)
    (reached : Reached heap rest trie.address)
    {address : Address}
    (isNode : address ∈ trie.nodes) : Reached heap rest address := by
  induction height generalizing trie with
  | zero =>
      obtain ⟨transientID, leaf⟩ := isTrie
      rw [leaf.nodes, List.mem_singleton] at isNode
      exact isNode ▸ reached
  | succ height inductionHypothesis =>
      obtain ⟨transientID, parts, inner, children⟩ := isTrie
      rw [inner.nodes, List.mem_cons, List.mem_flatMap] at isNode
      obtain rfl | ⟨part, isPart, isNode⟩ := isNode
      · exact reached
      · apply inductionHypothesis (children part isPart) _ isNode
        exact reached_of_vectors reached inner.found
          (pointer_mem_references isPart)

theorem reached_layout
    {self : Address}
    {vector : PersistentVector}
    {layout : Layout}
    (lays : Lays (vectors heap) self vector layout)
    (reached : Reached heap rest self)
    {address : Address}
    (isNode : address ∈ layout.nodes) : Reached heap rest address := by
  obtain ⟨trie, isRoot, isNode⟩ | rfl := layout.mem_nodes.mp isNode
  · apply reached_node (lays.isTrie trie isRoot) _ isNode
    exact reached_of_vectors reached lays.found
      (Vector.root_mem_references lays.fits isRoot)
  · exact reached_of_vectors reached lays.found
      (Vector.tail_mem_references lays.fits)

theorem vectors_eq
    {address : Address}
    (same : after.object? address = heap.object? address) :
    (vectors after).object? address = (vectors heap).object? address := by
  rw [object?_vectors, object?_vectors, same]

/-- A seq that is written refers to its vector as before. -/
theorem references_of_plain
    {moved object : Object}
    (samePlain : plain moved = plain object) :
    Referencing.references moved = Referencing.references object := by
  rw [← references_plain, samePlain, references_plain]

/-- No vector changes when a seq is written. -/
theorem vectors_eq_of_stored
    {self : Address}
    {moved object : Object}
    (found : heap.object? self = some object)
    (stored : after.object? self = some moved)
    (others : ∀ other, other ≠ self → after.object? other = heap.object? other)
    (samePlain : plain moved = plain object)
    (address : Address) :
    (vectors after).object? address = (vectors heap).object? address := by
  by_cases isSelf : address = self
  · subst isSelf
    rw [object?_vectors, object?_vectors, stored, found, Option.map_some,
      Option.map_some, samePlain]
  · exact vectors_eq (others address isSelf)

/-- A subtrie that others hold. -/
theorem trie_traded
    {height : Nat}
    {trie : Subtrie}
    (isTrie : Trie (vectors heap) height trie)
    (trade : Trade heap after taken given)
    (nonneg : ∀ other, 0 ≤ rest other)
    (backed : Backed heap (taken + rest))
    (reached : Reached heap rest trie.address) :
    Trie (vectors after) height trie := by
  apply isTrie.of_objects
  intro address isNode
  exact vectors_eq
    (trade.frame rest nonneg backed address
    (reached_node isTrie reached isNode))

/-- A vector that is there as before with all its nodes. -/
theorem lays_of_objects
    {self : Address}
    {vector : PersistentVector}
    {layout : Layout}
    (lays : Lays (vectors heap) self vector layout)
    (sameSelf : (vectors after).object? self = (vectors heap).object? self)
    (same : ∀ address ∈ layout.nodes,
      (vectors after).object? address = (vectors heap).object? address) :
    Lays (vectors after) self vector layout where
  found := by rw [sameSelf, lays.found]
  fits := lays.fits
  isTrie := by
    intro trie isRoot
    apply (lays.isTrie trie isRoot).of_objects
    intro address isNode
    exact same address (layout.mem_nodes.mpr (.inl ⟨trie, isRoot, isNode⟩))
  isTail := by
    obtain ⟨transientID, isTail⟩ := lays.isTail
    exact ⟨transientID, by rw [same _ layout.tail_mem_nodes, isTail]⟩

/-- A vector on a heap that only grew. -/
theorem lays_of_kept
    {self : Address}
    {vector : PersistentVector}
    {layout : Layout}
    (lays : Lays (vectors heap) self vector layout)
    (kept : ∀ address object, heap.object? address = some object →
      after.object? address = some object) :
    Lays (vectors after) self vector layout := by
  have same {address : Address} {object : Vector.Object}
      (found : (vectors heap).object? address = some object) :
      (vectors after).object? address = (vectors heap).object? address := by
    obtain ⟨source, isSource, _⟩ := references_of_vectors found
    exact vectors_eq ((kept address source isSource).trans isSource.symm)
  apply lays_of_objects lays (same lays.found)
  intro address isNode
  obtain ⟨node, isFound⟩ := lays.nodes_found address isNode
  exact same isFound

/-- `nth` takes a reference to the vector and gives the element. -/
theorem runs_nth
    {self : Address}
    {vector : PersistentVector}
    {layout : Layout}
    {index : Nat}
    {value : RTValue}
    (lays : Lays (vectors heap) self vector layout)
    (isElement : layout.elements[index]? = some value)
    (backed : Backed heap (own self))
    {post : RTValue → SeqHeap → Prop}
    (holds : ∀ after, Trade heap after (own self) (refs value) →
      post value after) :
    Runs (nth self index) heap post := by
  obtain ⟨inside, _⟩ := List.getElem?_eq_some_iff.mp isElement
  unfold nth
  apply Runs.bind
  apply runs_loadVector lays.found
  rw [if_neg (by rw [lays.fits.count]; omega)]
  apply Runs.bind
  apply runs_reading
  apply lays.runs_element isElement
  intro source _ refersFrom
  apply Runs.bind
  apply runs_retainValue backed.excess_nonneg
  · intro address isIn
    have refers := refersFrom address isIn
    rw [referencesAt_vectors] at refers
    exact ⟨source, Heap.refers_of_referencesAt refers⟩
  intro retained _ retain
  have kept := (retain.keep (own_nonneg self)).of_eq (zero_add _) (add_comm _ _)
  have keptBacked :=
    kept.given_backed backed (nonneg_add (own_nonneg self) (refs_nonneg value))
  apply Runs.bind
  apply Runs.release_trade
    (keptBacked.left (own_nonneg self) (refs_nonneg value))
  intro after _ release
  apply Runs.pure
  apply holds after
  apply kept.trans _ keptBacked.nonneg
  exact (release.keep (refs_nonneg value)).of_eq rfl (zero_add _)

/-- A vector that is reached from references, from which everything is as
before. -/
theorem lays_of_reached
    {self : Address}
    {vector : PersistentVector}
    {layout : Layout}
    (lays : Lays (vectors heap) self vector layout)
    (same : ∀ address, Reached heap rest address →
      after.object? address = heap.object? address)
    (reached : Reached heap rest self) :
    Lays (vectors after) self vector layout := by
  apply lays_of_objects lays (vectors_eq (same self reached))
  intro address isNode
  exact vectors_eq (same address (reached_layout lays reached isNode))

/-- A vector that others hold. -/
theorem lays_traded
    {self : Address}
    {vector : PersistentVector}
    {layout : Layout}
    (lays : Lays (vectors heap) self vector layout)
    (trade : Trade heap after taken given)
    (nonneg : ∀ other, 0 ≤ rest other)
    (backed : Backed heap (taken + rest))
    (reached : Reached heap rest self) :
    Lays (vectors after) self vector layout :=
  lays_of_reached lays (trade.frame rest nonneg backed) reached

/-- A node that nothing refers to is not below another. -/
theorem ne_of_unreferenced
    {height : Nat}
    {trie : Subtrie}
    {written : Address}
    (isTrie : Trie (vectors heap) height trie)
    (unreferenced : ∀ source object, heap.object? source = some object →
      written ∉ Referencing.references object)
    (distinct : trie.address ≠ written)
    {address : Address}
    (isNode : address ∈ trie.nodes) : address ≠ written := by
  induction height generalizing trie with
  | zero =>
      obtain ⟨transientID, leaf⟩ := isTrie
      rw [leaf.nodes, List.mem_singleton] at isNode
      exact isNode ▸ distinct
  | succ height inductionHypothesis =>
      obtain ⟨transientID, parts, inner, children⟩ := isTrie
      rw [inner.nodes, List.mem_cons, List.mem_flatMap] at isNode
      obtain rfl | ⟨part, isPart, isNode⟩ := isNode
      · exact distinct
      · apply inductionHypothesis (children part isPart) _ isNode
        rintro rfl
        obtain ⟨source, isSource, references⟩ :=
          references_of_vectors inner.found
        apply unreferenced _ source isSource
        rw [references]
        exact pointer_mem_references isPart

end Held

end VectorSeq
end Runtime
end ClojureRt
