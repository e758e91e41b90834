import ClojureRt.Runtime.VectorSeq.Reduction
import Mathlib.Tactic.Abel

/-!
# The fold over a trie

A node that the code alone refers to is taken apart, and another one is only
read.  In both cases its elements are passed in order, and the references that
were given for it are gone. The references of the reducing function itself are
held during all calls.
-/

open ClojureRt.Runtime.Vector
  (PersistentVector PersistentVectorNode Subtrie Trie Layout Lays IsTail
    addresses refs refsAll refs_pointer refs_immediate refs_nonneg refsAll_nil
    refsAll_cons refsAll_nonneg pointer_mem_references)

namespace ClojureRt
namespace Runtime
namespace VectorSeq

open RefCount RefCount.Program
open Sharing (Address RTValue NodeType)

/-- Values in some slots. -/
def InSlots (array : List RTValue) (slots : List Nat)
    (values : List RTValue) : Prop :=
  slots.map (array[·]?) = values.map some

theorem inSlots_range (array : List RTValue) :
    InSlots array (List.range array.length) array := by
  apply List.ext_getElem?
  intro index
  by_cases inside : index < array.length
  · simp [inside]
  · simp [inside]

theorem InSlots.cons
    {array : List RTValue}
    {slot : Nat}
    {slots : List Nat}
    {values : List RTValue}
    (inSlots : InSlots array (slot :: slots) values) :
    ∃ value rest, values = value :: rest ∧ array[slot]? = some value ∧
      InSlots array slots rest := by
  cases values with
  | nil => cases inSlots
  | cons value rest =>
      unfold InSlots at inSlots
      rw [List.map_cons, List.map_cons, List.cons.injEq] at inSlots
      exact ⟨value, rest, rfl, inSlots.1, inSlots.2⟩

/-- A slot is written that is none of them. -/
theorem InSlots.set
    {array : List RTValue}
    {slot : Nat}
    {slots : List Nat}
    {values : List RTValue}
    (inSlots : InSlots array slots values)
    (distinct : slot ∉ slots)
    (new : RTValue) : InSlots (array.set slot new) slots values := by
  unfold InSlots at inSlots ⊢
  rw [← inSlots]
  apply List.map_congr_left
  intro other isOther
  apply List.getElem?_set_ne
  rintro rfl
  exact distinct isOther

section Fold

variable
  {invoke : RTValue → RTValue → Code RTValue}
  {held : Address → Int}
  {domain : RTValue → Prop}

theorem result_nonneg (heldNonneg : ∀ address, 0 ≤ held address)
    (value : RTValue) :
    ∀ address, 0 ≤ (refs value + held) address :=
  nonneg_add (refs_nonneg value) heldNonneg

/-- The slots of a node that others hold. -/
theorem runs_reduceSlots
    (implements : Implements refs held domain .consumes invoke)
    (heldNonneg : ∀ address, 0 ≤ held address)
    {rest : Address → Int}
    (restNonneg : ∀ address, 0 ≤ rest address)
    {heap : SeqHeap}
    {node : Address}
    {source : PersistentVectorNode}
    {slots : List Nat}
    {values : List RTValue}
    {acc : RTValue}
    (found : (vectors heap).object? node = some (.node source))
    (reached : Reached heap rest node)
    (inSlots : InSlots source.array slots values)
    (accIn : domain acc)
    (valuesIn : ∀ value ∈ values, domain value)
    (backed : Backed heap (refs acc + held + rest)) :
    Runs (reduceSlots invoke node slots acc) heap
      (Folds refs held domain invoke heap 0 acc values 0) := by
  have nothing : ∀ address, 0 ≤ (0 : Address → Int) address := fun _ => le_rfl
  have resultNonneg := result_nonneg heldNonneg
  induction slots generalizing values heap acc with
  | nil =>
      obtain rfl : values = [] := List.map_eq_nil_iff.mp inSlots.symm
      have accBacked := backed.left (resultNonneg acc) restNonneg
      exact Runs.pure (Folds.nil resultNonneg accIn (Trade.refl heap 0)
        (accBacked.of_eq (zero_add _).symm))
  | cons slot slots inductionHypothesis =>
      obtain ⟨value, values, rfl, isSlot, restSlots⟩ := inSlots.cons
      rw [List.forall_mem_cons] at valuesIn
      have accBacked := backed.left (resultNonneg acc) restNonneg
      have argumentsNonneg : ∀ address,
          0 ≤ (refs acc + refs value + held) address :=
        nonneg_add (nonneg_add (refs_nonneg acc) (refs_nonneg value)) heldNonneg
      rw [reduceSlots]
      apply Runs.bind
      apply runs_loadNode found
      apply Runs.bind
      apply runs_slotValue isSlot
      apply Runs.bind
      apply runs_retainValue backed.excess_nonneg
      · intro address isIn
        refine ⟨node, _, object_of_node.mp found, ?_⟩
        exact List.mem_flatMap.mpr ⟨value, List.mem_of_getElem? isSlot, isIn⟩
      intro retained _ retain
      have passed :
          Trade heap retained (refs acc + held)
          (refs acc + refs value + held) := by
        apply (retain.keep (resultNonneg acc)).of_eq (zero_add _)
        abel
      have passedBacked := passed.backed backed argumentsNonneg restNonneg
      apply Runs.bind
      apply implements.runs_call accIn valuesIn.1
        (passedBacked.left argumentsNonneg restNonneg)
      intro next called calls nextIn call
      have trade := passed.trans call argumentsNonneg
      have calledReached := trade.reached backed restNonneg reached
      have calledFound :=
        vectors_eq (trade.frame rest restNonneg backed node reached)
      rw [found] at calledFound
      apply Runs.bind
      apply (inductionHypothesis calledFound calledReached restSlots nextIn
        valuesIn.2 (trade.backed backed (resultNonneg next) restNonneg)).mono
      intro reduction after folds
      apply Runs.pure
      exact Folds.cons resultNonneg (retain.of_eq rfl (zero_add _).symm)
        (accBacked.of_eq (zero_add _).symm) (refs_nonneg value) nothing calls
        call folds

/-- Values that are owned. -/
theorem runs_reduceValues
    (implements : Implements refs held domain .consumes invoke)
    (heldNonneg : ∀ address, 0 ≤ held address)
    {heap : SeqHeap}
    {values : List RTValue}
    {acc : RTValue}
    (accIn : domain acc)
    (valuesIn : ∀ value ∈ values, domain value)
    (backed : Backed heap (refsAll values + (refs acc + held))) :
    Runs (reduceValues invoke values acc) heap
      (Folds refs held domain invoke heap (refsAll values) acc values 0) := by
  have resultNonneg := result_nonneg heldNonneg
  induction values generalizing heap acc with
  | nil =>
      rw [refsAll_nil] at backed ⊢
      exact Runs.pure (Folds.nil resultNonneg accIn (Trade.refl heap 0) backed)
  | cons value values inductionHypothesis =>
      rw [List.forall_mem_cons] at valuesIn
      have same : refsAll (value :: values) + (refs acc + held) =
          refs acc + refs value + held + refsAll values := by
        rw [refsAll_cons]
        abel
      have argumentsNonneg : ∀ address,
          0 ≤ (refs acc + refs value + held) address :=
        nonneg_add (nonneg_add (refs_nonneg acc) (refs_nonneg value)) heldNonneg
      have passedBacked := backed.of_eq same
      rw [reduceValues]
      apply Runs.bind
      apply implements.runs_call accIn valuesIn.1
        (passedBacked.left argumentsNonneg (refsAll_nonneg values))
      intro next called calls nextIn call
      have calledBacked :=
        call.backed passedBacked (resultNonneg next) (refsAll_nonneg values)
      apply Runs.bind
      apply (inductionHypothesis nextIn valuesIn.2
        (calledBacked.of_eq (add_comm _ _))).mono
      intro reduction after folds
      apply Runs.pure
      apply Folds.cons resultNonneg _ backed (refs_nonneg value)
        (refsAll_nonneg values) calls call folds
      apply (Trade.refl heap _).of_eq rfl
      rw [refsAll_cons, add_comm]

/-! ## Leaves -/

@[simp]
theorem owns_references_runtime_node (node : PersistentVectorNode) :
    owns (Referencing.references (Object.runtime (.node node))) =
      refsAll node.array :=
  rfl

/-- A leaf that is taken apart. -/
theorem runs_reduceLeaf_owned
    (implements : Implements refs held domain .consumes invoke)
    (heldNonneg : ∀ address, 0 ≤ held address)
    {heap : SeqHeap}
    {self : Address}
    {node : PersistentVectorNode}
    {acc : RTValue}
    (found : (vectors heap).object? self = some (.node node))
    (isOne : heap.count self = 1)
    (accIn : domain acc)
    (elementsIn : ∀ value ∈ node.array, domain value)
    (backed : Backed heap (own self + (refs acc + held))) :
    Runs (reduceLeaf invoke self node true acc) heap
      (Folds refs held domain invoke heap (own self) acc node.array 0) := by
  have resultNonneg := result_nonneg heldNonneg
  have selfNonneg := own_nonneg self
  have takenNonneg := nonneg_add (refsAll_nonneg node.array) (resultNonneg acc)
  unfold reduceLeaf
  rw [if_pos rfl]
  apply Runs.bind
  apply Runs.store_trade (object_of_node.mp found) isOne
  intro stored _ _ _ trade
  have opened :
      Trade heap stored (own self) (refsAll node.array + own self) := by
    apply (trade 0 fun _ => le_rfl).of_eq (add_zero _)
    rw [owns_references_runtime_node, owns_references_runtime_node, refsAll_nil]
    abel
  have openedBacked :
      Backed stored (refsAll node.array + (refs acc + held) + own self) := by
    apply (opened.backed backed (nonneg_add (refsAll_nonneg _) selfNonneg)
      (resultNonneg acc)).of_eq
    abel
  apply Runs.bind
  apply (runs_reduceValues implements heldNonneg accIn elementsIn
    (openedBacked.left takenNonneg selfNonneg)).mono
  intro reduction passed folds
  have whole := Folds.precede resultNonneg opened backed
    (nonneg_add (refsAll_nonneg _) selfNonneg) (folds.keep selfNonneg)
  have passedBacked := whole.trade.given_backed backed
    (nonneg_add (nonneg_add (fun _ => le_rfl) selfNonneg)
      (resultNonneg reduction.1))
  rw [zero_add] at passedBacked whole
  apply Runs.bind
  apply Runs.release_trade (passedBacked.left selfNonneg (resultNonneg _))
  intro after _ release
  apply Runs.pure
  exact whole.follow resultNonneg release backed selfNonneg

/-- A leaf that others hold. -/
theorem runs_reduceLeaf_shared
    (implements : Implements refs held domain .consumes invoke)
    (heldNonneg : ∀ address, 0 ≤ held address)
    {rest : Address → Int}
    (restNonneg : ∀ address, 0 ≤ rest address)
    {heap : SeqHeap}
    {self : Address}
    {node : PersistentVectorNode}
    {acc : RTValue}
    (found : (vectors heap).object? self = some (.node node))
    (reached : Reached heap rest self)
    (accIn : domain acc)
    (elementsIn : ∀ value ∈ node.array, domain value)
    (backed : Backed heap (refs acc + held + rest)) :
    Runs (reduceLeaf invoke self node false acc) heap
      (Folds refs held domain invoke heap 0 acc node.array 0) :=
  runs_reduceSlots implements heldNonneg restNonneg found reached
    (inSlots_range node.array) accIn elementsIn backed

/-! ## Inner nodes -/

/-- What the reduction of the subtries of a height does: one that is owned is
consumed, and one that others hold is read. -/
structure ReducesTries
    (held : Address → Int)
    (domain : RTValue → Prop)
    (invoke : RTValue → RTValue → Code RTValue)
    (height : Nat)
    (code : Bool → Address → RTValue → Code Reduction) : Prop where
  owned : ∀ (heap : SeqHeap) (trie : Subtrie) (acc : RTValue),
    Trie (vectors heap) height trie → heap.count trie.address = 1 →
    domain acc → (∀ value ∈ trie.elements, domain value) →
    Backed heap (own trie.address + (refs acc + held)) →
    Runs (code true trie.address acc) heap
      (Folds refs held domain invoke heap (own trie.address) acc
        trie.elements 0)
  shared : ∀ (heap : SeqHeap) (trie : Subtrie) (acc : RTValue)
    (rest : Address → Int),
    Trie (vectors heap) height trie → (∀ address, 0 ≤ rest address) →
    Reached heap rest trie.address →
    domain acc → (∀ value ∈ trie.elements, domain value) →
    Backed heap (refs acc + held + rest) →
    Runs (code false trie.address acc) heap
      (Folds refs held domain invoke heap 0 acc trie.elements 0)

/-- The children that a loop comes to are in the slots of a node. -/
structure Children
    (heap : SeqHeap)
    (height : Nat)
    (parent : Address)
    (node : PersistentVectorNode)
    (slots : List Nat)
    (parts : List Subtrie) : Prop where
  found : (vectors heap).object? parent = some (.node node)
  inSlots : InSlots node.array slots (parts.map Subtrie.pointer)
  tries : ∀ part ∈ parts, Trie (vectors heap) height part

namespace Children

variable
  {heap after : SeqHeap}
  {height slot : Nat}
  {parent : Address}
  {node : PersistentVectorNode}
  {slots : List Nat}
  {parts : List Subtrie}
  {part : Subtrie}
  {taken given rest : Address → Int}

theorem refers
    (children : Children heap height parent node slots parts)
    (isPart : part ∈ parts) :
    part.address ∈ Referencing.references (Object.runtime (.node node)) := by
  have isPointer : some part.pointer ∈ (parts.map Subtrie.pointer).map some :=
    List.mem_map_of_mem (List.mem_map_of_mem isPart)
  rw [← children.inSlots] at isPointer
  obtain ⟨slot, _, isSlot⟩ := List.mem_map.mp isPointer
  exact List.mem_flatMap.mpr ⟨part.pointer, List.mem_of_getElem? isSlot,
    List.mem_cons_self⟩

theorem reached
    (children : Children heap height parent node slots parts)
    (isReached : Reached heap rest parent)
    (isPart : part ∈ parts) : Reached heap rest part.address :=
  isReached.referred (object_of_node.mp children.found) (children.refers isPart)

theorem tail
    (children : Children heap height parent node (slot :: slots)
      (part :: parts)) :
    Children heap height parent node slots parts where
  found := children.found
  inSlots := by
    obtain ⟨_, _, same, _, inSlots⟩ := children.inSlots.cons
    rw [List.map_cons, List.cons.injEq] at same
    exact same.2 ▸ inSlots
  tries other isOther := children.tries other (List.mem_cons_of_mem _ isOther)

theorem traded
    (children : Children heap height parent node slots parts)
    (trade : Trade heap after taken given)
    (nonneg : ∀ other, 0 ≤ rest other)
    (backed : Backed heap (taken + rest))
    (isReached : Reached heap rest parent) :
    Children after height parent node slots parts where
  found := by
    rw [vectors_eq (trade.frame rest nonneg backed parent isReached),
      children.found]
  inSlots := children.inSlots
  tries part isPart := trie_traded (children.tries part isPart) trade
    nonneg backed (children.reached isReached isPart)

end Children

theorem refsAll_set
    {array : List RTValue}
    {slot : Nat}
    {old : RTValue}
    (isSlot : array[slot]? = some old) :
    refsAll array = refs old + refsAll (array.set slot boxNull) := by
  induction array generalizing slot with
  | nil => cases isSlot
  | cons value array inductionHypothesis =>
      cases slot with
      | zero =>
          obtain rfl : value = old := Option.some.inj isSlot
          rw [List.set_cons_zero, refsAll_cons, refsAll_cons]
          have none : refs boxNull = 0 := refs_immediate 1
          rw [none, zero_add]
      | succ slot =>
          rw [List.set_cons_succ, refsAll_cons, refsAll_cons,
            inductionHypothesis isSlot]
          abel

/-- The children of a node that others hold. -/
theorem runs_reduceChildren_shared
    {height : Nat}
    {code : Bool → Address → RTValue → Code Reduction}
    (reduces : ReducesTries held domain invoke height code)
    (heldNonneg : ∀ address, 0 ≤ held address)
    {rest : Address → Int}
    (restNonneg : ∀ address, 0 ≤ rest address)
    {heap : SeqHeap}
    {parent : Address}
    {node : PersistentVectorNode}
    {slots : List Nat}
    {parts : List Subtrie}
    {acc : RTValue}
    (children : Children heap height parent node slots parts)
    (reached : Reached heap rest parent)
    (accIn : domain acc)
    (elementsIn : ∀ part ∈ parts, ∀ value ∈ part.elements, domain value)
    (backed : Backed heap (refs acc + held + rest)) :
    Runs (reduceChildren code parent false slots acc) heap
      (Folds refs held domain invoke heap 0 acc (parts.flatMap Subtrie.elements)
        0) := by
  have resultNonneg := result_nonneg heldNonneg
  induction slots generalizing parts heap acc with
  | nil =>
      have none : parts = [] := List.map_eq_nil_iff.mp
        (List.map_eq_nil_iff.mp children.inSlots.symm)
      subst none
      have accBacked := backed.left (resultNonneg acc) restNonneg
      exact Runs.pure (Folds.nil resultNonneg accIn (Trade.refl heap 0)
        (accBacked.of_eq (zero_add _).symm))
  | cons slot slots inductionHypothesis =>
      obtain ⟨_, _, isParts, isSlot, _⟩ := children.inSlots.cons
      cases parts with
      | nil => cases isParts
      | cons part parts =>
          obtain ⟨rfl, rfl⟩ := List.cons.inj isParts
          rw [List.forall_mem_cons] at elementsIn
          rw [reduceChildren]
          apply Runs.bind
          apply runs_loadNode children.found
          apply Runs.bind
          apply runs_slotValue isSlot
          apply Runs.bind
          apply Runs.pure
          apply Runs.bind
          apply Runs.pure
          apply Runs.bind
          apply Runs.pure
          apply Runs.bind
          apply (reduces.shared heap part acc rest
            (children.tries part List.mem_cons_self)
            restNonneg (children.reached reached List.mem_cons_self) accIn
              elementsIn.1
            backed).mono
          intro first between folds
          have trade := folds.trade.of_eq (zero_add _) (zero_add _)
          have betweenBacked :=
            trade.backed backed (resultNonneg first.1) restNonneg
          apply Runs.bind
          apply (inductionHypothesis
            (children.tail.traded trade restNonneg backed reached)
            (trade.reached backed restNonneg reached) folds.inDomain
            elementsIn.2
            betweenBacked).mono
          intro other after more
          apply Runs.pure
          exact folds.append resultNonneg more fun _ => le_rfl

/-- A child is taken out of a node that the code alone refers to. -/
structure TakenOut
    (heap stored : SeqHeap)
    (parent : Address)
    (part : Subtrie) : Prop where
  trade : Trade heap stored (own parent) (own part.address + own parent)
  count : stored.count = heap.count

/-- The child and the parent are owned afterwards. -/
theorem TakenOut.backed
    {heap stored : SeqHeap}
    {parent : Address}
    {part : Subtrie}
    {besides : Address → Int}
    (taken : TakenOut heap stored parent part)
    (besidesNonneg : ∀ address, 0 ≤ besides address)
    (backed : Backed heap (own parent + besides)) :
    Backed stored (own part.address + besides + own parent) := by
  apply (taken.trade.backed backed (nonneg_add (own_nonneg _) (own_nonneg _))
    besidesNonneg).of_eq
  abel

theorem runs_storeTaken
    {height slot : Nat}
    {heap : SeqHeap}
    {parent : Address}
    {node : PersistentVectorNode}
    {slots : List Nat}
    {part : Subtrie}
    {parts : List Subtrie}
    {besides : Address → Int}
    (children : Children heap height parent node (slot :: slots)
      (part :: parts))
    (distinct : slot ∉ slots)
    (isOne : heap.count parent = 1)
    (besidesNonneg : ∀ address, 0 ≤ besides address)
    (backed : Backed heap (own parent + besides))
    {post : Unit → SeqHeap → Prop}
    (holds : ∀ stored, TakenOut heap stored parent part →
      Trie (vectors stored) height part →
      Children stored height parent
        { node with array := node.array.set slot boxNull } slots
        parts → post () stored) :
    Runs (storeWhen true parent
      (.runtime (.node { node with array := node.array.set slot boxNull })))
        heap post := by
  have owned : 1 ≤ heap.excess parent := by
    have := backed.le_excess parent
    have := besidesNonneg parent
    rw [Pi.add_apply, own_self] at *
    omega
  have unreferenced : ∀ source object, heap.object? source = some object →
      parent ∉ Referencing.references object :=
    fun _ _ => unreferenced_of_count_one isOne owned
  obtain ⟨_, _, isParts, isSlot, _⟩ := children.inSlots.cons
  obtain ⟨rfl, rfl⟩ := List.cons.inj isParts
  apply Runs.store_trade (object_of_node.mp children.found) isOne
  intro stored isStored others count trade
  have kept {child : Subtrie} (isChild : child ∈ part :: parts) :
      Trie (vectors stored) height child := by
    have isTrie := children.tries child isChild
    apply isTrie.of_objects
    intro address isNode
    apply vectors_eq
    apply others
    apply ne_of_unreferenced isTrie unreferenced _ isNode
    intro same
    apply unreferenced parent _ (object_of_node.mp children.found)
    exact same ▸ children.refers isChild
  apply holds stored ⟨_, count⟩ (kept List.mem_cons_self)
  · refine ⟨object_of_node.mpr isStored, ?_, fun child isChild =>
      kept (List.mem_cons_of_mem part isChild)⟩
    exact children.tail.inSlots.set distinct boxNull
  · apply (trade 0 fun _ => le_rfl).of_eq (add_zero _)
    rw [owns_references_runtime_node, owns_references_runtime_node,
      refsAll_set isSlot, Subtrie.pointer, refs_pointer]
    abel

/-- The children of a node that the code alone refers to. -/
theorem runs_reduceChildren_owned
    {height : Nat}
    {code : Bool → Address → RTValue → Code Reduction}
    (reduces : ReducesTries held domain invoke height code)
    (heldNonneg : ∀ address, 0 ≤ held address)
    {heap : SeqHeap}
    {parent : Address}
    {node : PersistentVectorNode}
    {slots : List Nat}
    {parts : List Subtrie}
    {acc : RTValue}
    (children : Children heap height parent node slots parts)
    (nodup : slots.Nodup)
    (isOne : heap.count parent = 1)
    (accIn : domain acc)
    (elementsIn : ∀ part ∈ parts, ∀ value ∈ part.elements, domain value)
    (backed : Backed heap (own parent + (refs acc + held))) :
    Runs (reduceChildren code parent true slots acc) heap
      (Folds refs held domain invoke heap (own parent) acc
        (parts.flatMap Subtrie.elements) (own parent)) := by
  have resultNonneg := result_nonneg heldNonneg
  have parentNonneg := own_nonneg parent
  induction slots generalizing parts heap node acc with
  | nil =>
      have none : parts = [] := List.map_eq_nil_iff.mp
        (List.map_eq_nil_iff.mp children.inSlots.symm)
      subst none
      exact Runs.pure (Folds.nil resultNonneg accIn (Trade.refl heap _) backed)
  | cons slot slots inductionHypothesis =>
      obtain ⟨_, _, isParts, isSlot, _⟩ := children.inSlots.cons
      rw [List.nodup_cons] at nodup
      cases parts with
      | nil => cases isParts
      | cons part parts =>
          obtain ⟨rfl, rfl⟩ := List.cons.inj isParts
          rw [List.forall_mem_cons] at elementsIn
          have isTrie := children.tries part List.mem_cons_self
          obtain ⟨object, isObject⟩ := isTrie.exists_object
          -- the child was passed, and the parent is still owned by one reference
          have continues {between : SeqHeap} {first : Reduction}
              {remaining : PersistentVectorNode}
              (folds : Folds refs held domain invoke heap (own parent) acc
                part.elements (own parent) first between)
              (isSole : between.count parent = 1)
              (rest : Children between height parent remaining slots parts) :
              Runs (do
                let rest ← reduceChildren code parent true slots first.1
                pure (rest.1, first.2 ++ rest.2)) between
                (Folds refs held domain invoke heap (own parent) acc
                  ((part :: parts).flatMap Subtrie.elements) (own parent)) := by
            have betweenBacked := folds.trade.given_backed backed
              (nonneg_add parentNonneg (resultNonneg first.1))
            apply Runs.bind
            apply (inductionHypothesis rest nodup.2 isSole folds.inDomain
              elementsIn.2 betweenBacked).mono
            intro other after more
            exact Runs.pure (folds.append resultNonneg more parentNonneg)
          rw [reduceChildren]
          apply Runs.bind
          apply runs_loadNode children.found
          apply Runs.bind
          apply runs_slotValue isSlot
          apply Runs.bind
          apply Runs.pure
          apply Runs.bind
          apply Runs.isReusable (object_of_node.mp isObject)
          cases isReused : heap.count part.address == 1 with
          | true =>
              apply Runs.bind
              apply runs_storeTaken children nodup.1 isOne
                (resultNonneg acc) backed
              intro stored taken storedTrie storedChildren
              have partNonneg := own_nonneg part.address
              have takenNonneg := nonneg_add partNonneg (resultNonneg acc)
              have storedBacked := taken.backed (resultNonneg acc) backed
              have partOne : stored.count part.address = 1 := by
                rw [taken.count]
                exact beq_iff_eq.mp isReused
              apply Runs.bind
              apply (reduces.owned stored part acc storedTrie partOne accIn
                elementsIn.1 (storedBacked.left takenNonneg parentNonneg)).mono
              intro first between folds
              apply continues
              · have whole := Folds.precede resultNonneg taken.trade backed
                  (nonneg_add partNonneg parentNonneg) (folds.keep parentNonneg)
                exact whole.of_eq rfl (zero_add _)
              · apply folds.trade.sole parent
                · have := storedBacked.le_excess parent
                  rw [Pi.add_apply, own_self] at this
                  omega
                · rw [taken.count, isOne]
              · exact storedChildren.traded folds.trade parentNonneg
                  storedBacked (Reached.of_own parent)
          | false =>
              have swapped : Backed heap (refs acc + held + own parent) :=
                backed.of_eq (add_comm _ _)
              have reached : Reached heap (own parent) parent :=
                Reached.of_own parent
              apply Runs.bind
              apply Runs.pure
              apply Runs.bind
              apply (reduces.shared heap part acc (own parent) isTrie
                parentNonneg
                (children.reached reached List.mem_cons_self) accIn elementsIn.1
                swapped).mono
              intro first between folds
              have trade := folds.trade.of_eq (zero_add _) (zero_add _)
              apply continues
              · exact (folds.keep parentNonneg).of_eq (zero_add _) (zero_add _)
              · apply trade.sole parent _ isOne
                have := swapped.le_excess parent
                rw [Pi.add_apply, own_self] at this
                omega
              · exact children.tail.traded trade parentNonneg swapped reached

/-! ## Tries -/

theorem children_of_inner
    {heap : SeqHeap}
    {height transientID : Nat}
    {trie : Subtrie}
    {parts : List Subtrie}
    (inner : Vector.InnerNode (vectors heap) height trie transientID parts)
    (tries : ∀ part ∈ parts, Trie (vectors heap) height part) :
    Children heap height trie.address ⟨.internalNode, transientID,
      parts.map Subtrie.pointer⟩
      (List.range (parts.map Subtrie.pointer).length) parts where
  found := inner.found
  inSlots := inSlots_range _
  tries := tries

theorem reducesTries
    (implements : Implements refs held domain .consumes invoke)
    (heldNonneg : ∀ address, 0 ≤ held address)
    (height : Nat) :
    ReducesTries held domain invoke height (nodeReduce invoke height) := by
  have resultNonneg := result_nonneg heldNonneg
  induction height with
  | zero =>
      constructor
      · intro heap trie acc isTrie isOne accIn elementsIn backed
        obtain ⟨transientID, leaf⟩ := isTrie
        apply Runs.bind
        apply runs_loadNode leaf.found
        exact runs_reduceLeaf_owned implements heldNonneg leaf.found isOne accIn
          elementsIn backed
      · intro heap trie acc rest isTrie restNonneg reached accIn elementsIn backed
        obtain ⟨transientID, leaf⟩ := isTrie
        apply Runs.bind
        apply runs_loadNode leaf.found
        exact runs_reduceLeaf_shared implements heldNonneg restNonneg leaf.found
          reached accIn elementsIn backed
  | succ height inductionHypothesis =>
      constructor
      · intro heap trie acc isTrie isOne accIn elementsIn backed
        obtain ⟨transientID, parts, inner, tries⟩ := isTrie
        have selfNonneg := own_nonneg trie.address
        rw [inner.elements, List.forall_mem_flatMap] at elementsIn
        rw [inner.elements]
        apply Runs.bind
        apply runs_loadNode inner.found
        apply Runs.bind
        apply (runs_reduceChildren_owned inductionHypothesis heldNonneg
          (children_of_inner inner tries) List.nodup_range isOne accIn
          elementsIn backed).mono
        intro reduction passed folds
        have passedBacked := folds.trade.given_backed backed
          (nonneg_add selfNonneg (resultNonneg _))
        apply Runs.bind
        apply Runs.release_trade (passedBacked.left selfNonneg (resultNonneg _))
        intro after _ release
        apply Runs.pure
        exact folds.follow resultNonneg release backed selfNonneg
      · intro heap trie acc rest isTrie restNonneg reached accIn elementsIn backed
        obtain ⟨transientID, parts, inner, tries⟩ := isTrie
        rw [inner.elements, List.forall_mem_flatMap] at elementsIn
        rw [inner.elements]
        apply Runs.bind
        apply runs_loadNode inner.found
        apply Runs.bind
        apply (runs_reduceChildren_shared inductionHypothesis heldNonneg
          restNonneg
          (children_of_inner inner tries) reached accIn elementsIn backed).mono
        intro reduction passed folds
        apply Runs.bind
        apply Runs.pure
        exact Runs.pure folds

/-! ## Vectors -/

@[simp]
theorem owns_references_runtime_vector (vector : PersistentVector) :
    owns (Referencing.references (Object.runtime (.vector vector))) =
      owns vector.root.toList + owns vector.tail.toList +
        refs vector.metadata :=
  Vector.owns_references_vector vector

/-- A header that the code alone refers to is written without one of its
references. -/
theorem runs_storeHeader
    {heap : SeqHeap}
    {self child : Address}
    {vector header : PersistentVector}
    {besides : Address → Int}
    (found : (vectors heap).object? self = some (.vector vector))
    (same : owns (Referencing.references (Object.runtime (.vector vector))) =
      own child +
        owns (Referencing.references (Object.runtime (.vector header))))
    (isOne : heap.count self = 1)
    (besidesNonneg : ∀ address, 0 ≤ besides address)
    (backed : Backed heap (own self + besides))
    {post : Unit → SeqHeap → Prop}
    (holds : ∀ stored, Trade heap stored (own self) (own child + own self) →
      stored.count = heap.count →
      (vectors stored).object? self = some (.vector header) →
      (∀ height trie, Trie (vectors heap) height trie →
        trie.address ∈ Referencing.references
          (Object.runtime (.vector vector)) →
        Trie (vectors stored) height trie) →
      (∀ address node, (vectors heap).object? address = some (.node node) →
        (vectors stored).object? address = some (.node node)) →
          post () stored) :
    Runs (storeWhen true self (.runtime (.vector header))) heap post := by
  have owned : 1 ≤ heap.excess self := by
    have := backed.le_excess self
    have := besidesNonneg self
    rw [Pi.add_apply, own_self] at *
    omega
  have unreferenced : ∀ source object, heap.object? source = some object →
      self ∉ Referencing.references object :=
    fun _ _ => unreferenced_of_count_one isOne owned
  apply Runs.store_trade (object_of_vector.mp found) isOne
  intro stored isStored others count trade
  apply holds stored _ count (object_of_vector.mpr isStored)
  · intro height trie isTrie refers
    apply isTrie.of_objects
    intro address isNode
    apply vectors_eq
    apply others
    apply ne_of_unreferenced isTrie unreferenced _ isNode
    intro same
    exact unreferenced self _ (object_of_vector.mp found) (same ▸ refers)
  · intro address node isNode
    have distinct : address ≠ self := by
      rintro rfl
      rw [found] at isNode
      cases isNode
    rw [vectors_eq (others _ distinct), isNode]
  · apply (trade 0 fun _ => le_rfl).of_eq (add_zero _)
    rw [same]
    abel

/-- The parts of a vector are laid out, whatever its header says about the
count. -/
structure Shaped
    (heap : Vector.VectorHeap)
    (address : Address)
    (vector : PersistentVector)
    (layout : Layout) : Prop where
  found : heap.object? address = some (.vector vector)
  fits : Vector.Fits { vector with count := layout.elements.length } layout
  isTrie : ∀ trie ∈ layout.root.toList, Trie heap layout.height trie
  isTail : IsTail heap layout.tail

/-- A vector is laid out exactly if its parts are, and the count is that of the
elements. -/
theorem lays_iff_shaped
    {heap : Vector.VectorHeap}
    {address : Address}
    {vector : PersistentVector}
    {layout : Layout} :
    Lays heap address vector layout ↔
      Shaped heap address vector layout ∧
        vector.count = layout.elements.length := by
  constructor
  · intro lays
    obtain ⟨count, shift, root, tail⟩ := lays.fits
    exact ⟨⟨lays.found, ⟨rfl, shift, root, tail⟩, lays.isTrie, lays.isTail⟩,
      count⟩
  · rintro ⟨shaped, count⟩
    obtain ⟨_, shift, root, tail⟩ := shaped.fits
    exact ⟨shaped.found, ⟨count, shift, root, tail⟩, shaped.isTrie,
      shaped.isTail⟩

/-- The header of a vector whose trie may be gone. -/
structure TailAt
    (heap : SeqHeap)
    (address : Address)
    (reusable : Bool)
    (header : PersistentVector)
    (tail : Subtrie) : Prop where
  found : (vectors heap).object? address = some (.vector header)
  isTail : IsTail (vectors heap) tail
  field : header.tail = some tail.address
  sole : reusable = true → heap.count address = 1

section Vectors

variable
  {heap after : SeqHeap}
  {self : Address}
  {vector : PersistentVector}
  {layout : Layout}
  {acc : RTValue}
  {reusable : Bool}

theorem TailAt.traded
    {header : PersistentVector}
    {tail : Subtrie}
    {taken given : Address → Int}
    (tailAt : TailAt heap self reusable header tail)
    (trade : Trade heap after taken given)
    (backed : Backed heap (taken + own self)) :
    TailAt after self reusable header tail where
  found := by
    rw [vectors_eq
      (trade.frame _ (own_nonneg self) backed self (Reached.of_own self)),
      tailAt.found]
  isTail := by
    obtain ⟨transientID, foundTail⟩ := tailAt.isTail
    refine ⟨transientID, ?_⟩
    have reached : Reached heap (own self) tail.address := by
      apply reached_of_vectors (Reached.of_own self) tailAt.found
      refine List.mem_append_left _ (List.mem_append_right _ ?_)
      rw [tailAt.field]
      exact List.mem_singleton_self _
    rw [vectors_eq (trade.frame _ (own_nonneg self) backed _ reached),
      foundTail]
  field := tailAt.field
  sole := by
    intro isReusable
    apply trade.sole self _ (tailAt.sole isReusable)
    have := backed.le_excess self
    rw [Pi.add_apply, own_self] at this
    omega

theorem runs_reduceRoot
    (implements : Implements refs held domain .consumes invoke)
    (heldNonneg : ∀ address, 0 ≤ held address)
    (shaped : Shaped (vectors heap) self vector layout)
    (sole : reusable = true → heap.count self = 1)
    (accIn : domain acc)
    (elementsIn : ∀ trie ∈ layout.root.toList, ∀ value ∈ trie.elements,
      domain value)
    (backed : Backed heap (own self + (refs acc + held))) :
    Runs (reduceRoot invoke self reusable acc) heap fun reduction after =>
      Folds refs held domain invoke heap (own self) acc
        (layout.root.toList.flatMap Subtrie.elements) (own self)
        reduction after ∧
      ∃ header, TailAt after self reusable header layout.tail := by
  have resultNonneg := result_nonneg heldNonneg
  have selfNonneg := own_nonneg self
  have tailAt : TailAt heap self reusable vector layout.tail :=
    ⟨shaped.found, shaped.isTail, shaped.fits.tail, sole⟩
  have isHeaderRoot : vector.root = layout.root.map Subtrie.address :=
    shaped.fits.root
  unfold reduceRoot
  apply Runs.bind
  apply runs_loadVector shaped.found
  rw [isHeaderRoot]
  cases isRoot : layout.root with
  | none =>
      exact Runs.pure ⟨Folds.nil resultNonneg accIn (Trade.refl heap _) backed,
        vector, tailAt⟩
  | some trie =>
      have inRoot : trie ∈ layout.root.toList := Option.mem_toList.mpr isRoot
      have isTrie := shaped.isTrie trie inRoot
      have trieIn := elementsIn trie inRoot
      have refers := Vector.root_mem_references shaped.fits inRoot
      have isHeight : vector.shift / 5 = layout.height := by
        have isShift : vector.shift = 5 * layout.height := shaped.fits.shift
        omega
      have whole : (some trie).toList.flatMap Subtrie.elements =
        trie.elements := by simp
      have reduces := reducesTries implements heldNonneg layout.height
      obtain ⟨object, isObject⟩ := isTrie.exists_object
      -- the root is read while the header is held
      have shared :
          Runs (nodeReduce invoke layout.height false trie.address acc) heap
          fun reduction after =>
            Folds refs held domain invoke heap (own self) acc trie.elements
              (own self) reduction after ∧
            ∃ header, TailAt after self reusable header layout.tail := by
        have swapped : Backed heap (refs acc + held + own self) :=
          backed.of_eq (add_comm _ _)
        have reached :=
          reached_of_vectors (Reached.of_own self) shaped.found refers
        apply (reduces.shared heap trie acc (own self) isTrie selfNonneg reached
          accIn trieIn swapped).mono
        intro reduction after folds
        refine ⟨(folds.keep selfNonneg).of_eq (zero_add _) (zero_add _),
          vector, ?_⟩
        exact tailAt.traded (folds.trade.of_eq (zero_add _) rfl) swapped
      rw [whole, isHeight]
      apply Runs.bind
      cases reusable with
      | false =>
          apply Runs.pure
          apply Runs.bind
          apply Runs.pure
          exact shared
      | true =>
          apply Runs.isReusable (object_of_node.mp isObject)
          cases isReused : heap.count trie.address == 1 with
          | false =>
              apply Runs.bind
              apply Runs.pure
              exact shared
          | true =>
              apply Runs.bind
              apply runs_storeHeader shaped.found _ (sole rfl)
                (resultNonneg acc) backed
              · intro stored trade count found tries nodes
                have rootNonneg := own_nonneg trie.address
                have takenNonneg := nonneg_add rootNonneg (resultNonneg acc)
                have storedBacked : Backed stored
                    (own trie.address + (refs acc + held) + own self) := by
                  apply (trade.backed backed (nonneg_add rootNonneg selfNonneg)
                    (resultNonneg acc)).of_eq
                  abel
                have storedTail :
                    TailAt stored self true { vector with root := none }
                    layout.tail := by
                  obtain ⟨transientID, isTail⟩ := shaped.isTail
                  refine ⟨found, ⟨transientID, nodes _ _ isTail⟩,
                    shaped.fits.tail, fun _ => ?_⟩
                  rw [count, sole rfl]
                have isOne : stored.count trie.address = 1 := by
                  rw [count]
                  exact beq_iff_eq.mp isReused
                have storedTrie := tries layout.height trie isTrie refers
                apply (reduces.owned stored trie acc storedTrie isOne
                  accIn trieIn (storedBacked.left takenNonneg selfNonneg)).mono
                intro reduction after folds
                have passing := Folds.precede resultNonneg trade backed
                  (nonneg_add rootNonneg selfNonneg) (folds.keep selfNonneg)
                exact ⟨passing.of_eq rfl (zero_add _), _,
                  storedTail.traded folds.trade storedBacked⟩
              · rw [owns_references_runtime_vector,
                  owns_references_runtime_vector, isHeaderRoot, isRoot,
                  Vector.owns_none]
                simp only [Option.map_some, Vector.owns_some]
                abel

theorem runs_reduceTail
    (implements : Implements refs held domain .consumes invoke)
    (heldNonneg : ∀ address, 0 ≤ held address)
    {header : PersistentVector}
    {tail : Subtrie}
    (tailAt : TailAt heap self reusable header tail)
    (accIn : domain acc)
    (elementsIn : ∀ value ∈ tail.elements, domain value)
    (backed : Backed heap (own self + (refs acc + held))) :
    Runs (reduceTail invoke self reusable acc) heap
      (Folds refs held domain invoke heap (own self) acc tail.elements
        (own self)) := by
  have resultNonneg := result_nonneg heldNonneg
  have selfNonneg := own_nonneg self
  obtain ⟨transientID, foundTail⟩ := tailAt.isTail
  have refers :
      tail.address ∈ Referencing.references (Vector.Object.vector header) := by
    refine List.mem_append_left _ (List.mem_append_right _ ?_)
    rw [tailAt.field]
    exact List.mem_singleton_self _
  have shared :
      Runs (reduceLeaf invoke tail.address
      ⟨.leafNode, transientID, tail.elements⟩ false
      acc) heap (Folds refs held domain invoke heap (own self) acc tail.elements
        (own self)) := by
    have swapped : Backed heap (refs acc + held + own self) :=
      backed.of_eq (add_comm _ _)
    have reached := reached_of_vectors (Reached.of_own self) tailAt.found refers
    apply (runs_reduceLeaf_shared implements heldNonneg selfNonneg foundTail
      reached accIn elementsIn swapped).mono
    intro reduction after folds
    exact (folds.keep selfNonneg).of_eq (zero_add _) (zero_add _)
  unfold reduceTail
  apply Runs.bind
  apply runs_loadVector tailAt.found
  rw [tailAt.field]
  apply Runs.bind
  cases reusable with
  | false =>
      apply Runs.pure
      apply Runs.bind
      apply runs_loadNode foundTail
      apply Runs.bind
      apply Runs.pure
      exact shared
  | true =>
      apply Runs.isReusable (object_of_node.mp foundTail)
      apply Runs.bind
      apply runs_loadNode foundTail
      cases isReused : heap.count tail.address == 1 with
      | false =>
          apply Runs.bind
          apply Runs.pure
          exact shared
      | true =>
          apply Runs.bind
          apply runs_storeHeader tailAt.found _ (tailAt.sole rfl)
            (resultNonneg acc) backed
          · intro stored trade count _ _ nodes
            have tailNonneg := own_nonneg tail.address
            have storedBacked : Backed stored
                (own tail.address + (refs acc + held) + own self) := by
              apply (trade.backed backed (nonneg_add tailNonneg selfNonneg)
                (resultNonneg acc)).of_eq
              abel
            have isOne : stored.count tail.address = 1 := by
              rw [count]
              exact beq_iff_eq.mp isReused
            apply (runs_reduceLeaf_owned implements heldNonneg
              (nodes _ _ foundTail) isOne accIn elementsIn
                (storedBacked.left (nonneg_add tailNonneg (resultNonneg acc))
                selfNonneg)).mono
            intro reduction after folds
            have passing := Folds.precede resultNonneg trade backed
              (nonneg_add tailNonneg selfNonneg) (folds.keep selfNonneg)
            exact passing.of_eq rfl (zero_add _)
          · rw [owns_references_runtime_vector, owns_references_runtime_vector,
              tailAt.field, Vector.owns_none, Vector.owns_some]
            abel

/-- The end of a reduction: the sequence and the function are released. -/
theorem runs_finish
    {f value : RTValue}
    {reduction : Reduction}
    (backed : Backed heap (own self + (refs value + refs f)))
    {post : Reduction → SeqHeap → Prop}
    (holds : ∀ released after, Trade heap released (own self) 0 →
      Trade released after (refs f) 0 → post reduction after) :
    Runs (do release self; releaseValue f; pure reduction) heap post := by
  have selfNonneg := own_nonneg self
  have nonneg := result_nonneg (refs_nonneg f) value
  apply Runs.bind
  apply Runs.release_trade (backed.left selfNonneg nonneg)
  intro released _ release
  have releasedBacked :=
    (release.backed backed (fun _ => le_rfl) nonneg).of_eq (zero_add _)
  apply Runs.bind
  apply runs_releaseValue
    (releasedBacked.right (refs_nonneg value) (refs_nonneg f))
  intro after last
  exact Runs.pure (holds released after release last)

/-- A reduction of a sequence ends. -/
theorem runs_finish_folds
    {start f : RTValue}
    {first : SeqHeap}
    {values : List RTValue}
    {reduction : Reduction}
    (folds : Folds refs (refs f) domain invoke first (own self) start values
      (own self) reduction heap)
    (backed : Backed first (own self + (refs start + refs f))) :
    Runs (do release self; releaseValue f; pure reduction) heap
      fun reduction after =>
      Folded refs (refs f) invoke first start values reduction after ∧
        Trade first after (own self + (refs start + refs f))
          (refs reduction.1) := by
  have selfNonneg := own_nonneg self
  have resultNonneg := result_nonneg (refs_nonneg f)
  apply runs_finish (folds.trade.given_backed backed
    (nonneg_add selfNonneg (resultNonneg reduction.1)))
  intro released after release last
  exact (folds.follow resultNonneg release backed selfNonneg).finish backed
    refs_nonneg (refs_nonneg f) last

/-- `reduce` is the left fold over the elements of the vector. -/
theorem runs_reduce
    {f start : RTValue}
    (implements : Implements refs (refs f) domain .consumes invoke)
    (shaped : Shaped (vectors heap) self vector layout)
    (startIn : domain start)
    (elementsIn : ∀ value ∈ layout.elements, domain value)
    (backed : Backed heap (own self + (refs start + refs f))) :
    Runs (reduce invoke self f start) heap fun reduction after =>
      Folded refs (refs f) invoke heap start layout.elements reduction after ∧
        Trade heap after (own self + (refs start + refs f))
          (refs reduction.1) := by
  have selfNonneg := own_nonneg self
  have resultNonneg := result_nonneg (refs_nonneg f)
  rw [Layout.elements, List.forall_mem_append,
    List.forall_mem_flatMap] at elementsIn
  unfold reduce
  apply Runs.bind
  apply Runs.isReusable (object_of_vector.mp shaped.found)
  apply Runs.bind
  apply (runs_reduceRoot implements (refs_nonneg f) shaped beq_iff_eq.mp startIn
    elementsIn.1 backed).mono
  rintro first between ⟨folds, header, tailAt⟩
  have betweenBacked := folds.trade.given_backed backed
    (nonneg_add selfNonneg (resultNonneg first.1))
  apply Runs.bind
  apply (runs_reduceTail implements (refs_nonneg f) tailAt folds.inDomain
    elementsIn.2 betweenBacked).mono
  intro rest passed more
  exact runs_finish_folds (folds.append resultNonneg more selfNonneg) backed

end Vectors

end Fold

end VectorSeq
end Runtime
end ClojureRt
