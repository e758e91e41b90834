import ClojureRt.Lib.GivenHeap
import ClojureRt.Runtime.Vector.Conj
import ClojureRt.Runtime.Vector.Reading

/-!
# Popping what was pushed

After a leaf was popped a root that has one child left is replaced by it.  In a
trie that is no higher than its elements need this happens where the push had
put a new root above, so that popping gives the leaf and a trie like the one
before.
-/

namespace ClojureRt
namespace Runtime
namespace Vector

open RefCount RefCount.Program
open Sharing (Address RTValue NodeType)

/-! ## The root after a pop -/

/-- All elements fit below one child of the root. -/
def FitsBelow (height : Nat) (trie : Subtrie) : Prop :=
  ∃ lower, height = lower + 1 ∧ trie.elements.length ≤ capacity lower

/-- The only child of a root has its elements. -/
theorem InnerNode.single
    {heap : VectorHeap}
    {height transientID : Nat}
    {trie child : Subtrie}
    (inner : InnerNode heap height trie transientID [child]) :
    child.elements = trie.elements ∧ child.nodes ⊆ trie.nodes := by
  constructor
  · rw [inner.elements]
    simp
  · intro address isNode
    rw [inner.nodes]
    simp [isNode]

theorem InnerNode.length_eq_one_iff
    {heap : VectorHeap}
    {height transientID : Nat}
    {trie : Subtrie}
    {parts : List Subtrie}
    (inner : InnerNode heap height trie transientID parts)
    (children : ∀ child ∈ parts, Trie heap height child) :
    parts.length = 1 ↔ trie.elements.length ≤ capacity height := by
  obtain ⟨before, last, rfl, full⟩ := inner.packed.exists_last
  have lastBounds := (children last (by simp)).length_bounds
  simp only [inner.elements, List.flatMap_append, List.length_append,
    length_flatMap_full full, List.length_singleton, List.flatMap_cons,
    List.flatMap_nil, List.append_nil]
  cases before with
  | nil => simpa using lastBounds.2
  | cons part before =>
      have many : capacity height ≤ capacity height * (part :: before).length :=
        Nat.le_mul_of_pos_right _ (by simp)
      have := capacity_pos height
      rw [List.length_cons] at many ⊢
      omega

/-- A root that is not the old one is given up. -/
theorem releasedRoot_eq (old new : Address) :
    (if some new != some old then owns (some new).toList else 0) =
    gained old new := by
  unfold gained
  by_cases same : new = old
  · simp [same]
  · simp [same, owns_cons]

/-- A root with one child is replaced by it, and any other one is kept. -/
theorem runs_reduceNodeTree
    {heap : VectorHeap}
    {vector : PersistentVector}
    {height : Nat}
    {old : Address}
    {rest : Option Subtrie}
    (isTrie : ∀ trie ∈ rest.toList, Trie heap height trie)
    (shift : vector.shift = 5 * height)
    (root : vector.root = some old)
    (owned : ∀ address, gainedRest old rest address ≤ heap.excess address) :
    Runs (reduceNodeTree vector (rest.map Subtrie.address)) heap
      fun onlyChild after =>
        (onlyChild = none ∧ after = heap ∧ ∀ trie ∈ rest.toList,
          ¬ FitsBelow height trie) ∨
        ∃ lower trie child, height = lower + 1 ∧ rest = some trie ∧
          trie.elements.length ≤ capacity lower ∧
            onlyChild = some child.address ∧
          Trie heap lower child ∧ child.elements = trie.elements ∧
            child.nodes ⊆ trie.nodes ∧
          (trie.nodes.Nodup → child.nodes.Nodup) ∧
          (∀ address object, after.object? address = some object →
            heap.object? address = some object) ∧
          Effect heap after (own child.address - gainedRest old rest) fun _ =>
            False := by
  cases rest with
  | none => exact Runs.pure (.inl ⟨rfl, rfl, by simp⟩)
  | some trie =>
      have isTrie := isTrie trie (by simp)
      rw [Option.map_some]
      unfold reduceNodeTree
      cases height with
      | zero =>
          obtain ⟨transientID, leaf⟩ := isTrie
          apply Runs.bind
          apply runs_loadNode leaf.found
          rw [if_neg (by omega)]
          refine Runs.pure (.inl ⟨rfl, rfl, ?_⟩)
          rintro _ _ ⟨lower, never, _⟩
          cases never
      | succ lower =>
          obtain ⟨transientID, parts, inner, children⟩ := isTrie
          have fits := inner.length_eq_one_iff children
          apply Runs.bind
          apply runs_loadNode inner.found
          simp only [List.length_map]
          by_cases single : parts.length = 1
          · obtain ⟨child, rfl⟩ := List.length_eq_one_iff.mp single
            rw [if_pos ⟨by omega, single⟩]
            have isChild := children child (by simp)
            obtain ⟨node, found⟩ := isChild.exists_object
            have isEntry : ([child].map Subtrie.pointer).head? =
                some (.pointer child.address) :=
              rfl
            have gains := releasedRoot_eq old trie.address
            rw [← root] at gains
            apply Runs.bind
            apply runs_unboxPtr isEntry
            apply Runs.bind
            apply Runs.retain (Effect.refl heap) found
            intro retained same retainedEffect
            apply Runs.bind
            apply runs_releaseWhen retainedEffect
            · intro released address
              have gained : gained old trie.address address ≤
                heap.excess address := owned address
              have := own_nonneg child.address address
              rw [released, if_pos rfl] at gains
              rw [gains, Pi.add_apply, Pi.zero_apply]
              omega
            intro after kept _ effect
            rw [gains, zero_add] at effect
            apply Runs.pure
            refine .inr ⟨lower, trie, child, rfl, rfl, fits.mp single, rfl,
              isChild,
              inner.single.1, inner.single.2, ?_, ?_, effect⟩
            · have atOnly : InnerNode heap lower trie transientID
                ([] ++ child :: []) := inner
              exact atOnly.part_nodup
            · intro address object isObject
              rw [← same]
              exact kept address object isObject
          · rw [if_neg fun both => single both.2]
            refine Runs.pure (.inl ⟨rfl, rfl, ?_⟩)
            rintro other isOther ⟨lower', sameHeight, few⟩
            rw [Option.toList_some, List.mem_singleton] at isOther
            rw [isOther, ← Nat.succ.inj sameHeight] at few
            exact single (fits.mpr few)

/-! ## Well-shaped tries -/

/-- A trie that is no higher than its elements need. -/
structure WellShaped (heap : VectorHeap) (height : Nat)
    (trie : Subtrie) : Prop where
  isTrie : Trie heap height trie
  nodup : trie.nodes.Nodup
  tight : ∀ lower, height = lower + 1 → capacity lower < trie.elements.length

theorem capacity_mono {low high : Nat} (below : low ≤ high) :
    capacity low ≤ capacity high :=
  Nat.pow_le_pow_right (by decide) (by omega)

/-- The number of elements tells the height. -/
theorem WellShaped.height_le
    {heap heap' : VectorHeap}
    {height height' : Nat}
    {trie trie' : Subtrie}
    (shaped : WellShaped heap height trie)
    (shaped' : WellShaped heap' height' trie')
    (same : trie.elements.length = trie'.elements.length) :
    height ≤ height' := by
  by_contra higher
  obtain ⟨lower, rfl⟩ : ∃ lower, height = lower + 1 := ⟨height - 1, by omega⟩
  have many := shaped.tight lower rfl
  have few := shaped'.isTrie.length_bounds.2
  have := capacity_mono (show height' ≤ lower by omega)
  omega

/-! ## The two steps -/

/-- The push of a full tail in `PersistentVector_conj_internal`. -/
def pushStep (vector : PersistentVector) (tail : Address) (allowsReuse : Bool) :
    Code PersistentVector := do
  let pushed ← pushTail (vector.shift / 5) true vector.root tail allowsReuse
    vector.transientID
  pure { vector with root := some pushed.1, shift := pushedShift vector pushed.2 }

/-- What `PersistentVector_pop_internal` does to the trie. -/
def popStep (vector : PersistentVector) (allowsReuse : Bool) :
    Code PersistentVector := do
  let popped ← popTrie vector allowsReuse
  let onlyChild ← reduceNodeTree vector popped.1
  pure (poppedHeader vector popped.2 popped.1 onlyChild)

section Steps

variable
  {heap : VectorHeap}
  {height : Nat}
  {vector : PersistentVector}
  {trie tail : Subtrie}
  {held : Address → Int}

theorem runs_pushStep
    (shaped : WellShaped heap height trie)
    (isTail : Trie heap 0 tail)
    (apart : tail.address ∉ trie.nodes)
    (root : vector.root = some trie.address)
    (shift : vector.shift = 5 * height)
    (nonneg : ∀ address, 0 ≤ held address)
    (owned : Owned heap (held + own trie.address + own tail.address))
    (allowsReuse : Bool) :
    Runs (pushStep vector tail.address allowsReuse) heap
      fun pushed after => ∃ newHeight new, WellShaped after newHeight new ∧
        pushed.root = some new.address ∧ pushed.shift = 5 * newHeight ∧
        new.elements = trie.elements ++ tail.elements ∧
        new.nodes.getLast? = some tail.address := by
  have isHeight : vector.shift / 5 = height := by omega
  obtain ⟨tailID, leaf⟩ := isTail
  have tailApart : ∀ address ∈ tail.nodes, address ∉ trie.nodes := by
    intro address isNode
    rw [leaf.nodes, List.mem_singleton] at isNode
    rwa [isNode]
  rw [pushStep, isHeight, root]
  apply Runs.bind
  apply (pushesAt height vector.transientID heap trie tail held true allowsReuse
    shaped.isTrie
    ⟨tailID, leaf⟩ (.inl rfl) shaped.nodup tailApart nonneg owned).mono
  rintro ⟨address, copied⟩ after ⟨new, changed, rfl, _, pushed, _⟩
  apply Runs.pure
  refine ⟨if copied || !true then height else height + 1, new,
    ⟨pushed.isTrie, pushed.nodup, ?_⟩,
    rfl, ?_, ?_, pushed.ends⟩
  · exact pushed_tight pushed shaped.tight (by rw [leaf.full]; decide)
  · rw [pushedShift, root, shift]
    cases copied with
    | true => rfl
    | false =>
        simp only [Bool.not_false, Option.isSome_some, Bool.and_true, if_true,
          Bool.not_true, Bool.or_false, Bool.false_eq_true, if_false]
        omega
  · rw [pushed.elements, Bool.or_true, if_pos rfl]

/-- A trie that is left with one child at the root is as high as its elements
need. -/
theorem tight_child
    {after : VectorHeap}
    {lower : Nat}
    {rest leaf child : Subtrie}
    (shaped : WellShaped heap (lower + 1) trie)
    (isRest : Trie after (lower + 1) rest)
    (isLeaf : Trie after 0 leaf)
    (elements : trie.elements = rest.elements ++ leaf.elements)
    (sameElements : child.elements = rest.elements)
    (deeper : Nat)
    (isHigher : lower = deeper + 1) :
    capacity deeper < child.elements.length := by
  obtain ⟨transientID, leafNode⟩ := isLeaf
  have many := shaped.tight lower rfl
  rw [elements, List.length_append, leafNode.full] at many
  have restBlocks := isRest.dvd_length
  have blocks := dvd_capacity lower
  have := capacity_succ deeper
  have := capacity_pos deeper
  rw [sameElements]
  subst isHigher
  omega

theorem runs_popStep
    (shaped : WellShaped heap height trie)
    (root : vector.root = some trie.address)
    (shift : vector.shift = 5 * height)
    (owned : Owned heap held)
    (pinned : Pinned heap held (· ∈ trie.nodes) trie.address)
    (allowsReuse : Bool) :
    Runs (popStep vector allowsReuse) heap
      fun popped after => ∃ leaf, trie.nodes.getLast? = some leaf.address ∧
        popped.tail = some leaf.address ∧ Trie after 0 leaf ∧
        (trie.elements = leaf.elements ∨ ∃ newHeight new,
          WellShaped after newHeight new ∧
          popped.root = some new.address ∧ popped.shift = 5 * newHeight ∧
          trie.elements = new.elements ++ leaf.elements) := by
  have isHeight : vector.shift / 5 = height := by omega
  rw [popStep, popTrie, root]
  simp only [isHeight]
  apply Runs.bind
  apply (popsAt height vector.transientID heap trie held allowsReuse
    shaped.isTrie shaped.nodup owned pinned).mono
  rintro _ mid ⟨rest, leaf, changed, rfl, popped⟩
  have nonneg := owned.nonneg
  have excess := owned.le_excess
  have restOwned : ∀ address,
      gainedRest trie.address rest address ≤ mid.excess address := by
    intro address
    have := excess address
    have := nonneg address
    have := own_nonneg leaf.address address
    rw [popped.effect.excess, Pi.add_apply]
    omega
  apply Runs.bind
  apply (runs_reduceNodeTree popped.isTrie shift root restOwned).mono
  rintro onlyChild after
    (⟨rfl, rfl, full⟩ | ⟨lower, restTrie, child, rfl, rfl, few, rfl, isChild,
      sameElements, below,
      childNodup, kept, effect⟩)
  · apply Runs.pure
    refine ⟨leaf, popped.leaf_last, rfl, popped.isLeaf, ?_⟩
    cases rest with
    | none =>
        left
        simpa using popped.elements
    | some new =>
        right
        refine ⟨height, new,
          ⟨popped.isTrie new (by simp), by simpa using popped.nodup, ?_⟩, rfl,
          shift, by simpa using popped.elements⟩
        intro lower isLower
        by_contra few
        exact full new (by simp) ⟨lower, isLower, Nat.not_lt.mp few⟩
  · have isRest := popped.isTrie restTrie (by simp)
    have elements : trie.elements = restTrie.elements ++ leaf.elements := by
      simpa using popped.elements
    have finalExcess : ∀ address,
      own leaf.address address + own child.address address ≤
        after.excess address := by
      intro address
      have := excess address
      have := nonneg address
      rw [effect.excess, popped.effect.excess]
      simp only [Pi.add_apply, Pi.sub_apply]
      omega
    have finalNonneg : ∀ address, 0 ≤ after.excess address := by
      intro address
      have := finalExcess address
      have := own_nonneg leaf.address address
      have := own_nonneg child.address address
      omega
    have leafAlive : 0 < after.excess leaf.address := by
      have := finalExcess leaf.address
      have := own_nonneg child.address leaf.address
      rw [own_self] at *
      omega
    have childAlive : 0 < after.excess child.address := by
      have := finalExcess child.address
      have := own_nonneg leaf.address child.address
      rw [own_self] at *
      omega
    apply Runs.pure
    refine ⟨leaf, popped.leaf_last, rfl, ?_,
      .inr ⟨lower, child, ⟨?_, ?_, ?_⟩, rfl, ?_, ?_⟩⟩
    · exact popped.isLeaf.frame effect finalNonneg (fun _ _ never => never)
        (Heap.object_of_owned leafAlive)
    · exact isChild.frame effect finalNonneg (fun _ _ never => never)
        (Heap.object_of_owned childAlive)
    · exact childNodup (by simpa using popped.nodup)
    · exact tight_child shaped isRest popped.isLeaf elements sameElements
    · change vector.shift - 5 = 5 * lower
      omega
    · rw [elements, sameElements]

/-- What is popped after a push is what was pushed. -/
theorem runs_popStep_of_pushed
    {before : VectorHeap}
    {oldHeight : Nat}
    {old : Subtrie}
    (wasShaped : WellShaped before oldHeight old)
    (isTail : Trie before 0 tail)
    (shaped : WellShaped heap height trie)
    (elements : trie.elements = old.elements ++ tail.elements)
    (isLast : trie.nodes.getLast? = some tail.address)
    (root : vector.root = some trie.address)
    (shift : vector.shift = 5 * height)
    (owned : Owned heap held)
    (pinned : Pinned heap held (· ∈ trie.nodes) trie.address)
    (allowsReuse : Bool) :
    Runs (popStep vector allowsReuse) heap
      fun popped after => ∃ leaf rest, popped.tail = some tail.address ∧
        leaf.address = tail.address ∧ Trie after 0 leaf ∧
          leaf.elements = tail.elements ∧
        popped.root = some rest.address ∧ WellShaped after oldHeight rest ∧
        popped.shift = 5 * oldHeight ∧ rest.elements = old.elements := by
  obtain ⟨tailID, tailLeaf⟩ := isTail
  have some := wasShaped.isTrie.length_bounds.1
  apply (runs_popStep shaped root shift owned pinned allowsReuse).mono
  rintro popped after ⟨leaf, leafLast, isTail, isLeaf, rest⟩
  have sameAddress : tail.address = leaf.address :=
    Option.some.inj (isLast.symm.trans leafLast)
  obtain ⟨leafID, leafNode⟩ := isLeaf
  obtain all | ⟨newHeight, new, newShaped, newRoot, newShift, newElements⟩ :=
    rest
  · have lengths := congrArg List.length (elements.symm.trans all)
    rw [List.length_append, tailLeaf.full, leafNode.full] at lengths
    omega
  · have sameLength : tail.elements.length = leaf.elements.length := by
      rw [tailLeaf.full, leafNode.full]
    obtain ⟨sameElements, sameLeaf⟩ :=
      List.append_inj' (elements.symm.trans newElements) sameLength
    have sameHeight : newHeight = oldHeight := by
      apply Nat.le_antisymm
      · exact newShaped.height_le wasShaped (by rw [sameElements])
      · exact wasShaped.height_le newShaped (by rw [sameElements])
    subst sameHeight
    exact ⟨leaf, new, sameAddress ▸ isTail, sameAddress.symm,
      ⟨leafID, leafNode⟩, sameLeaf.symm,
      newRoot, newShaped, newShift, sameElements.symm⟩

/-- Whatever may be reused, `pushTail` gives the elements of the subtrie and the
leaf, or those of the leaf alone where the subtrie has no room. -/
theorem runs_pushTail_elements
    (isTrie : Trie heap height trie)
    (nodup : trie.nodes.Nodup)
    (isTail : Trie heap 0 tail)
    (apart : tail.address ∉ trie.nodes)
    (owned : Owned heap (own trie.address + own tail.address))
    {isRoot : Bool}
    (rootOrInner : isRoot = true ∨ 1 ≤ height)
    (allowsReuse : Bool)
    (transientID : Nat) :
    Runs (pushTail height isRoot (some trie.address) tail.address allowsReuse
      transientID) heap
      fun result after => ∃ (newHeight : Nat) (new : Subtrie),
        new.address = result.1 ∧ Trie after newHeight new ∧
        new.elements =
          (if hasRoom heap.object? height trie.address ||
            isRoot then trie.elements else []) ++
            tail.elements := by
  have tailApart : ∀ address ∈ tail.nodes, address ∉ trie.nodes := by
    obtain ⟨tailID, leaf⟩ := isTail
    intro address isNode
    rw [leaf.nodes, List.mem_singleton] at isNode
    rwa [isNode]
  rw [← zero_add (own trie.address)] at owned
  apply (pushesAt height transientID heap trie tail 0 isRoot allowsReuse isTrie
    isTail rootOrInner nodup tailApart (fun _ => Int.le_refl 0) owned).mono
  rintro result after ⟨new, changed, isNew, isCopied, pushed, _⟩
  refine ⟨_, new, isNew, pushed.isTrie, ?_⟩
  rw [pushed.elements, isCopied]

/-- Whatever may be reused, `popTail` parts the last 32 elements from the
others. -/
theorem runs_popTail_elements
    (isTrie : Trie heap height trie)
    (nodup : trie.nodes.Nodup)
    (owned : Owned heap held)
    (pinned : Pinned heap held (· ∈ trie.nodes) trie.address)
    (allowsReuse : Bool)
    (transientID : Nat) :
    Runs (popTail height trie.address allowsReuse transientID) heap
      fun result after => ∃ (rest : Option Subtrie) (leaf : Subtrie),
        result = (rest.map Subtrie.address, leaf.address) ∧
        Trie after 0 leaf ∧ (∀ new ∈ rest.toList, Trie after height new) ∧
        rest.toList.flatMap Subtrie.elements =
          trie.elements.take (trie.elements.length - 32) ∧
        leaf.elements = trie.elements.drop (trie.elements.length - 32) := by
  apply (popsAt height transientID heap trie held allowsReuse isTrie nodup owned
    pinned).mono
  rintro _ after ⟨rest, leaf, changed, rfl, popped⟩
  obtain ⟨leafID, leafNode⟩ := popped.isLeaf
  have length :
      trie.elements.length - 32 =
      (rest.toList.flatMap Subtrie.elements).length := by
    rw [popped.elements, List.length_append, leafNode.full]
    omega
  refine ⟨rest, leaf, rfl, popped.isLeaf, popped.isTrie, ?_, ?_⟩
  · rw [length, popped.elements, List.take_left]
  · rw [length, popped.elements, List.drop_left]

/-- Popping undoes pushing, whatever may be reused and whoever shares the nodes
before or in between, and no flag changes the elements of what is pushed or
popped. -/
theorem pop_undoes_push
    (shaped : WellShaped heap height trie)
    (isTail : Trie heap 0 tail)
    (apart : tail.address ∉ trie.nodes)
    (root : vector.root = some trie.address)
    (shift : vector.shift = 5 * height)
    (owned : Owned heap (own trie.address + own tail.address)) :
    (∀ pushReuse, Runs (pushStep vector tail.address pushReuse) heap
      fun pushed after => ∃ new : Subtrie, pushed.root = some new.address ∧
        ∀ (later : VectorHeap) (held : Address → Int) (transientID : Nat)
          (popReuse : Bool),
          later.object? = after.object? → Owned later held →
          Pinned later held (· ∈ new.nodes) new.address →
          Runs (popStep { pushed with transientID } popReuse) later
            fun popped final => ∃ leaf rest : Subtrie,
              popped.tail = some tail.address ∧
              leaf.address = tail.address ∧ Trie final 0 leaf ∧
                leaf.elements = tail.elements ∧
              popped.root = some rest.address ∧ WellShaped final height rest ∧
              popped.shift = vector.shift ∧ rest.elements = trie.elements) ∧
    (∀ isRoot allowsReuse transientID, (isRoot = true ∨ 1 ≤ height) →
      Runs (pushTail height isRoot (some trie.address) tail.address allowsReuse
        transientID) heap
        fun result after => ∃ (newHeight : Nat) (new : Subtrie),
          new.address = result.1 ∧ Trie after newHeight new ∧
          new.elements =
            (if hasRoom heap.object? height trie.address ||
              isRoot then trie.elements else []) ++
              tail.elements) ∧
    ∀ allowsReuse transientID,
      Runs (popTail height trie.address allowsReuse transientID) heap
        fun result after => ∃ (rest : Option Subtrie) (leaf : Subtrie),
          result = (rest.map Subtrie.address, leaf.address) ∧
          Trie after 0 leaf ∧ (∀ new ∈ rest.toList, Trie after height new) ∧
          rest.toList.flatMap Subtrie.elements =
            trie.elements.take (trie.elements.length - 32) ∧
          leaf.elements = trie.elements.drop (trie.elements.length - 32) := by
  have holds : 0 < (own trie.address + own tail.address) trie.address := by
    have := own_nonneg tail.address trie.address
    rw [Pi.add_apply, own_self]
    omega
  refine ⟨?_, ?_, ?_⟩
  · intro pushReuse
    rw [← zero_add (own trie.address)] at owned
    apply (runs_pushStep shaped isTail apart root shift
      (fun _ => Int.le_refl 0) owned pushReuse).mono
    rintro pushed after ⟨newHeight, new, newShaped, newRoot, newShift,
      elements, isLast⟩
    refine ⟨new, newRoot, ?_⟩
    intro later held transientID popReuse same laterOwned pinned
    have laterShaped : WellShaped later newHeight new :=
      ⟨newShaped.isTrie.of_objects fun address _ => congrFun same address,
        newShaped.nodup,
        newShaped.tight⟩
    rw [shift]
    apply runs_popStep_of_pushed shaped isTail laterShaped elements isLast _ _
      laterOwned pinned
    · exact newRoot
    · exact newShift
  · intro isRoot allowsReuse transientID rootOrInner
    exact runs_pushTail_elements shaped.isTrie shaped.nodup isTail apart owned
      rootOrInner allowsReuse transientID
  · intro allowsReuse transientID
    exact runs_popTail_elements shaped.isTrie shaped.nodup owned
      (.owned _ holds) allowsReuse transientID

end Steps

/-- A tail that is pushed where there is no root becomes the root, and popping
it leaves no root. -/
theorem pop_undoes_push_of_noRoot
    {heap : VectorHeap}
    {vector : PersistentVector}
    {tail : Subtrie}
    (isTail : Trie heap 0 tail)
    (root : vector.root = none)
    (shift : vector.shift = 0) :
    ∀ pushReuse, Runs (pushStep vector tail.address pushReuse) heap
      fun pushed after => after = heap ∧ pushed.root = some tail.address ∧
        pushed.shift = 0 ∧
        ∀ transientID popReuse,
          Runs (popStep { pushed with transientID } popReuse) heap
            fun popped final => popped.tail = some tail.address ∧
              Trie final 0 tail ∧
              popped.root = none ∧ popped.shift = 0 := by
  intro pushReuse
  obtain ⟨tailID, leaf⟩ := isTail
  have isTail : Trie heap 0 tail := ⟨tailID, leaf⟩
  have noShift : pushedShift vector false = 0 := by
    simp [pushedShift, root, shift]
  rw [pushStep, root, pushTail]
  apply Runs.bind
  apply Runs.pure
  apply Runs.pure
  refine ⟨rfl, rfl, noShift, ?_⟩
  intro transientID popReuse
  unfold popStep popTrie
  simp only [noShift, Nat.zero_div]
  rw [popTail, popNode]
  apply Runs.bind
  apply Runs.bind
  apply runs_loadNode leaf.found
  apply Runs.bind
  apply Runs.retain (Effect.refl heap) leaf.found
  intro final same _
  apply Runs.pure
  apply Runs.bind
  apply Runs.pure
  apply Runs.pure
  exact ⟨rfl, isTail.of_objects fun address _ => congrFun same address,
    rfl, rfl⟩

/-- A leaf of 32 times the same element. -/
def leafOf (address : Address) (word : Nat) : Subtrie :=
  ⟨address, List.replicate 32 (.immediate word), [address]⟩

/-- Two leaves below a node, and a leaf to be pushed.  Somebody else refers to
the node and to its second leaf. -/
def sharedSpine : VectorHeap :=
  (((Heap.empty.set 0
    (some ⟨1, .node ⟨.leafNode, 0, (leafOf 0 5).elements⟩⟩)).set 1
    (some ⟨2, .node ⟨.leafNode, 0, (leafOf 1 6).elements⟩⟩)).set 2
    (some ⟨2, .node ⟨.internalNode, 0, [.pointer 0, .pointer 1]⟩⟩)).set 3
    (some ⟨1, .node ⟨.leafNode, 0, (leafOf 3 7).elements⟩⟩)

/-- The trie of two leaves below a node that is shared. -/
def sharedTrie : Subtrie :=
  Subtrie.above 2 [leafOf 0 5, leafOf 1 6]

theorem shaped_sharedTrie : WellShaped sharedSpine 1 sharedTrie where
  isTrie := by
    refine ⟨0, [leafOf 0 5, leafOf 1 6], ⟨rfl, rfl, rfl, ?_⟩, ?_⟩
    · have packed : Packed 0 ([leafOf 0 5] ++ [leafOf 1 6]) := by
        apply Packed.append (by decide)
        intro part isPart
        rw [List.mem_singleton.mp isPart]
        rfl
      exact packed
    · intro part isPart
      rw [List.mem_cons, List.mem_singleton] at isPart
      obtain rfl | rfl := isPart
      · exact ⟨0, rfl, rfl, rfl⟩
      · exact ⟨0, rfl, rfl, rfl⟩
  nodup := by decide
  tight := by
    rintro lower isLower
    obtain rfl : lower = 0 := by omega
    decide

/-- What is owned can be checked address by address. -/
theorem owned_of_inside
    {heap : VectorHeap}
    {held : Address → Int}
    (nonneg : ∀ address, 0 ≤ held address)
    (closed : ∀ source < heap.next, ∀ target ∈ heap.referencesAt source,
      target < heap.next)
    (inside : ∀ address < heap.next, held address ≤ heap.excess address)
    (outside : ∀ address, heap.next ≤ address → held address = 0) :
    Owned heap held :=
  have backed := backed_of_inside nonneg closed inside outside
  ⟨backed.nonneg, backed.le_excess⟩

theorem own_of_lt {address other : Address} (below : address < other) :
    own address other = 0 :=
  own_of_ne (Nat.ne_of_gt below)

/-- The node that is shared is copied by the push, and its copy is changed in
place by the pop. -/
theorem pop_undoes_push_shared :
    ∃ pushed after,
      pushStep ⟨96, 5, 0, some 3, some 2, .boxNil⟩ 3 true sharedSpine =
        some (pushed, after) ∧
      pushed.root = some 4 ∧
      Runs (popStep { pushed with transientID := 9 } true) after
        fun popped final => ∃ leaf rest : Subtrie, popped.tail = some 3 ∧
          leaf.address = 3 ∧
          Trie final 0 leaf ∧ leaf.elements = (leafOf 3 7).elements ∧
          popped.root = some rest.address ∧ WellShaped final 1 rest ∧
            popped.shift = 5 ∧
          rest.elements = sharedTrie.elements := by
  have owned : Owned sharedSpine (own 2 + own 3) := by
    apply owned_of_inside
    · exact fun address =>
        Int.add_nonneg (own_nonneg 2 address) (own_nonneg 3 address)
    · decide +kernel
    · decide +kernel
    · intro address beyond
      have isNext : 4 ≤ address := beyond
      rw [Pi.add_apply,
        own_of_lt (Nat.lt_of_lt_of_le (by decide : 2 < 4) isNext),
        own_of_lt (Nat.lt_of_lt_of_le (by decide : 3 < 4) isNext), add_zero]
  have isTail : Trie sharedSpine 0 (leafOf 3 7) := ⟨0, rfl, rfl, rfl⟩
  have root : (⟨96, 5, 0, some 3, some 2, .boxNil⟩ : PersistentVector).root =
      some sharedTrie.address := rfl
  have computed :
      (pushStep ⟨96, 5, 0, some 3, some 2, .boxNil⟩ 3 true sharedSpine).any
      (fun result => result.1.root = some 4 ∧ result.2.next = 5 ∧
        (∀ source < 5, ∀ target ∈ result.2.referencesAt source, target < 5) ∧
        ∀ address < 5, own 4 address ≤ result.2.excess address) = true := by
    decide +kernel
  obtain ⟨pushed, after, result, new, isNew, popsBack⟩ :=
    (pop_undoes_push shaped_sharedTrie isTail (by decide) root rfl owned).1 true
  change pushStep _ 3 true sharedSpine = _ at result
  rw [result] at computed
  obtain ⟨isRoot, isNext, closed, inside⟩ := of_decide_eq_true computed
  have sameAddress : new.address = 4 :=
    Option.some.inj (isNew.symm.trans isRoot)
  refine ⟨pushed, after, result, isRoot, ?_⟩
  apply popsBack after (own 4) 9 true rfl
  · apply owned_of_inside (own_nonneg 4)
    · rwa [isNext]
    · rwa [isNext]
    · intro address beyond
      exact own_of_lt (Nat.lt_of_lt_of_le (by decide) (isNext ▸ beyond))
  · rw [sameAddress]
    exact .owned 4 (by decide)

end Vector
end Runtime
end ClojureRt
