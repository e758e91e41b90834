import ClojureRt.Runtime.Vector.Layout

/-!
# Appending elements

`conj` gives the vector with one more element, whatever it reuses, and so
`createMany` lays out the elements it is given.
-/

namespace ClojureRt
namespace Runtime
namespace Vector

open RefCount RefCount.Program
open Sharing (Address RTValue NodeType)

/-- An operation gives a vector with some elements, and the metadata and the id
of the old one. -/
def Gives
    (heap after : VectorHeap)
    (handle : Address)
    (vector : PersistentVector)
    (consumed : Address → Int)
    (elements : List RTValue)
    (new : Address) :
    Prop :=
  ∃ header layout, Updated heap after handle consumed new header layout ∧
    layout.elements = elements ∧ header.transientID = vector.transientID ∧
    header.metadata = vector.metadata

/-- Whether the header is reused does not matter for what follows. -/
theorem runs_reusesHeader
    {heap : VectorHeap}
    {self : Address}
    {vector : PersistentVector}
    (found : heap.object? self = some (.vector vector))
    {post : Bool → VectorHeap → Prop}
    (holds : ∀ reusable, post reusable heap) :
    Runs (reusesHeader self vector) heap post := by
  unfold reusesHeader
  apply Runs.bind
  apply Runs.isReusable found
  exact Runs.pure (holds _)

section Conj

variable
  {heap : VectorHeap}
  {self : Address}
  {vector : PersistentVector}
  {layout : Layout}
  {other : RTValue}
  {tailID : Nat}

/-- The header refers to the tail. -/
theorem Fits.owns_tail
    (fits : Fits vector layout) :
    owns vector.tail.toList = own layout.tail.address := by
  rw [fits.tail, owns_some]

/-! ## Room in the tail -/

/-- The layout with one more element in the tail. -/
def Layout.withAppended
    (layout : Layout)
    (room : layout.tail.elements.length < 32)
    (other : RTValue)
    (tail : Address)
    (apart : ∀ trie ∈ layout.root.toList, tail ∉ trie.nodes) : Layout :=
  layout.withTail tail (layout.tail.elements ++ [other])
    (by rw [List.length_append]; exact room) (by simp) apart

/-- One more element in the tail. -/
theorem fits_withAppended
    (fits : Fits vector layout)
    (room : layout.tail.elements.length < 32)
    (other : RTValue)
    (tail : Address)
    (apart : ∀ trie ∈ layout.root.toList, tail ∉ trie.nodes) :
    Fits { vector with count := vector.count + 1, tail := some tail }
      (layout.withAppended room other tail apart) where
  count := by
    simp only [Layout.withAppended, Layout.withTail, Layout.elements,
      List.length_append, List.length_singleton, fits.count]
    omega
  shift := fits.shift
  root := fits.root
  tail := rfl

/-- The new element comes last. -/
theorem elements_withAppended
    (room : layout.tail.elements.length < 32)
    (tail : Address)
    (apart : ∀ trie ∈ layout.root.toList, tail ∉ trie.nodes) :
    (layout.withAppended room other tail apart).elements = layout.elements ++
    [other] := by
  rw [Layout.elements, Layout.elements, List.append_assoc]
  rfl

/-- The tail is written in place, or copied with the new element. -/
theorem Using.runs_conjTail
    (used : Using heap self vector layout (refs other))
    (found : heap.object? layout.tail.address =
      some (.node ⟨.leafNode, tailID, layout.tail.elements⟩))
    (room : layout.tail.elements.length < 32)
    (reusable : Bool) :
    Runs (conjTail self vector layout.tail.address
        ⟨.leafNode, tailID, layout.tail.elements⟩ reusable other) heap
      fun new after => Gives heap after self vector (refs other)
        (layout.elements ++ [other]) new := by
  have fits := used.lays.fits
  unfold conjTail
  cases reusable with
  | true =>
      have apart : ∀ trie ∈ layout.root.toList,
          layout.tail.address ∉ trie.nodes :=
        fun trie isRoot => layout.tail_notMem_root isRoot
      have newFits :=
        fits_withAppended fits room other layout.tail.address apart
      rw [← fits.tail] at newFits
      simp only [if_true]
      apply Runs.bind
      apply runs_storeNode (Effect.refl heap) found
      intro stored isStored others effect
      have foundSelf : stored.object? self = some (.vector vector) := by
        rw [others self used.lays.tail_ne_self.symm, used.lays.found]
      apply used.runs_storeHeader effect foundSelf _ newFits
      · intro trie isRoot
        refine .inl ⟨used.lays.isTrie trie isRoot, ?_⟩
        rintro address isNode (never | rfl)
        · exact never
        · exact apart trie isRoot isNode
      · exact .inr ⟨tailID, isStored⟩
      · funext address
        simp only [owns_references_vector, refsAll_append, refsAll_cons,
          refsAll_nil, Pi.add_apply, Pi.sub_apply, Pi.neg_apply, Pi.zero_apply]
        ring
      · intro after updated
        exact ⟨_, _, updated, elements_withAppended room _ apart, rfl, rfl⟩
      · intro isNode
        rw [Layout.mem_nodes] at isNode
        apply used.lays.self_notMem
        rwa [layout.mem_nodes]
  | false =>
      have noMetadata := used.refs_metadata
      simp only [Bool.false_eq_true, if_false]
      apply Runs.bind
      apply runs_retainPointer (Effect.refl heap) used.lays.root_present
      intro first sameFirst firstEffect
      have foundFirst := found
      rw [← sameFirst] at foundFirst
      apply Runs.bind
      apply runs_retainValues firstEffect
      · rw [sameFirst]
        exact present_of_node used.owned.excess_nonneg found fun _ isIn => isIn
      intro second sameSecond secondEffect
      apply Runs.bind
      apply runs_allocateNode secondEffect
      intro third isNew _ thirdEffect
      have apart : ∀ trie ∈ layout.root.toList, second.next ∉ trie.nodes := by
        intro trie isRoot isNode
        have below := (used.lays.isTrie trie isRoot).nodes_lt _ isNode
        exact absurd below (Nat.not_lt.mpr secondEffect.next_le)
      apply used.runs_copyHeader thirdEffect
        (fits_withAppended fits room other second.next apart)
      · exact fun trie isRoot => .inl (used.lays.isTrie trie isRoot)
      · exact .inr ⟨_, isNew⟩
      · funext address
        simp only [owns_references_vector, owns_some, refsAll_append,
          refsAll_cons, refsAll_nil, noMetadata, Pi.add_apply, Pi.sub_apply,
          Pi.neg_apply, Pi.zero_apply]
        ring
      · intro new after updated
        exact ⟨_, _, updated, elements_withAppended room _ apart, rfl, rfl⟩

/-! ## A full tail -/

/-- What `pushTail` gives for the trie of a vector and its tail. -/
structure PushedRoot
    (heap after : VectorHeap)
    (vector : PersistentVector)
    (layout : Layout)
    (height : Nat)
    (new : Subtrie)
    (copied : Bool)
    (changed : Address → Prop) :
    Prop where
  isTrie : Trie after height new
  elements : new.elements = layout.elements
  tight : ∀ lower, height = lower + 1 → capacity lower < new.elements.length
  shift : pushedShift vector copied = 5 * height
  nodup : new.nodes.Nodup
  nodes : ∀ address ∈ new.nodes, address ∈ layout.nodes ∨ heap.next ≤ address
  effect : Effect heap after
    (own new.address - owns vector.root.toList - own layout.tail.address)
    changed
  changed_nodes : ∀ address, changed address → address ∈ layout.nodes

/-- The new trie is no higher than its elements need. -/
theorem pushed_tight
    {after : VectorHeap}
    {height : Nat}
    {trie tail new : Subtrie}
    {copied : Bool}
    {changed : Address → Prop}
    (pushed : Pushed heap after height true trie tail new copied changed)
    (tight : ∀ lower, height = lower + 1 →
      capacity lower < trie.elements.length)
    (nonempty : 0 < tail.elements.length)
    (lower : Nat)
    (isHigher : (if copied || !true then height else height + 1) = lower + 1) :
    capacity lower < new.elements.length := by
  rw [pushed.elements, Bool.or_true, if_pos rfl, List.length_append]
  cases copied with
  | true =>
      have := tight lower (by simpa using isHigher)
      omega
  | false =>
      have sameHeight : height = lower := by simpa using isHigher
      rw [pushed.full rfl, sameHeight]
      omega

/-- The full tail is pushed into the trie. -/
theorem runs_pushRoot
    {held : Address → Int}
    (fits : Fits vector layout)
    (isTrie : ∀ trie ∈ layout.root.toList, Trie heap layout.height trie)
    (isTail : Trie heap 0 layout.tail)
    (nonneg : ∀ address, 0 ≤ held address)
    (owned : Owned heap
      (held + owns vector.root.toList + own layout.tail.address))
    (allowsReuse : Bool) :
    Runs (pushTail (vector.shift / 5) true vector.root layout.tail.address
        allowsReuse vector.transientID) heap
      fun result after => ∃ height new changed, new.address = result.1 ∧
        PushedRoot heap after vector layout height new result.2 changed ∧
        (allowsReuse = false → ∀ address, ¬ changed address) := by
  have isHeight : vector.shift / 5 = layout.height := by
    rw [fits.shift]
    omega
  obtain ⟨tailID, tailLeaf⟩ := isTail
  have isTail : Trie heap 0 layout.tail := ⟨tailID, tailLeaf⟩
  rw [isHeight]
  cases isRoot : layout.root with
  | none =>
      have noRoot : vector.root = none := by
        rw [fits.root, isRoot, Option.map_none]
      have isFlat := layout.flat isRoot
      rw [noRoot, pushTail]
      apply Runs.pure
      refine ⟨0, layout.tail, fun _ => False, rfl, ?_, fun _ _ never => never⟩
      exact {
        isTrie := isTail
        elements := by simp [Layout.elements, isRoot]
        tight := by
          intro lower never
          omega
        shift := by simp [pushedShift, noRoot, fits.shift, isFlat]
        nodup := by
          rw [layout.tailNodes]
          exact List.nodup_singleton _
        nodes := fun address isNode => .inl (List.mem_append_right _ isNode)
        effect := by simpa [noRoot] using Effect.refl heap
        changed_nodes := fun _ never => never.elim }
  | some trie =>
      have inRoot : trie ∈ layout.root.toList := Option.mem_toList.mpr isRoot
      have inLayout : ∀ address ∈ trie.nodes, address ∈ layout.nodes :=
        fun address isNode =>
        layout.mem_nodes.mpr (.inl ⟨trie, inRoot, isNode⟩)
      have hasRoot : vector.root = some trie.address := by
        rw [fits.root, isRoot, Option.map_some]
      have apart : ∀ address ∈ layout.tail.nodes, address ∉ trie.nodes := by
        intro address isNode
        rw [layout.tailNodes, List.mem_singleton] at isNode
        rw [isNode]
        exact layout.tail_notMem_root inRoot
      rw [hasRoot, owns_some] at owned
      rw [hasRoot]
      apply (pushesAt layout.height vector.transientID heap trie layout.tail
        held true allowsReuse
        (isTrie trie inRoot) isTail (.inl rfl) (layout.root_nodup inRoot) apart
        nonneg owned).mono
      rintro result after ⟨new, changed, isNew, _, pushed, unchanged⟩
      refine ⟨if result.2 || !true then layout.height else layout.height + 1,
        new, changed, isNew,
        ?_, unchanged⟩
      exact {
        isTrie := pushed.isTrie
        elements := by
          rw [pushed.elements, Bool.or_true, if_pos rfl, Layout.elements,
            isRoot]
          simp
        tight := pushed_tight pushed (layout.tight trie inRoot)
          (by rw [tailLeaf.full]; decide)
        shift := by
          rw [pushedShift, fits.shift, hasRoot]
          cases result.2 with
          | true => simp
          | false =>
              simp only [Bool.not_false, Option.isSome_some, Bool.and_true,
                if_true, Bool.not_true, Bool.or_false, Bool.false_eq_true,
                if_false]
              omega
        nodup := pushed.nodup
        nodes := by
          intro address isNode
          obtain isOld | isTailNode | fresh := pushed.nodes address isNode
          · exact .inl (inLayout address isOld)
          · exact .inl (List.mem_append_right _ isTailNode)
          · exact .inr fresh
        effect := by
          rw [hasRoot, owns_some]
          exact pushed.effect
        changed_nodes := fun address isChanged =>
          inLayout address (pushed.changed_nodes address isChanged) }

/-- The layout after a full tail was pushed. -/
def PushedRoot.laidOut
    {after : VectorHeap}
    {height : Nat}
    {new : Subtrie}
    {copied : Bool}
    {changed : Address → Prop}
    (pushed : PushedRoot heap after vector layout height new copied changed)
    (tail : Address)
    (other : RTValue)
    (apart : tail ∉ new.nodes) : Layout :=
  Layout.withRoot height new ⟨tail, [other], [tail]⟩ pushed.tight rfl (by simp)
    (by simp) pushed.nodup apart

/-- The header with the new root and a new tail. -/
theorem PushedRoot.fits
    {after : VectorHeap}
    {height : Nat}
    {new : Subtrie}
    {copied : Bool}
    {changed : Address → Prop}
    (pushed : PushedRoot heap after vector layout height new copied changed)
    (old : Fits vector layout)
    (tail : Address)
    (other : RTValue)
    (apart : tail ∉ new.nodes) :
    Fits
      { vector with
        count := vector.count + 1, tail := some tail, root := some new.address,
        shift := pushedShift vector copied }
      (pushed.laidOut tail other apart) where
  count := by
    have counted := old.count
    rw [← pushed.elements] at counted
    simp [PushedRoot.laidOut, Layout.withRoot, Layout.elements, counted]
  shift := pushed.shift
  root := rfl
  tail := rfl

/-- The elements of the old tail come before the new one. -/
theorem PushedRoot.elements_laidOut
    {after : VectorHeap}
    {height : Nat}
    {new : Subtrie}
    {copied : Bool}
    {changed : Address → Prop}
    (pushed : PushedRoot heap after vector layout height new copied changed)
    (tail : Address)
    (other : RTValue)
    (apart : tail ∉ new.nodes) :
    (pushed.laidOut tail other apart).elements = layout.elements ++
    [other] := by
  rw [← pushed.elements]
  simp [PushedRoot.laidOut, Layout.withRoot, Layout.elements]

/-- What was there before and was no node is no node of the new trie. -/
theorem PushedRoot.notMem
    {after : VectorHeap}
    {height : Nat}
    {new : Subtrie}
    {copied : Bool}
    {changed : Address → Prop}
    (pushed : PushedRoot heap after vector layout height new copied changed)
    {address : Address}
    (outside : address ∉ layout.nodes)
    (below : address < heap.next) : address ∉ new.nodes := by
  intro isNode
  cases pushed.nodes address isNode with
  | inl isOld => exact outside isOld
  | inr beyond => exact absurd below (Nat.not_lt.mpr beyond)

/-- The nodes of the new layout are those of the new trie and the new tail. -/
theorem PushedRoot.mem_laidOut
    {after : VectorHeap}
    {height : Nat}
    {new : Subtrie}
    {copied : Bool}
    {changed : Address → Prop}
    (pushed : PushedRoot heap after vector layout height new copied changed)
    (tail : Address)
    (other : RTValue)
    (apart : tail ∉ new.nodes)
    {address : Address} :
    address ∈ (pushed.laidOut tail other apart).nodes ↔
      address ∈ new.nodes ∨ address = tail := by
  rw [Layout.mem_nodes]
  simp [PushedRoot.laidOut, Layout.withRoot]

section Push

variable
  (used : Using heap self vector layout (refs other))
  (found : heap.object? layout.tail.address =
    some (.node ⟨.leafNode, tailID, layout.tail.elements⟩))
  (full : layout.tail.elements.length = 32)

include used found full

/-- The full tail is pushed on a heap with the same nodes, and the caller keeps
the vector. -/
theorem Using.runs_pushTail
    {mid : VectorHeap}
    (sameNodes : ∀ address ∈ layout.nodes,
      mid.object? address = heap.object? address)
    (covered : ∀ address,
      own self address + owns vector.root.toList address +
        own layout.tail.address address ≤ mid.excess address)
    (allowsReuse : Bool) :
    Runs (pushTail (vector.shift / 5) true vector.root layout.tail.address
        allowsReuse vector.transientID) mid
      fun result after => ∃ height new changed, new.address = result.1 ∧
        PushedRoot mid after vector layout height new result.2 changed ∧
        (allowsReuse = false → ∀ address, ¬ changed address) := by
  have isTail : Trie heap 0 layout.tail :=
    ⟨tailID, found, layout.tailNodes, full⟩
  have owned : Owned mid
      (own self + owns vector.root.toList + own layout.tail.address) := by
    refine ⟨fun address => ?_, covered⟩
    have := own_nonneg self address
    have := owns_nonneg vector.root.toList address
    have := own_nonneg layout.tail.address address
    simp only [Pi.add_apply]
    omega
  apply runs_pushRoot used.lays.fits _ _ (own_nonneg self) owned allowsReuse
  · intro trie isRoot
    apply (used.lays.isTrie trie isRoot).of_objects
    exact fun address isNode =>
      sameNodes address (layout.mem_nodes.mpr (.inl ⟨trie, isRoot, isNode⟩))
  · apply isTail.of_objects
    exact fun address isNode =>
      sameNodes address (List.mem_append_right _ isNode)

/-- While the tail is pushed the header has no root, and its reference to the
old tail is handed on. -/
theorem Using.runs_conjPush_reused :
    Runs (conjPush self vector layout.tail.address true other) heap
      fun new after => Gives heap after self vector (refs other)
        (layout.elements ++ [other]) new := by
  have fits := used.lays.fits
  have excess := used.excess_le
  unfold conjPush
  apply Runs.bind
  apply runs_allocateNode (Effect.refl heap)
  intro first isFirst othersFirst firstEffect
  have oldFirst : ∀ address, address < heap.next →
      first.object? address = heap.object? address :=
    fun address below => othersFirst address (Nat.ne_of_lt below)
  simp only [if_true]
  have foundSelf : first.object? self = some (.vector vector) := by
    rw [oldFirst self used.lays.self_lt, used.lays.found]
  apply Runs.bind
  apply Runs.store firstEffect foundSelf
  intro mid isMid othersMid midEffect
  have sameNodes : ∀ address ∈ layout.nodes,
      mid.object? address = heap.object? address := by
    intro address isNode
    rw [othersMid address, oldFirst address (used.lays.nodes_lt address isNode)]
    rintro rfl
    exact used.lays.self_notMem isNode
  have effect : Effect heap mid
      (owns vector.root.toList + own layout.tail.address - refs other)
      (· = self) := by
    apply midEffect.weaken
    · funext address
      simp only [owns_references_vector, owns_none, owns_some, fits.owns_tail,
        refsAll_cons, refsAll_nil, Pi.add_apply, Pi.sub_apply, Pi.zero_apply]
      ring
    · exact fun _ _ either => either.resolve_left fun never => never
  have covered (address : Address) :
      own self address + owns vector.root.toList address +
        own layout.tail.address address ≤ mid.excess address := by
    have := excess address
    rw [effect.excess]
    simp only [Pi.sub_apply, Pi.add_apply]
    omega
  apply Runs.bind
  apply (used.runs_pushTail found full sameNodes covered true).mono
  rintro ⟨newRoot, copied⟩ pushedHeap ⟨height, new, changed, rfl, pushed, _⟩
  have isMidTail : mid.object? heap.next = some (.node
      ⟨.leafNode, vector.transientID, [other]⟩) := by
    rw [othersMid heap.next (Nat.ne_of_gt used.lays.self_lt), isFirst]
  have beyondMid : heap.next < mid.next := Heap.lt_next_of_object isMidTail
  have apart : heap.next ∉ new.nodes :=
    pushed.notMem used.lays.next_notMem beyondMid
  have pushedExcess : ∀ address, own self address + own new.address address ≤
      pushedHeap.excess address := by
    intro address
    have := excess address
    rw [pushed.effect.excess, effect.excess]
    simp only [Pi.add_apply, Pi.sub_apply]
    omega
  have pushedNonneg : ∀ address, 0 ≤ pushedHeap.excess address := by
    intro address
    have := pushedExcess address
    have := own_nonneg self address
    have := own_nonneg new.address address
    omega
  have selfAlive : 0 < pushedHeap.excess self := by
    have atSelf := pushedExcess self
    have := own_nonneg new.address self
    rw [own_self] at atSelf
    omega
  obtain ⟨object, isSelf⟩ := Heap.object_of_owned selfAlive
  rw [pushed.effect.object_eq isMid
    (fun isChanged =>
      used.lays.self_notMem (pushed.changed_nodes self isChanged))
        isSelf] at isSelf
  have refersTail : heap.next ∈ Referencing.references (Object.vector
      { vector with count := vector.count + 1, tail := some heap.next, root := none }) := by
    simp [Referencing.references]
  obtain ⟨object, isTailObject⟩ :=
    Heap.object_of_reference pushedNonneg isSelf refersTail
  rw [pushed.effect.object_eq isMidTail
    (fun isChanged =>
      absurd (used.lays.nodes_lt _ (pushed.changed_nodes _ isChanged))
      (Nat.lt_irrefl _)) isTailObject] at isTailObject
  apply used.runs_storeHeader (effect.trans pushed.effect) isSelf _
    (pushed.fits fits heap.next other apart)
  · intro trie isRoot
    have isNew : trie = new := List.mem_singleton.mp isRoot
    rw [isNew]
    exact .inr pushed.isTrie
  · exact .inr ⟨_, isTailObject⟩
  · funext address
    simp only [owns_references_vector, owns_some, owns_none, Pi.add_apply,
      Pi.sub_apply, Pi.neg_apply, Pi.zero_apply]
    ring
  · intro after updated
    exact ⟨_, _, updated, pushed.elements_laidOut _ _ _, rfl, rfl⟩
  · rw [pushed.mem_laidOut]
    rintro (isNode | isTailNode)
    · exact pushed.notMem used.lays.self_notMem
        (used.lays.self_lt.trans beyondMid) isNode
    · exact absurd used.lays.self_lt
        (Nat.not_lt.mpr (Nat.le_of_eq isTailNode.symm))

/-- The nodes are retained for the new header, and none of them is changed in
place. -/
theorem Using.runs_conjPush_copied :
    Runs (conjPush self vector layout.tail.address false other) heap
      fun new after => Gives heap after self vector (refs other)
        (layout.elements ++ [other]) new := by
  have fits := used.lays.fits
  have excess := used.excess_le
  have noMetadata := used.refs_metadata
  unfold conjPush
  apply Runs.bind
  apply runs_allocateNode (Effect.refl heap)
  intro first isFirst othersFirst firstEffect
  have oldFirst : ∀ address, address < heap.next →
      first.object? address = heap.object? address :=
    fun address below => othersFirst address (Nat.ne_of_lt below)
  simp only [Bool.false_eq_true, if_false]
  have foundTail : first.object? layout.tail.address = some (.node
      ⟨.leafNode, tailID, layout.tail.elements⟩) := by
    rw [oldFirst _ (used.lays.nodes_lt _ layout.tail_mem_nodes), found]
  apply Runs.bind
  apply Runs.retain firstEffect foundTail
  intro second sameSecond secondEffect
  apply Runs.bind
  apply runs_retainPointer secondEffect
  · intro address isRoot
    obtain ⟨object, isObject⟩ := used.lays.root_present address isRoot
    exact ⟨object,
      by rw [sameSecond, oldFirst _ (Heap.lt_next_of_object isObject),
        isObject]⟩
  intro third sameThird thirdEffect
  have sameNodes : ∀ address ∈ layout.nodes,
      third.object? address = heap.object? address := by
    intro address isNode
    rw [sameThird, sameSecond,
      oldFirst address (used.lays.nodes_lt address isNode)]
  have isThirdTail : third.object? heap.next = some (.node
      ⟨.leafNode, vector.transientID, [other]⟩) := by
    rw [sameThird, sameSecond, isFirst]
  have covered (address : Address) :
      own self address + owns vector.root.toList address +
        own layout.tail.address address ≤ third.excess address := by
    have := excess address
    have := own_nonneg heap.next address
    rw [thirdEffect.excess]
    simp only [refsAll_cons, refsAll_nil, Pi.add_apply, Pi.sub_apply,
      Pi.zero_apply]
    omega
  apply Runs.bind
  apply (used.runs_pushTail found full sameNodes covered false).mono
  rintro ⟨newRoot, copied⟩ pushedHeap ⟨height, new, changed, rfl, pushed,
    unchanged⟩
  have unchanged := unchanged rfl
  have effect :
      Effect heap pushedHeap (own heap.next - refs other + own new.address)
      fun _ => False := by
    apply (thirdEffect.trans pushed.effect).weaken
    · funext address
      simp only [refsAll_cons, refsAll_nil, Pi.add_apply, Pi.sub_apply,
        Pi.zero_apply]
      ring
    · exact fun address _ either => either.elim id (unchanged address)
  have apart : heap.next ∉ new.nodes :=
    pushed.notMem used.lays.next_notMem (Heap.lt_next_of_object isThirdTail)
  have tailAlive : 0 < pushedHeap.excess heap.next := by
    have := excess heap.next
    have := own_nonneg self heap.next
    have := own_nonneg new.address heap.next
    rw [effect.excess]
    simp only [Pi.add_apply, Pi.sub_apply, own_self]
    omega
  obtain ⟨object, isTailObject⟩ := Heap.object_of_owned tailAlive
  rw [pushed.effect.object_eq isThirdTail (unchanged _)
    isTailObject] at isTailObject
  apply used.runs_copyHeader effect (pushed.fits fits heap.next other apart)
  · intro trie isRoot
    have isNew : trie = new := List.mem_singleton.mp isRoot
    rw [isNew]
    exact .inr pushed.isTrie
  · exact .inr ⟨_, isTailObject⟩
  · funext address
    simp only [owns_references_vector, owns_some, noMetadata, Pi.add_apply,
      Pi.sub_apply, Pi.neg_apply, Pi.zero_apply]
    ring
  · intro new after updated
    exact ⟨_, _, updated, pushed.elements_laidOut _ _ _, rfl, rfl⟩

end Push

/-! ## Any number of elements -/

/-- `conj` appends an element. -/
theorem Using.runs_conj (used : Using heap self vector layout (refs other)) :
    Runs (conjInternal self other) heap fun new after =>
      Gives heap after self vector (refs other) (layout.elements ++ [other])
        new := by
  obtain ⟨tailID, found⟩ := used.lays.isTail
  unfold conjInternal
  apply Runs.bind
  apply runs_loadVector used.lays.found
  apply Runs.bind
  apply runs_reusesHeader used.lays.found
  intro reusable
  rw [used.lays.fits.tail]
  apply Runs.bind
  apply Runs.pure
  apply Runs.bind
  apply runs_loadNode found
  by_cases room : layout.tail.elements.length < 32
  · rw [if_pos room]
    exact used.runs_conjTail found room reusable
  · rw [if_neg room]
    have atMost := layout.atMost
    have full : layout.tail.elements.length = 32 := by omega
    cases reusable with
    | true => exact used.runs_conjPush_reused found full
    | false => exact used.runs_conjPush_copied found full

/-- What an update leaves can be used again. -/
theorem Using.next
    {after : VectorHeap}
    {new : Address}
    {header : PersistentVector}
    {layout' : Layout}
    {consumed rest : Address → Int}
    (used : Using heap self vector layout (consumed + rest))
    (updated : Updated heap after self consumed new header layout')
    (nonneg : ∀ address, 0 ≤ rest address)
    (sameMetadata : header.metadata = vector.metadata) :
    Using after new header layout' rest where
  lays := updated.lays
  owned := by
    constructor
    · intro address
      exact Int.add_nonneg (own_nonneg new address) (nonneg address)
    · intro address
      have atAddress := used.excess_le address
      rw [updated.excess]
      simp only [Pi.add_apply, Pi.sub_apply] at atAddress ⊢
      omega
  plain := by rw [sameMetadata, used.plain]

/-- Appending values one after the other gives the vector with all of them. -/
theorem Using.runs_conjMany
    {values : List RTValue}
    (used : Using heap self vector layout (refsAll values)) :
    Runs (conjMany self values) heap fun new after =>
      Gives heap after self vector (refsAll values) (layout.elements ++ values)
        new := by
  induction values generalizing heap self vector layout with
  | nil =>
      apply Runs.pure
      refine ⟨vector, layout, ⟨used.lays, ?_⟩, by simp, rfl, rfl⟩
      simp
  | cons value values inductionHypothesis =>
      have usedValue : Using heap self vector layout (refs value) := {
        used with
        owned := by
          constructor
          · intro address
            exact Int.add_nonneg (own_nonneg self address)
              (refs_nonneg value address)
          · intro address
            have atAddress := used.excess_le address
            have := refsAll_nonneg values address
            simp only [refsAll_cons, Pi.add_apply] at atAddress ⊢
            omega }
      rw [refsAll_cons] at used
      apply Runs.bind
      apply usedValue.runs_conj.mono
      rintro new after ⟨header, layout', updated, elements, sameID,
        sameMetadata⟩
      apply (inductionHypothesis
        (used.next updated (refsAll_nonneg values) sameMetadata)).mono
      rintro last final ⟨lastHeader, lastLayout, lastUpdated, lastElements,
        lastID, lastMetadata⟩
      refine ⟨lastHeader, lastLayout, ⟨lastUpdated.lays, ?_⟩, ?_,
        lastID.trans sameID,
        lastMetadata.trans sameMetadata⟩
      · intro address
        rw [lastUpdated.excess, updated.excess]
        simp only [refsAll_cons, Pi.add_apply, Pi.sub_apply]
        omega
      · rw [lastElements, elements, List.append_assoc, List.singleton_append]

end Conj

/-- `createMany` lays out the values it takes, however many they are, and the
caller owns the vector for them. -/
theorem runs_createMany
    {heap : VectorHeap}
    {objects : List RTValue}
    (owned : Owned heap (refsAll objects)) :
    Runs (createMany objects) heap fun new after => ∃ vector layout,
      Lays after new vector layout ∧ layout.elements = objects ∧
        vector.transientID = 0 ∧
      ∀ address, after.excess address =
        heap.excess address + (own new - refsAll objects) address := by
  have split : refsAll objects = refsAll (objects.take 32) +
      refsAll (objects.drop 32) := by
    rw [← refsAll_append, List.take_append_drop]
  have few : (objects.take 32).length ≤ 32 := by simp
  unfold createMany
  apply Runs.bind
  apply runs_allocateNode (Effect.refl heap)
  intro first isTail _ firstEffect
  apply Runs.bind
  apply Runs.allocate firstEffect
  intro second isVector others _ effect
  have excess : ∀ address, second.excess address =
      heap.excess address + (own first.next - refsAll (objects.take 32))
        address := by
    intro address
    rw [effect.excess]
    simp only [owns_references_vector, owns_none, owns_some, refs_boxNil,
      Pi.add_apply, Pi.sub_apply, Pi.zero_apply]
    omega
  have lays : Lays second first.next
      ⟨(objects.take 32).length, 0, 0, some heap.next, none, .boxNil⟩
      (leafLayout heap.next (objects.take 32) few) := {
    found := isVector
    fits := ⟨rfl, rfl, rfl, rfl⟩
    isTrie := by simp [leafLayout]
    isTail := by
      have sameTail := others _ (Nat.ne_of_lt (Heap.lt_next_of_object isTail))
      exact ⟨0, sameTail.trans isTail⟩ }
  have used : Using second first.next _ _ (refsAll (objects.drop 32)) := {
    lays := lays
    owned := by
      constructor
      · intro address
        exact Int.add_nonneg (own_nonneg _ address) (refsAll_nonneg _ address)
      · intro address
        have := owned.le_excess address
        rw [excess]
        simp only [split, Pi.add_apply, Pi.sub_apply] at *
        omega
    plain := rfl }
  apply used.runs_conjMany.mono
  rintro new after ⟨header, layout, updated, elements, sameID, _⟩
  refine ⟨header, layout, updated.lays, ?_, sameID, ?_⟩
  · rw [elements]
    exact List.take_append_drop 32 objects
  · intro address
    rw [updated.excess, excess, split]
    simp only [Pi.add_apply, Pi.sub_apply]
    omega

end Vector
end Runtime
end ClojureRt
