import ClojureRt.CompilerState.Registration

/-!
# Linking protocols and comparing classes with them

What is read of the protocols and their parents is retained while it is read.
The traversal comes to an end: a class that was visited before is not expanded
again.
-/

namespace ClojureRt
namespace CompilerState

open RefCount RefCount.Program

section Rules

variable
  {protocolRegistry : ThreadsafeRegistry}
  {base heap : ClassHeap}
  {change : Nat → Int}

/-- What a registry owns is owned. -/
def Owns (registry : ThreadsafeRegistry) (base : ClassHeap)
    (change : Nat → Int) : Prop :=
  ∀ other, owns registry.roots other ≤ base.excess other + change other

/-- With more references the protocols are still owned. -/
theorem Owns.add
    (owned : Owns protocolRegistry base change)
    {more : Nat → Int}
    (nonneg : ∀ other, 0 ≤ more other) :
    Owns protocolRegistry base (change + more) := by
  intro other
  have := owned other
  have := nonneg other
  rw [Pi.add_apply]
  omega

/-- What is owned besides the protocols is not negative. -/
theorem Owns.nonneg
    (owned : Owns protocolRegistry base change)
    (other : Nat) : 0 ≤ base.excess other + change other :=
  (owns_nonneg protocolRegistry.roots other).trans (owned other)

/-- Looking a protocol up gives one reference to it, if it is registered. -/
theorem Runs.getProtocol
    (effect : Effect base heap change fun _ => True)
    (owned : Owns protocolRegistry base change)
    (name : String)
    {post : Option Nat → ClassHeap → Prop}
    (holds : ∀ after, after.object? = heap.object? →
      Effect base after
        (change + owns (find name protocolRegistry.registry).toList)
        (fun _ => True) →
      post (find name protocolRegistry.registry) after) :
    Runs (protocolRegistry.getCurrent name) heap post := by
  apply Runs.getCurrent effect protocolRegistry name _ holds
  intro c found
  apply object_of_change effect
  have isRoot : 0 < owns protocolRegistry.roots c := by
    apply owns_pos_of_mem
    exact List.mem_append_left _ (mem_roots_of_find found)
  exact lt_of_lt_of_le isRoot (owned c)

/-! ## Phase 4 -/

/-- `findProtocols` gives one reference for each protocol that it returns. -/
theorem Runs.findProtocols
    (effect : Effect base heap change fun _ => True)
    (owned : Owns protocolRegistry base change)
    (implements : List (String × Methods))
    {post : List Nat → ClassHeap → Prop}
    (holds : ∀ protos after, after.object? = heap.object? →
      Effect base after (change + owns protos) (fun _ => True) →
        post protos after) :
    Runs (findProtocols protocolRegistry implements) heap post := by
  induction implements generalizing heap change post with
  | nil =>
      apply Runs.pure
      apply holds [] heap rfl
      rwa [owns_nil, add_zero]
  | cons implemented implements inductionHypothesis =>
      apply Runs.bind
      apply Runs.getProtocol effect owned
      intro middle sameMiddle effectMiddle
      cases found : find implemented.1 protocolRegistry.registry with
      | none =>
          rw [found, Option.toList_none, owns_nil, add_zero] at effectMiddle
          apply inductionHypothesis effectMiddle owned
          intro protos after same
          exact holds protos after (same.trans sameMiddle)
      | some proto =>
          rw [found, Option.toList_some, owns_singleton] at effectMiddle
          apply Runs.bind
          apply inductionHypothesis effectMiddle (owned.add (own_nonneg proto))
          intro protos after same effectAfter
          apply Runs.pure
          apply holds (proto :: protos) after (same.trans sameMiddle)
          rwa [owns_cons, ← add_assoc]

/-- The fourth phase writes the new classes only, and the references that it
takes are theirs. -/
theorem Runs.linkProtocols
    (locals : List Local)
    (effect : Effect base heap change fun _ => True)
    (owned : Owns protocolRegistry base change)
    (held : ∀ created ∈ locals, 0 < base.excess created.2 + change created.2)
    (distinct : (locals.map Prod.snd).Nodup)
    (described : Described locals heap)
    {post : Unit → ClassHeap → Prop}
    (holds : ∀ after,
      (∀ other, other ∉ locals.map Prod.snd →
        after.object? other = heap.object? other) →
      Effect base after change (fun _ => True) → post () after) :
    Runs (linkProtocols protocolRegistry (entries locals)) heap post := by
  induction locals generalizing heap post with
  | nil =>
      apply Runs.pure
      exact holds heap (fun _ _ => rfl) effect
  | cons created locals inductionHypothesis =>
      obtain ⟨desc, c⟩ := created
      rw [List.map_cons, List.nodup_cons] at distinct
      obtain ⟨self, found⟩ :=
        object_of_change effect (held (desc, c) List.mem_cons_self)
      obtain ⟨isDescribed, noProtocols⟩ :=
        described (desc, c) List.mem_cons_self self found
      apply Runs.bind
      apply Runs.load found
      rw [isDescribed]
      apply Runs.bind
      apply Runs.findProtocols effect owned
      intro protos middle sameMiddle effectMiddle
      rw [← sameMiddle] at found
      apply Runs.bind
      apply Runs.load found
      apply Runs.bind
      apply Runs.store effectMiddle found
      intro stored isStored others effectStored
      have sameChange : change = change + owns protos +
          (owns (Referencing.references self) -
            owns (Referencing.references
              { self with
                implementedProtocols :=
                  if protos.isEmpty then self.implementedProtocols
                  else protos })) := by
        have isProtos :
            (if protos.isEmpty then self.implementedProtocols else protos) =
            protos := by
          cases protos with
          | nil => exact noProtocols
          | cons proto protos => rfl
        rw [owns_references, owns_references, isProtos, noProtocols, owns_nil]
        abel
      have describedStored : Described locals stored := by
        intro later isLater object isObject
        have isOther : later.2 ≠ c := by
          rintro rfl
          exact distinct.1 (List.mem_map.mpr ⟨later, isLater, rfl⟩)
        rw [others later.2 isOther, sameMiddle] at isObject
        exact described later (List.mem_cons_of_mem _ isLater) object isObject
      apply inductionHypothesis
        (effectStored.weaken sameChange.symm fun _ _ _ => trivial)
        (fun later isLater => held later (List.mem_cons_of_mem _ isLater))
        distinct.2
        describedStored
      intro after othersAfter effectAfter
      apply holds after _ effectAfter
      intro other notIn
      rw [List.map_cons, List.mem_cons, not_or] at notIn
      rw [othersAfter other notIn.2, others other notIn.1, sameMiddle]

/-! ## Reading the protocols -/

/-- A reference more is held to each object. -/
theorem Runs.retainEach
    (effect : Effect base heap change fun _ => True)
    (addresses : List Nat)
    (areThere : ∀ address ∈ addresses, ∃ self, heap.object? address = some self)
    {post : Unit → ClassHeap → Prop}
    (holds : ∀ after, after.object? = heap.object? →
      Effect base after (change + owns addresses) (fun _ => True) →
        post () after) :
    Runs (retainEach addresses) heap post := by
  induction addresses generalizing heap change post with
  | nil =>
      apply Runs.pure
      apply holds heap rfl
      rwa [owns_nil, add_zero]
  | cons address addresses inductionHypothesis =>
      obtain ⟨self, found⟩ := areThere address List.mem_cons_self
      apply Runs.bind
      apply Runs.retain effect found
      intro middle same effectMiddle
      apply inductionHypothesis effectMiddle
      · intro other isIn
        rw [same]
        exact areThere other (List.mem_cons_of_mem _ isIn)
      · intro after sameAfter effectAfter
        apply holds after (sameAfter.trans same)
        rwa [owns_cons, ← add_assoc]

/-- How many parents the classes have that were not visited. -/
def unvisited (start : ClassHeap) (visited : List Nat) : Nat :=
  ∑ address ∈ (Finset.range start.next).filter (· ∉ visited),
  (start.referencesAt address).length

/-- Visiting a protocol uses up its parents. -/
theorem unvisited_cons
    {start : ClassHeap}
    {visited : List Nat}
    {curr : Nat}
    {self : Class}
    (found : start.object? curr = some self)
    (isNew : curr ∉ visited) :
    unvisited start (curr :: visited) + self.superclasses.length ≤
      unvisited start visited := by
  have isIn : curr ∈ (Finset.range start.next).filter (· ∉ visited) :=
    Finset.mem_filter.mpr
      ⟨Finset.mem_range.mpr (Heap.lt_next_of_object found), isNew⟩
  have others : (Finset.range start.next).filter (· ∉ curr :: visited) =
      ((Finset.range start.next).filter (· ∉ visited)).erase curr := by
    ext other
    simp only [Finset.mem_filter, Finset.mem_erase, List.mem_cons, not_or]
    tauto
  have parents :
      self.superclasses.length ≤ (start.referencesAt curr).length := by
    obtain ⟨cell, isCell, rfl⟩ := Option.map_eq_some_iff.mp found
    rw [Heap.referencesAt, isCell]
    simp [Cell.referencesOf, Referencing.references]
  unfold unvisited
  rw [others, ← Finset.add_sum_erase _ _ isIn]
  omega

/-- The order of the references does not matter. -/
theorem owns_reverse (addresses : List Nat) :
    owns addresses.reverse = owns addresses := by
  funext other
  simp [owns]

/-- The fuel is enough to visit the whole queue, and in the end each visited
protocol is held once. -/
theorem Runs.collectMethods
    (start : ClassHeap)
    (fuel : Nat)
    (queue visited : List Nat)
    (requiredMethods : Methods)
    (effect : Effect base heap (change + owns queue + owns visited)
      fun _ => True)
    (owned : Owns protocolRegistry base change)
    (kept : ∀ address self, heap.object? address = some self →
      start.object? address = some self)
    (enough : queue.length + unvisited start visited ≤ fuel)
    {post : List Nat × Methods → ClassHeap → Prop}
    (holds : ∀ visited requiredMethods after,
      (∀ address self, after.object? address = some self →
        start.object? address = some self) →
      Effect base after (change + owns visited) (fun _ => True) →
      post (visited, requiredMethods) after) :
    Runs (collectMethods fuel queue visited requiredMethods) heap post := by
  induction fuel generalizing heap queue visited requiredMethods with
  | zero =>
      cases queue with
      | nil =>
          apply Runs.pure
          apply holds visited requiredMethods heap kept
          simpa using effect
      | cons curr queue => simp at enough
  | succ fuel inductionHypothesis =>
      cases queue with
      | nil =>
          apply Runs.pure
          apply holds visited requiredMethods heap kept
          simpa using effect
      | cons curr queue =>
          have excess : ∀ other, 0 ≤ heap.excess other := by
            intro other
            have := owned.nonneg other
            have := owns_nonneg (curr :: queue) other
            have := owns_nonneg visited other
            rw [effect.excess other]
            simp only [Pi.add_apply]
            omega
          have ownsCurr (other : Nat) : own curr other ≤
              base.excess other + (change + owns (curr :: queue) + owns visited)
                other := by
            have := owned.nonneg other
            have := owns_nonneg queue other
            have := owns_nonneg visited other
            simp only [Pi.add_apply, owns_cons]
            omega
          rw [List.length_cons] at enough
          unfold CompilerState.collectMethods
          split
          · apply Runs.bind
            apply Runs.release effect ownsCurr
            intro middle keptMiddle _ effectMiddle
            apply inductionHypothesis _ _ _ _
              (fun address self found =>
                kept address self (keptMiddle address self found))
              (by omega)
            apply effectMiddle.weaken _ fun _ _ => id
            rw [owns_cons]
            abel
          · next isNew =>
              obtain ⟨self, found⟩ : ∃ self, heap.object? curr = some self := by
                apply object_of_change effect
                have := ownsCurr curr
                rw [own_self] at this
                omega
              have fewer := unvisited_cons (kept curr self found) isNew
              apply Runs.bind
              apply Runs.load found
              cases self.compilerExtension with
              | none =>
                  apply inductionHypothesis _ _ _ _ kept (by omega)
                  apply effect.weaken _ fun _ _ => id
                  rw [owns_cons, owns_cons]
                  abel
              | some desc =>
                  apply Runs.bind
                  apply Runs.retainEach effect self.superclasses
                  · intro parent isParent
                    apply Heap.object_of_reference excess found
                    exact List.mem_append_left _
                      (List.mem_append_left _ isParent)
                  · intro middle same effectMiddle
                    apply inductionHypothesis
                    · apply effectMiddle.weaken _ fun _ _ => id
                      rw [owns_append, owns_reverse, owns_cons, owns_cons]
                      abel
                    · rw [same]
                      exact kept
                    · rw [List.length_append, List.length_reverse]
                      omega

/-! ## Comparing -/

/-- `enoughFuel` allows for every parent on the heap. -/
theorem unvisited_nil_lt (heap : ClassHeap) : 1 + unvisited heap
    [] = enoughFuel heap := by
  simp [unvisited, enoughFuel]

/-- Comparing a class with a protocol changes no object and no reference. -/
theorem Runs.validateProtocol
    (effect : Effect base heap change fun _ => True)
    (owned : Owns protocolRegistry base change)
    (desc : ClassDescription)
    (protoName : String)
    (implMethods : Methods)
    {post : Except String Unit → ClassHeap → Prop}
    (holds : ∀ result after,
      (∀ address self, after.object? address = some self →
        heap.object? address = some self) →
      Effect base after change (fun _ => True) → post result after) :
    Runs (validateProtocol protocolRegistry desc protoName implMethods) heap
      post := by
  apply Runs.bind
  apply Runs.getProtocol effect owned
  intro middle same effectMiddle
  cases found : find protoName protocolRegistry.registry with
  | none =>
      apply Runs.pure
      apply holds _ middle
      · rw [same]
        exact fun _ _ => id
      · simpa [found] using effectMiddle
  | some proto =>
      rw [found, Option.toList_some] at effectMiddle
      have collected :
          Runs (CompilerState.collectMethods (enoughFuel middle) [proto] [] [])
          middle fun result after =>
            (∀ address self, after.object? address = some self →
              middle.object? address = some self) ∧
            Effect base after (change + owns result.1) fun _ => True := by
        apply Runs.collectMethods middle (enoughFuel middle) [proto] [] []
          (by simpa using effectMiddle) owned (fun _ _ => id)
        · rw [← unvisited_nil_lt]
          simp
        · exact fun _ _ _ kept effectAfter => ⟨kept, effectAfter⟩
      apply Runs.bind
      obtain ⟨collectedMethods, reached, isReached, keptReached,
        effectReached⟩ := collected
      refine ⟨collectedMethods, reached, isReached, ?_⟩
      apply Runs.bind
      apply Runs.releaseEach effectReached collectedMethods.1
      · intro other
        have := owned.nonneg other
        rw [Pi.add_apply]
        omega
      · intro after keptAfter effectAfter
        apply Runs.pure
        apply holds _ after
        · intro address self found
          rw [← same]
          exact keptReached address self (keptAfter address self found)
        · rwa [add_sub_cancel_right] at effectAfter

/-- Comparing a class with its protocols changes no object and no reference. -/
theorem Runs.validateProtocols
    (effect : Effect base heap change fun _ => True)
    (owned : Owns protocolRegistry base change)
    (desc : ClassDescription)
    (implements : List (String × Methods))
    {post : Except String Unit → ClassHeap → Prop}
    (holds : ∀ result after,
      (∀ address self, after.object? address = some self →
        heap.object? address = some self) →
      Effect base after change (fun _ => True) → post result after) :
    Runs (validateProtocols protocolRegistry desc implements) heap post := by
  induction implements generalizing heap with
  | nil =>
      apply Runs.pure
      exact holds _ heap (fun _ _ => id) effect
  | cons implemented implements inductionHypothesis =>
      apply Runs.bind
      apply Runs.validateProtocol effect owned
      intro result middle keptMiddle effectMiddle
      cases result with
      | error message =>
          apply Runs.pure
          exact holds _ middle keptMiddle effectMiddle
      | ok =>
          apply inductionHypothesis effectMiddle
          intro result after keptAfter
          exact holds result after fun address self found =>
            keptMiddle address self (keptAfter address self found)

/-- The fifth phase changes no object and no reference, also where it throws. -/
theorem Runs.validateProtocolImplementations
    (effect : Effect base heap change fun _ => True)
    (owned : Owns protocolRegistry base change)
    (classes : List Nat)
    (held : ∀ c ∈ classes, 0 < base.excess c + change c)
    {post : Except String Unit → ClassHeap → Prop}
    (holds : ∀ result after,
      (∀ address self, after.object? address = some self →
        heap.object? address = some self) →
      Effect base after change (fun _ => True) → post result after) :
    Runs (validateProtocolImplementations protocolRegistry classes) heap
      post := by
  induction classes generalizing heap with
  | nil =>
      apply Runs.pure
      exact holds _ heap (fun _ _ => id) effect
  | cons c classes inductionHypothesis =>
      have heldLater : ∀ c ∈ classes, 0 < base.excess c + change c :=
        fun later isLater => held later (List.mem_cons_of_mem _ isLater)
      obtain ⟨self, found⟩ :=
        object_of_change effect (held c List.mem_cons_self)
      apply Runs.bind
      apply Runs.load found
      cases self.compilerExtension with
      | none => exact inductionHypothesis effect heldLater holds
      | some desc =>
          apply Runs.bind
          apply Runs.validateProtocols effect owned
          intro result middle keptMiddle effectMiddle
          cases result with
          | error message =>
              apply Runs.pure
              exact holds _ middle keptMiddle effectMiddle
          | ok =>
              apply inductionHypothesis effectMiddle heldLater
              intro result after keptAfter
              exact holds result after fun address self found =>
                keptMiddle address self (keptAfter address self found)

end Rules

end CompilerState
end ClojureRt
