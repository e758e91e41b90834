import ClojureRt.CompilerState.Registry
import ClojureRt.Lib.Search

/-!
# Checking for instances

`Class_isInstance` goes from a class to its superclasses and to the protocols
that it implements, and on from there.  Nothing keeps it from going around a
cycle.
-/

namespace ClojureRt
namespace CompilerState

open RefCount Search

/-- `objectRootType` -/
def objectRootType : Int :=
  20

/-- `Class_equals` -/
def Class.equals (self other : Class) : Bool :=
  self.registerId == other.registerId

/-- `Class_isInstance`.  There is no answer where the fuel does not suffice, and
where a class is not there any more. -/
def isInstance (heap : ClassHeap) : Nat → Nat → Nat → Option Bool
  | 0, _, _ => none
  | fuel + 1, current, target =>
      match heap.object? current, heap.object? target with
      | some currentClass, some targetClass =>
          if currentClass.registerId = targetClass.registerId ∨
              currentClass.registerId = objectRootType then
            some true
          else
            match anyOf (isInstance heap fuel current)
              targetClass.superclasses with
            | none => none
            | some true => some true
            | some false =>
                anyOf (isInstance heap fuel current)
                  targetClass.implementedProtocols
      | _, _ => none

/-- The superclasses of a class and the protocols that it implements. -/
def parents (heap : ClassHeap) (address : Nat) : List Nat :=
  match heap.object? address with
  | some self => self.superclasses ++ self.implementedProtocols
  | none => []

/-- A class that one is an instance of where an instance of it is reached. -/
def isAncestor (heap : ClassHeap) (currentClass : Class)
    (address : Nat) : Bool :=
  match heap.object? address with
  | some self =>
      currentClass.equals self || currentClass.registerId == objectRootType
  | none => false

/-- The class is the root, or one that equals it is reached from the target
through superclasses and implemented protocols. -/
def InstanceOf (heap : ClassHeap) (currentClass : Class)
    (target : Nat) : Prop :=
  currentClass.registerId = objectRootType ∨
    ∃ ancestor self,
      Relation.ReflTransGen (Edge (parents heap)) target ancestor ∧
      heap.object? ancestor = some self ∧ currentClass.equals self = true

section Heap

variable {heap : ClassHeap} {current target : Nat}
  {currentClass targetClass : Class}

/-- Whatever a class refers to is there. -/
theorem object_of_parent
    (nonneg : ∀ address, 0 ≤ heap.excess address)
    {parent : Nat}
    (isParent : parent ∈ parents heap target) :
    ∃ self, heap.object? parent = some self := by
  unfold parents at isParent
  cases found : heap.object? target with
  | none =>
      rw [found] at isParent
      cases isParent
  | some self =>
      rw [found] at isParent
      exact Heap.object_of_reference nonneg found
        (List.mem_append_left _ isParent)

theorem isInstance_eq_search
    (nonneg : ∀ address, 0 ≤ heap.excess address)
    (isCurrent : heap.object? current = some currentClass)
    (fuel : Nat)
    (isTarget : heap.object? target = some targetClass) :
    isInstance heap fuel current target =
      search (parents heap) (isAncestor heap currentClass) fuel target := by
  induction fuel generalizing target targetClass with
  | zero => rfl
  | succ fuel inductionHypothesis =>
      have areParents : parents heap target =
          targetClass.superclasses ++ targetClass.implementedProtocols := by
        rw [parents, isTarget]
      have sameAnswers (addresses : List Nat)
          (arePart : ∀ address ∈ addresses, address ∈ parents heap target) :
          anyOf (isInstance heap fuel current) addresses =
            anyOf (search (parents heap) (isAncestor heap currentClass) fuel)
              addresses := by
        induction addresses with
        | nil => rfl
        | cons first rest laterHypothesis =>
            rw [List.forall_mem_cons] at arePart
            obtain ⟨self, found⟩ := object_of_parent nonneg arePart.1
            rw [anyOf, anyOf, inductionHypothesis found,
              laterHypothesis arePart.2]
      have sameTest : isAncestor heap currentClass target = true ↔
          currentClass.registerId = targetClass.registerId ∨
            currentClass.registerId = objectRootType := by
        simp [isAncestor, isTarget, Class.equals]
      have superclasses := sameAnswers targetClass.superclasses
        fun _ isIn => areParents ▸ List.mem_append_left _ isIn
      have protocols := sameAnswers targetClass.implementedProtocols
        fun _ isIn => areParents ▸ List.mem_append_right _ isIn
      unfold isInstance search
      cases isFirst :
        anyOf (search (parents heap) (isAncestor heap currentClass) fuel)
        targetClass.superclasses with
      | none =>
          simp only [isCurrent, isTarget, sameTest, areParents, anyOf_append,
            superclasses, isFirst]
      | some answer =>
          cases answer <;>
            simp only [isCurrent, isTarget, sameTest, areParents, anyOf_append,
              superclasses, protocols, isFirst]

theorem leads_iff_instanceOf
    (isTarget : heap.object? target = some targetClass) :
    Leads (parents heap) (isAncestor heap currentClass) target ↔
      InstanceOf heap currentClass target := by
  constructor
  · rintro ⟨ancestor, path, found⟩
    unfold isAncestor at found
    cases isThere : heap.object? ancestor with
    | none =>
        rw [isThere] at found
        cases found
    | some self =>
        rw [isThere] at found
        rcases Bool.or_eq_true_iff.mp found with isEqual | isRoot
        · exact Or.inr ⟨ancestor, self, path, isThere, isEqual⟩
        · exact Or.inl (eq_of_beq isRoot)
  · rintro (isRoot | ⟨ancestor, self, path, isThere, isEqual⟩)
    · exact ⟨target, .refl, by simp [isAncestor, isTarget, isRoot]⟩
    · exact ⟨ancestor, path, by simp [isAncestor, isThere, isEqual]⟩

/-- Where the ancestors of the target form no cycle, the check comes to an end
and is right. -/
theorem exists_isInstance
    (nonneg : ∀ address, 0 ≤ heap.excess address)
    (isCurrent : heap.object? current = some currentClass)
    (isTarget : heap.object? target = some targetClass)
    (ends : Ends (parents heap) target) :
    ∃ fuel answer,
      (∀ more, fuel ≤ more →
      isInstance heap more current target = some answer) ∧
      (answer = true ↔ InstanceOf heap currentClass target) := by
  obtain ⟨fuel, answer, isAnswer⟩ :=
    exists_search (isAncestor heap currentClass) ends
  refine ⟨fuel, answer, ?_, ?_⟩
  · intro more enough
    rw [isInstance_eq_search nonneg isCurrent more isTarget]
    exact search_of_le enough isAnswer
  · rw [← leads_iff_instanceOf isTarget]
    cases answer with
    | true => exact iff_of_true rfl (leads_of_search isAnswer)
    | false => exact iff_of_false Bool.false_ne_true (ends_of_search isAnswer).2

/-- An instance check is never wrong, and it finds out that something is no
instance exactly where the ancestors of the target form no cycle.  With a cycle
among them, a check for another class does not come to an end. -/
theorem isInstance_exact
    (heap : ClassHeap)
    (nonneg : ∀ address, 0 ≤ heap.excess address)
    (current target : Nat)
    (currentClass targetClass : Class)
    (isCurrent : heap.object? current = some currentClass)
    (isTarget : heap.object? target = some targetClass) :
    (∀ fuel, isInstance heap fuel current target = some true →
      InstanceOf heap currentClass target) ∧
    ((∃ fuel, isInstance heap fuel current target = some false) ↔
      ¬ InstanceOf heap currentClass target ∧ Ends (parents heap) target) ∧
    (Ends (parents heap) target → InstanceOf heap currentClass target →
      ∃ fuel, isInstance heap fuel current target = some true) := by
  simp only [isInstance_eq_search nonneg isCurrent _ isTarget,
    ← leads_iff_instanceOf isTarget]
  refine ⟨fun fuel => leads_of_search, ?_,
    fun ends leads => (search_true_iff ends).mpr leads⟩
  rw [search_false_iff, and_comm]

/-- A class that is its own parent, at the address 0, and another class. -/
def ownParent : ClassHeap :=
  (Heap.empty.set 0 (some ⟨2, ⟨1000, [0], [], none, none⟩⟩)).set 1
    (some ⟨1, ⟨1001, [], [], none, none⟩⟩)

theorem ownParent_nonneg (address : Nat) : 0 ≤ ownParent.excess address := by
  unfold ownParent
  rw [Heap.excess_set, Heap.excess_set]
  by_cases isZero : address = 0
  · subst isZero
    decide
  · by_cases isOne : address = 1
    · subst isOne
      decide
    · simp [Heap.excess, Heap.count, Heap.incoming, Heap.referencesAt,
        Heap.empty, Cell.countOf, Cell.referencesOf, Referencing.references,
        Heap.set, isZero, isOne, Ne.symm isZero]

theorem isInstance_exact_ownParent :
    ¬ ∃ fuel answer, isInstance ownParent fuel 1 0 = some answer := by
  obtain ⟨onlyRight, noExactly, _⟩ := isInstance_exact ownParent
    ownParent_nonneg 1 0
    ⟨1001, [], [], none, none⟩ ⟨1000, [0], [], none, none⟩ rfl rfl
  have onlyItself : ∀ ancestor,
    Relation.ReflTransGen (Edge (parents ownParent)) 0 ancestor →
      ancestor = 0 := by
    intro ancestor path
    induction path with
    | refl => rfl
    | tail _ edge inductionHypothesis =>
        subst inductionHypothesis
        exact List.mem_singleton.mp edge
  have noInstance : ¬ InstanceOf ownParent ⟨1001, [], [], none, none⟩ 0 := by
    rintro (isRoot | ⟨ancestor, self, path, isThere, isEqual⟩)
    · exact absurd isRoot (by decide)
    · rw [onlyItself ancestor path] at isThere
      cases isThere
      cases isEqual
  have goesOn : ¬ Ends (parents ownParent) 0 := by
    intro ends
    exact ends.acyclic (.single (List.mem_singleton_self 0))
  rintro ⟨fuel, answer, isAnswer⟩
  cases answer with
  | true => exact noInstance (onlyRight fuel isAnswer)
  | false => exact goesOn (noExactly.mp ⟨fuel, isAnswer⟩).2

end Heap

end CompilerState
end ClojureRt
