import ClojureRt.CompilerState.StoreClasses
import Mathlib.Tactic.Abel

/-!
# Creating and linking classes

Each rule says what has happened since a heap `base`: how much more is owned,
and which of the old objects may have other fields.  Nothing is freed in the
first two phases, so every other object is as it was.
-/

namespace ClojureRt
namespace CompilerState

open RefCount RefCount.Program

section Rules

variable
  {state : ThreadsafeCompilerState}
  {localMap : LocalMap}
  {base heap : ClassHeap}
  {change : Nat → Int}
  {changed : Nat → Prop}

/-- Owning one address. -/
theorem owns_singleton (address : Nat) : owns [address] = own address := by
  rw [owns_cons, owns_nil, add_zero]

/-- Nothing is owned a negative number of times. -/
theorem own_nonneg (address other : Nat) : 0 ≤ own address other := by
  unfold own
  split <;> decide

/-- The address itself is owned once. -/
theorem own_self (address : Nat) : own address address = 1 := by
  simp [own]

/-- What is in a list is owned. -/
theorem owns_pos_of_mem {address : Nat} {addresses : List Nat}
    (isIn : address ∈ addresses) :
    0 < owns addresses address := by
  simpa [owns] using isIn

/-- A class refers to its parents, to its protocols and to what it extends. -/
theorem owns_references (self : Class) :
    owns (Referencing.references self) =
      owns self.superclasses + owns self.implementedProtocols +
        owns self.extendsClass.toList := by
  rw [← owns_append, ← owns_append]
  rfl

/-! ## Looking for parents -/

/-- What `findParent` finds. -/
def resolve (state : ThreadsafeCompilerState) (localMap : LocalMap)
    (name : String) : Option Nat :=
  (find name localMap).or
    ((find name state.classRegistry.registry).or
      (find name state.protocolRegistry.registry))

/-- What is found by name is there. -/
def Resolvable (state : ThreadsafeCompilerState) (localMap : LocalMap)
    (heap : ClassHeap) : Prop :=
  ∀ name pc, resolve state localMap name = some pc → ∃ object,
    heap.object? pc = some object

/-- What names stand for stays on the heap. -/
theorem Resolvable.of_present
    {after : ClassHeap}
    (resolvable : Resolvable state localMap heap)
    (present : ∀ address object, heap.object? address = some object →
      ∃ now, after.object? address = some now) :
        Resolvable state localMap after := by
  intro name pc isParent
  obtain ⟨object, found⟩ := resolvable name pc isParent
  exact present pc object found

/-- Looking a name up gives one reference to what is registered for it, and
changes no object. -/
theorem Runs.getCurrent
    (effect : Effect base heap change changed)
    (registry : ThreadsafeRegistry)
    (name : String)
    {post : Option Nat → ClassHeap → Prop}
    (isThere : ∀ c, find name registry.registry = some c → ∃ object,
      heap.object? c = some object)
    (holds : ∀ after, after.object? = heap.object? →
      Effect base after (change + owns (find name registry.registry).toList)
        changed →
      post (find name registry.registry) after) :
    Runs (registry.getCurrent name) heap post := by
  unfold ThreadsafeRegistry.getCurrent
  cases found : find name registry.registry with
  | none =>
      rw [found] at holds
      apply Runs.pure
      apply holds heap rfl
      simpa using effect
  | some c =>
      rw [found] at holds
      obtain ⟨object, isObject⟩ := isThere c found
      apply Runs.bind
      apply Runs.retain effect isObject
      intro after same effectAfter
      apply Runs.pure
      apply holds after same
      rwa [Option.toList_some, owns_singleton]

/-- Looking a parent up gives one reference to what the name stands for, and
changes no object. -/
theorem Runs.findParent
    (effect : Effect base heap change changed)
    (resolvable : Resolvable state localMap heap)
    (name : String)
    {post : Option Nat → ClassHeap → Prop}
    (holds : ∀ after, after.object? = heap.object? →
      Effect base after (change + owns (resolve state localMap name).toList)
        changed →
      post (resolve state localMap name) after) :
    Runs (findParent state localMap name) heap post := by
  have isThere := resolvable name
  unfold resolve at isThere holds
  unfold CompilerState.findParent
  cases inMap : find name localMap with
  | some pc =>
      rw [inMap] at isThere holds
      obtain ⟨object, isObject⟩ := isThere pc rfl
      apply Runs.bind
      apply Runs.retain effect isObject
      intro after same effectAfter
      apply Runs.pure
      apply holds after same
      rwa [Option.some_or, Option.toList_some, owns_singleton]
  | none =>
      rw [inMap, Option.none_or] at isThere holds
      apply Runs.bind
      apply Runs.getCurrent effect
      · intro c found
        exact isThere c (by rw [found, Option.some_or])
      · intro middle sameMiddle effectMiddle
        cases found : find name state.classRegistry.registry with
        | some pc =>
            rw [found] at holds effectMiddle
            apply Runs.pure
            exact holds middle sameMiddle effectMiddle
        | none =>
            rw [found, Option.none_or] at isThere holds
            rw [found, Option.toList_none, owns_nil, add_zero] at effectMiddle
            apply Runs.getCurrent effectMiddle
            · rw [sameMiddle]
              exact isThere
            · intro after same
              exact holds after (same.trans sameMiddle)

/-! ## Linking one class -/

/-- What linking some parents comes to: the parents that are held, and whether
all of them were found. -/
inductive Resolved (resolve : String → Option Nat) :
    List String → Except String (List Nat) → List Nat → Prop
  | all (names : List String) (parents : List Nat)
      (resolved : names.mapM resolve = some parents) :
      Resolved resolve names (.ok parents) parents
  | missing (before : List String) (name : String) (after : List String)
      (parents : List Nat)
      (resolved : before.mapM resolve = some parents)
      (unknown : resolve name = none) :
      Resolved resolve (before ++ name :: after)
        (.error ("Parent class/protocol not found: " ++ name)) parents

/-- Where the loop does not throw, it returns all the parents. -/
theorem Resolved.eq_of_ok
    {resolve : String → Option Nat}
    {names : List String}
    {list parents : List Nat}
    (resolved : Resolved resolve names (.ok list) parents) :
    list = parents ∧ names.mapM resolve = some parents := by
  cases resolved with
  | all _ _ resolved => exact ⟨rfl, resolved⟩

/-- One more name that stands for a parent. -/
theorem mapM_cons_of_some
    {resolve : String → Option Nat}
    {name : String}
    {names : List String}
    {parent : Nat}
    {parents : List Nat}
    (isParent : resolve name = some parent)
    (resolved : names.mapM resolve = some parents) :
    (name :: names).mapM resolve = some (parent :: parents) := by
  rw [List.mapM_cons, isParent, resolved]
  rfl

/-- The class after its first parent may have been linked. -/
def extended (self : Class) : Bool → List Nat → Class
  | true, pc :: _ => { self with extendsClass := some pc }
  | _, _ => self

/-- The first parent is written into the class, which takes one more
reference. -/
theorem Runs.linkExtends
    (effect : Effect base heap change changed)
    {c pc : Nat}
    {self parent : Class}
    (found : heap.object? c = some self)
    (isParent : heap.object? pc = some parent)
    (isFirst : Bool)
    (noExtends : isFirst = true → self.extendsClass = none)
    {post : Unit → ClassHeap → Prop}
    (holds : ∀ after, after.object? c = some (extended self isFirst [pc]) →
      (∀ other, other ≠ c → after.object? other = heap.object? other) →
      Effect base after change (fun other => changed other ∨ other = c) →
        post () after) :
    Runs (linkExtends c pc isFirst) heap post := by
  cases isFirst with
  | false =>
      apply Runs.pure
      apply holds heap found fun _ _ => rfl
      exact effect.weaken rfl fun _ _ => Or.inl
  | true =>
      apply Runs.bind
      apply Runs.load found
      apply Runs.bind
      apply Runs.store effect found
      intro stored isStored others storeEffect
      have parentStored : ∃ now, stored.object? pc = some now := by
        by_cases same : pc = c
        · rw [same]
          exact ⟨_, isStored⟩
        · exact ⟨parent, by rw [others pc same, isParent]⟩
      obtain ⟨now, isNow⟩ := parentStored
      apply Runs.retain storeEffect isNow
      intro after same retainEffect
      apply holds after
      · rw [same]
        exact isStored
      · intro other distinct
        rw [same, others other distinct]
      · apply retainEffect.weaken _ fun _ _ => id
        rw [owns_references, owns_references, noExtends rfl]
        simp only [Option.toList_none, Option.toList_some, owns_nil,
          owns_singleton]
        abel

/-- The loop retains every parent that it finds, and writes the first one into
the class. -/
theorem Runs.linkParents
    (effect : Effect base heap change changed)
    (resolvable : Resolvable state localMap heap)
    {c : Nat}
    {self : Class}
    (found : heap.object? c = some self)
    (isFirst : Bool)
    (noExtends : isFirst = true → self.extendsClass = none)
    (names : List String)
    {post : Except String (List Nat) → ClassHeap → Prop}
    (holds : ∀ result parents after,
      Resolved (resolve state localMap) names result parents →
      after.object? c = some (extended self isFirst parents) →
      (∀ other, other ≠ c → after.object? other = heap.object? other) →
      Effect base after (change + owns parents)
        (fun other => changed other ∨ other = c) →
      post result after) :
    Runs (linkParents state localMap c isFirst names) heap post := by
  induction names generalizing heap change changed self isFirst post with
  | nil =>
      apply Runs.pure
      apply holds _ _ heap (.all [] [] rfl) _ fun _ _ => rfl
      · rw [owns_nil, add_zero]
        exact effect.weaken rfl fun _ _ => Or.inl
      · cases isFirst <;> exact found
  | cons name names inductionHypothesis =>
      apply Runs.bind
      apply Runs.findParent effect resolvable name
      intro middle sameMiddle effectMiddle
      cases isParent : resolve state localMap name with
      | none =>
          apply Runs.pure
          apply holds _ [] middle (.missing [] name names [] rfl isParent)
          · rw [sameMiddle, found]
            cases isFirst <;> rfl
          · intro other _
            rw [sameMiddle]
          · rw [isParent] at effectMiddle
            exact effectMiddle.weaken rfl fun _ _ => Or.inl
      | some pc =>
          rw [isParent, Option.toList_some, owns_singleton] at effectMiddle
          obtain ⟨parent, isObject⟩ := resolvable name pc isParent
          rw [← sameMiddle] at isObject found
          apply Runs.bind
          apply Runs.linkExtends effectMiddle found isObject isFirst noExtends
          intro linked isLinked others linkedEffect
          have resolvableLinked : Resolvable state localMap linked := by
            apply resolvable.of_present
            intro address object isThere
            by_cases same : address = c
            · rw [same]
              exact ⟨_, isLinked⟩
            · exact ⟨object, by rw [others address same, sameMiddle, isThere]⟩
          apply Runs.bind
          apply inductionHypothesis linkedEffect resolvableLinked isLinked false
            (by simp)
          intro result parents after resolved isAfter othersAfter effectAfter
          have sameOthers : ∀ other,
              other ≠ c → after.object? other = heap.object? other := by
            intro other distinct
            rw [othersAfter other distinct, others other distinct, sameMiddle]
          have isExtended :
              after.object? c =
              some (extended self isFirst (pc :: parents)) := by
            rw [isAfter]
            cases isFirst <;> rfl
          have total : Effect base after (change + owns (pc :: parents))
              fun other => changed other ∨ other = c := by
            apply effectAfter.weaken
            · rw [owns_cons, add_assoc]
            · intro other _ either
              exact either.elim id Or.inr
          cases resolved with
          | all _ parents resolved =>
              apply Runs.pure
              exact holds _ _ after
                (.all _ _ (mapM_cons_of_some isParent resolved)) isExtended
                sameOthers total
          | missing before unknown later parents resolved isUnknown =>
              apply Runs.pure
              exact holds _ _ after
                (.missing (name :: before) unknown later _
                  (mapM_cons_of_some isParent resolved) isUnknown)
                isExtended sameOthers total

/-- A class after its parents have been linked. -/
def linkedHull (desc : ClassDescription) (parents : List Nat) : Class :=
  { hull desc with superclasses := parents, extendsClass := parents.head? }

/-- A class while its parents are being linked. -/
def halfLinked (desc : ClassDescription) (parents : List Nat) : Class :=
  { hull desc with extendsClass := parents.head? }

/-- A new class with its first parent. -/
theorem extended_hull (desc : ClassDescription) (parents : List Nat) :
    extended (hull desc) true parents = halfLinked desc parents := by
  cases parents <;> rfl

/-- What linking a class comes to. -/
inductive ClassLinked (resolve : String → Option Nat)
    (desc : ClassDescription) :
    Except String Unit → Class → List Nat → Prop
  | linked (parents : List Nat)
      (resolved : desc.parentNames.mapM resolve = some parents) :
      ClassLinked resolve desc (.ok ()) (linkedHull desc parents) []
  | stopped (message : String) (parents : List Nat)
      (resolved : Resolved resolve desc.parentNames (.error message) parents) :
      ClassLinked resolve desc (.error message)
        (halfLinked desc parents) parents

/-- A class gets its parents, or keeps only the first one where a parent is not
found. The references to the parents that were found before are lost in that
case. -/
theorem Runs.linkClass
    (effect : Effect base heap change changed)
    (resolvable : Resolvable state localMap heap)
    {c : Nat}
    {desc : ClassDescription}
    (found : heap.object? c = some (hull desc))
    {post : Except String Unit → ClassHeap → Prop}
    (holds : ∀ result self lost after,
      ClassLinked (resolve state localMap) desc result self lost →
      after.object? c = some self →
      (∀ other, other ≠ c → after.object? other = heap.object? other) →
      Effect base after (change + owns lost)
        (fun other => changed other ∨ other = c) →
      post result after) :
    Runs (linkClass state localMap c) heap post := by
  apply Runs.bind
  apply Runs.load found
  change Runs (if desc.parentName ≠ "" ∨ desc.parentNames ≠ [] then _ else _) heap post
  split
  · apply Runs.bind
    apply Runs.linkParents effect resolvable found true (fun _ => rfl)
    intro result parents after resolved isAfter others effectAfter
    rw [extended_hull] at isAfter
    cases result with
    | error message =>
        apply Runs.pure
        exact holds _ _ parents after (.stopped message parents resolved)
          isAfter others effectAfter
    | ok list =>
        obtain ⟨rfl, isResolved⟩ := resolved.eq_of_ok
        apply Runs.bind
        apply Runs.load isAfter
        apply Runs.bind
        apply Runs.store effectAfter isAfter
        intro stored isStored othersStored storeEffect
        apply Runs.pure
        apply holds _ _ [] stored (.linked list isResolved) isStored
        · intro other distinct
          rw [othersStored other distinct, others other distinct]
        · apply storeEffect.weaken
          · rw [owns_references, owns_references]
            simp only [halfLinked, hull, owns_nil]
            abel
          · intro other _ either
            exact either.elim id Or.inr
  · next noParents =>
      push Not at noParents
      apply Runs.pure
      apply holds _ _ [] heap (.linked [] _) found fun _ _ => rfl
      · rw [owns_nil, add_zero]
        exact effect.weaken rfl fun _ _ => Or.inl
      · rw [noParents.2]
        rfl

/-! ## Creating the classes -/

/-- A description, and the class that is created for it. -/
abbrev Local := ClassDescription × Nat

/-- The local map for some classes. -/
def entries (locals : List Local) : LocalMap :=
  locals.map fun created => (created.1.name, created.2)

/-- The first phase allocates a class for each description, with one reference
to each. -/
theorem Runs.createHulls
    (effect : Effect base heap change changed)
    (descriptions : List ClassDescription)
    (distinct :
      (localMap.map Prod.fst ++ descriptions.map ClassDescription.name).Nodup)
    {post : LocalMap → ClassHeap → Prop}
    (holds : ∀ locals after, locals.map Prod.fst = descriptions →
      (∀ created ∈ locals, heap.next ≤ created.2 ∧
        after.object? created.2 = some (hull created.1)) →
      (locals.map Prod.snd).Nodup →
      (∀ other, other < heap.next → after.object? other = heap.object? other) →
      (∀ other object, after.object? other = some object → heap.next ≤ other →
        other ∈ locals.map Prod.snd) →
      Effect base after (change + owns (locals.map Prod.snd)) changed →
      post (localMap ++ entries locals) after) :
    Runs (createHulls descriptions localMap) heap post := by
  induction descriptions generalizing localMap heap change post with
  | nil =>
      apply Runs.pure
      have unchanged :=
        holds [] heap rfl (by simp) List.nodup_nil (fun _ _ => rfl)
      simp only [entries, List.map_nil, List.append_nil, owns_nil,
        add_zero] at unchanged
      apply unchanged _ effect
      intro other object found beyond
      have := Heap.lt_next_of_object found
      omega
  | cons desc descriptions inductionHypothesis =>
      apply Runs.bind
      apply Runs.allocate effect
      intro middle isHull others grows effectMiddle
      have isNew : desc.name ∉ localMap.map Prod.fst := by
        rw [List.nodup_append] at distinct
        intro isOld
        exact distinct.2.2 desc.name isOld desc.name List.mem_cons_self rfl
      rw [insert_eq_append isNew]
      apply inductionHypothesis effectMiddle (by simpa using distinct)
      intro locals after isAll areHulls distinctAddresses kept onlyLocals effectAfter
      have atNext : after.object? heap.next = some (hull desc) := by
        rw [kept heap.next grows, isHull]
      have created :=
        holds ((desc, heap.next) :: locals) after (by rw [List.map_cons, isAll])
      rw [entries, List.map_cons, ← entries] at created
      rw [List.append_assoc]
      apply created
      · intro made isMade
        rcases List.mem_cons.mp isMade with rfl | isLater
        · exact ⟨Nat.le_refl _, atNext⟩
        · obtain ⟨beyond, isHull⟩ := areHulls made isLater
          exact ⟨by omega, isHull⟩
      · rw [List.nodup_cons]
        refine ⟨fun isLater => ?_, distinctAddresses⟩
        obtain ⟨made, isMade, isNext⟩ := List.mem_map.mp isLater
        have := (areHulls made isMade).1
        omega
      · intro other below
        rw [kept other (by omega), others other (by omega)]
      · intro other object found beyond
        rw [List.mem_cons]
        by_cases isNext : other = heap.next
        · exact Or.inl isNext
        · refine Or.inr (onlyLocals other object found ?_)
          by_contra below
          rw [kept other (by omega), others other isNext] at found
          have := Heap.lt_next_of_object found
          omega
      · apply effectAfter.weaken _ fun _ _ => id
        rw [owns_cons, owns_references]
        simp only [hull, Option.toList_none, owns_nil]
        abel

/-! ## Linking all classes -/

/-- What linking the classes comes to, with the references that are lost. -/
inductive AllLinked (resolve : String → Option Nat) (heap : ClassHeap) :
    List Local → Except String Unit → List Nat → Prop
  | nil : AllLinked resolve heap [] (.ok ()) []
  | cons
      (desc : ClassDescription)
      (c : Nat)
      (parents : List Nat)
      (resolved : desc.parentNames.mapM resolve = some parents)
      (isLinked : heap.object? c = some (linkedHull desc parents))
      {rest : List Local}
      {result : Except String Unit}
      {lost : List Nat}
      (later : AllLinked resolve heap rest result lost) :
      AllLinked resolve heap ((desc, c) :: rest) result lost
  | stopped
      (desc : ClassDescription)
      (c : Nat)
      (message : String)
      (parents : List Nat)
      (resolved : Resolved resolve desc.parentNames (.error message) parents)
      (isLinked : heap.object? c = some (halfLinked desc parents))
      {rest : List Local}
      (later : ∀ created ∈ rest,
        heap.object? created.2 = some (hull created.1)) :
      AllLinked resolve heap ((desc, c) :: rest) (.error message) parents

/-- The second phase writes the new classes only.  Nothing is lost unless it
throws. -/
theorem Runs.linkInheritance
    (effect : Effect base heap change changed)
    (resolvable : Resolvable state localMap heap)
    (locals : List Local)
    (areHulls : ∀ created ∈ locals,
      heap.object? created.2 = some (hull created.1))
    (distinct : (locals.map Prod.snd).Nodup)
    {post : Except String Unit → ClassHeap → Prop}
    (holds : ∀ result lost after,
      AllLinked (resolve state localMap) after locals result lost →
      (∀ other, other ∉ locals.map Prod.snd →
        after.object? other = heap.object? other) →
      Effect base after (change + owns lost)
        (fun other => changed other ∨ other ∈ locals.map Prod.snd) →
      post result after) :
    Runs (linkInheritance state localMap (entries locals)) heap post := by
  induction locals generalizing heap change changed post with
  | nil =>
      apply Runs.pure
      apply holds _ [] heap .nil fun _ _ => rfl
      rw [owns_nil, add_zero]
      exact effect.weaken rfl fun _ _ => Or.inl
  | cons created locals inductionHypothesis =>
      obtain ⟨desc, c⟩ := created
      rw [List.map_cons, List.nodup_cons] at distinct
      apply Runs.bind
      apply Runs.linkClass effect resolvable
        (areHulls (desc, c) List.mem_cons_self)
      intro result self lost middle linked isSelf others effectMiddle
      have areStillHulls : ∀ created ∈ locals,
          middle.object? created.2 = some (hull created.1) := by
        intro created isLater
        have isOther : created.2 ≠ c := by
          rintro rfl
          exact distinct.1 (List.mem_map.mpr ⟨created, isLater, rfl⟩)
        rw [others created.2 isOther,
          areHulls created (List.mem_cons_of_mem _ isLater)]
      cases linked with
      | linked parents resolved =>
          rw [owns_nil, add_zero] at effectMiddle
          have resolvableMiddle : Resolvable state localMap middle := by
            apply resolvable.of_present
            intro address object isThere
            by_cases same : address = c
            · rw [same]
              exact ⟨_, isSelf⟩
            · exact ⟨object, by rw [others address same, isThere]⟩
          apply inductionHypothesis effectMiddle resolvableMiddle areStillHulls
            distinct.2
          intro result lost after linkedLater othersAfter effectAfter
          apply holds result lost after
          · apply AllLinked.cons desc c parents resolved _ linkedLater
            rw [othersAfter c distinct.1, isSelf]
          · intro other notIn
            rw [List.map_cons, List.mem_cons, not_or] at notIn
            rw [othersAfter other notIn.2, others other notIn.1]
          · apply effectAfter.weaken rfl
            intro other _ either
            simp only [List.map_cons, List.mem_cons]
            tauto
      | stopped message parents resolved =>
          apply Runs.pure
          apply holds _ lost middle
          · exact .stopped desc c message lost resolved isSelf areStillHulls
          · intro other notIn
            rw [List.map_cons, List.mem_cons, not_or] at notIn
            exact others other notIn.1
          · apply effectMiddle.weaken rfl
            intro other _ either
            simp only [List.map_cons, List.mem_cons]
            tauto

/-! ## Releasing -/

/-- One reference to each object is given up. -/
theorem Runs.releaseEach
    (effect : Effect base heap change changed)
    (addresses : List Nat)
    (owned : ∀ other, owns addresses other ≤ base.excess other + change other)
    {post : Unit → ClassHeap → Prop}
    (holds : ∀ after,
      (∀ other object, after.object? other = some object →
        heap.object? other = some object) →
      Effect base after (change - owns addresses) changed → post () after) :
    Runs (releaseEach addresses) heap post := by
  induction addresses generalizing heap change post with
  | nil =>
      apply Runs.pure
      apply holds heap fun _ _ => id
      rwa [owns_nil, sub_zero]
  | cons address addresses inductionHypothesis =>
      have ownedApart : ∀ other, own address other + owns addresses other ≤
          base.excess other + change other := by
        intro other
        have := owned other
        rwa [owns_cons, Pi.add_apply] at this
      apply Runs.bind
      apply Runs.release effect
      · intro other
        have := ownedApart other
        have := owns_nonneg addresses other
        omega
      · intro middle keptMiddle _ effectMiddle
        apply inductionHypothesis effectMiddle
        · intro other
          have := ownedApart other
          rw [Pi.sub_apply]
          omega
        · intro after kept effectAfter
          apply holds after
          · intro other object found
            exact keptMiddle other object (kept other object found)
          · apply effectAfter.weaken _ fun _ _ => id
            rw [owns_cons]
            abel

end Rules

end CompilerState
end ClojureRt
