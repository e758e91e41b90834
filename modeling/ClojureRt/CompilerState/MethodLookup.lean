import ClojureRt.CompilerState.Atomicity
import ClojureRt.Lib.Search

/-!
# Looking for an instance method

`generateDeterminedInstanceCall` looks for a method in a class and its
protocols, and then in the class that is registered under the name of the
parent.  A class that names itself as its parent ends the loop, but longer
cycles of names do not.
-/

namespace ClojureRt
namespace CompilerState

open RefCount RefCount.Program Search

/-- The first implemented protocol that has the method. -/
def implementedVersions (methodName : String) :
    List (String × Methods) → Option (List IntrinsicDescription)
  | [] => none
  | (_, protoMethods) :: rest =>
      match find methodName protoMethods with
      | some versions => some versions
      | none => implementedVersions methodName rest

/-- The method of a class, or of one of its protocols. -/
def versionsOf (methodName : String) (ext : ClassDescription) :
    Option (List IntrinsicDescription) :=
  match find methodName ext.instanceFns with
  | some versions => some versions
  | none => implementedVersions methodName ext.implements

/-- The class has no parent but itself. -/
def endsHere (ext : ClassDescription) : Bool :=
  ext.parentName == "" || ext.parentName == ext.name

/-- What one round of the loop comes to: the versions that were found and the
class that is held when the loop ends, or the class to go on with. -/
inductive Round
  | ended (versions : Option (List IntrinsicDescription)) (currCls : Option Nat)
  | goesOn (currCls : Nat)

/-- One round of the loop, which gives up the class or holds it. -/
def findRound (classRegistry : ThreadsafeRegistry) (methodName : String)
    (currCls : Nat) :
    Code Round := do
  match (← load currCls).compilerExtension with
  | none => return .ended none (some currCls)
  | some currExt =>
      match versionsOf methodName currExt with
      | some versions => return .ended (some versions) (some currCls)
      | none =>
          if endsHere currExt then return .ended none (some currCls)
          else do
            let parentCls ← classRegistry.getCurrent currExt.parentName
            release currCls
            match parentCls with
            | none => return .ended none none
            | some parentCls => return .goesOn parentCls

/-- The loop -/
def findVersions (classRegistry : ThreadsafeRegistry) (methodName : String) :
    Nat → Nat → Code (Option (List IntrinsicDescription) × Option Nat)
  | 0, _ => undefined
  | fuel + 1, currCls => do
      match ← findRound classRegistry methodName currCls with
      | .ended versions currCls => return (versions, currCls)
      | .goesOn parentCls =>
          findVersions classRegistry methodName fuel parentCls

/-- The class that is held at the end is released. -/
def releaseHeld : Option Nat → Code Unit
  | some currCls => release currCls
  | none => return ()

/-- What `generateDeterminedInstanceCall` finds for an instance of a type, up to
what it generates for the versions. -/
def resolveMethod (state : ThreadsafeCompilerState) (fuel : Nat)
    (methodName : String)
    (objType : Int) (typeName : String) :
    Code (Except String (List IntrinsicDescription)) :=
  match find objType state.classRegistry.indexedRegistry with
  | none => return .error ("Class not found for instance type: " ++ typeName)
  | some cls => do
      retain cls
      match (← load cls).compilerExtension with
      | none => do
          release cls
          return .error ("Class " ++ typeName ++ " does not have compiler metadata")
      | some _ => do
          retain cls
          let (versions, currCls) ← findVersions state.classRegistry methodName
            fuel cls
          releaseHeld currCls
          release cls
          match versions with
          | none =>
              return .error ("Class " ++ typeName ++
                " (or any of its parents) does not have an instance method " ++ methodName)
          | some versions => return .ok versions

/-! ## The chain of parents -/

section Chain

variable
  {classRegistry : ThreadsafeRegistry}
  {methodName : String}
  {heap : ClassHeap}

/-- The versions that a class on the heap has by itself. -/
def versionsAt (heap : ClassHeap) (methodName : String) (address : Nat) :
    Option (List IntrinsicDescription) :=
  ((heap.object? address).bind Class.compilerExtension).bind
  (versionsOf methodName)

/-- Where the loop goes from a class. -/
def nextClass (classRegistry : ThreadsafeRegistry) (methodName : String)
    (heap : ClassHeap)
    (address : Nat) : Option Nat :=
  match (heap.object? address).bind Class.compilerExtension with
  | none => none
  | some ext =>
      if (versionsOf methodName ext).isSome || endsHere ext then none
      else find ext.parentName classRegistry.registry

/-- The chain of parents ends at a class, and that class has the versions. -/
def Inherits (classRegistry : ThreadsafeRegistry) (methodName : String)
    (heap : ClassHeap)
    (address : Nat) (versions : Option (List IntrinsicDescription)) : Prop :=
  ∃ steps last,
    walk (nextClass classRegistry methodName heap) steps address = some last ∧
    nextClass classRegistry methodName heap last = none ∧
    versionsAt heap methodName last = versions

/-- The classes that the chain goes through after the first one. -/
def chained (classRegistry : ThreadsafeRegistry) : Finset Nat :=
  (classRegistry.registry.map Prod.snd).toFinset

theorem nextClass_mem
    {source target : Nat}
    (isNext : nextClass classRegistry methodName heap source = some target) :
    target ∈ chained classRegistry := by
  unfold nextClass at isNext
  split at isNext
  · cases isNext
  · split at isNext
    · cases isNext
    · exact List.mem_toFinset.mpr (mem_roots_of_find isNext)

theorem card_chained_le :
    (chained classRegistry).card ≤ classRegistry.registry.length := by
  have := List.toFinset_card_le (classRegistry.registry.map Prod.snd)
  rwa [List.length_map] at this

end Chain

/-! ## The loop follows the chain -/

section Rules

variable
  {classRegistry : ThreadsafeRegistry}
  {methodName : String}
  {base heap : ClassHeap}
  {change : Nat → Int}
  {c : Nat}

/-- What is held is as it was. -/
theorem object_held
    (effect : Effect base heap (change + own c) fun _ => False)
    (nonneg : ∀ other, 0 ≤ base.excess other + change other)
    {self : Class}
    (found : base.object? c = some self) : heap.object? c = some self := by
  have held : 0 < heap.excess c := by
    have := nonneg c
    rw [effect.excess c, Pi.add_apply, own_self]
    omega
  obtain ⟨now, isNow⟩ := Heap.object_of_owned held
  rw [isNow, effect.object_eq found id isNow]

theorem nextClass_of_ext
    {self : Class}
    {ext : ClassDescription}
    (found : base.object? c = some self)
    (isExt : self.compilerExtension = some ext)
    (noVersions : versionsOf methodName ext = none)
    (goesOn : endsHere ext = false) :
    nextClass classRegistry methodName base c = find ext.parentName
      classRegistry.registry := by
  simp [nextClass, found, isExt, noVersions, goesOn]

theorem Runs.findRound
    (effect : Effect base heap (change + own c) fun _ => False)
    (owned : Owns classRegistry base change)
    {self : Class}
    (found : base.object? c = some self)
    {post : Round → ClassHeap → Prop}
    (ends : nextClass classRegistry methodName base c = none → ∀ held after,
      Effect base after (change + owns held.toList) (fun _ => False) →
      post (.ended (versionsAt base methodName c) held) after)
    (goesOn : ∀ parent after,
      nextClass classRegistry methodName base c = some parent →
      Effect base after (change + own parent) (fun _ => False) →
        post (.goesOn parent) after) :
    Runs (findRound classRegistry methodName c) heap post := by
  have effectHeld :
      Effect base heap (change + owns (some c).toList) fun _ => False := by
    rwa [Option.toList_some, owns_singleton]
  have isThere := object_held effect owned.nonneg found
  apply Runs.bind
  apply Runs.load isThere
  cases isExt : self.compilerExtension with
  | none =>
      apply Runs.pure
      have noVersions : versionsAt base methodName c = none := by
        simp [versionsAt, found, isExt]
      rw [← noVersions]
      apply ends _ _ _ effectHeld
      simp [nextClass, found, isExt]
  | some ext =>
      have sameVersions :
          versionsAt base methodName c = versionsOf methodName ext := by
        simp [versionsAt, found, isExt]
      rw [sameVersions] at ends
      cases isVersions : versionsOf methodName ext with
      | some versions =>
          rw [isVersions] at ends
          simp only [isVersions]
          apply Runs.pure
          apply ends _ _ _ effectHeld
          simp [nextClass, found, isExt, isVersions]
      | none =>
          rw [isVersions] at ends
          simp only [isVersions]
          cases isEnd : endsHere ext with
          | true =>
              apply Runs.pure
              apply ends _ _ _ effectHeld
              simp [nextClass, found, isExt, isEnd]
          | false =>
              have isNext : nextClass classRegistry methodName base c =
                  find ext.parentName classRegistry.registry :=
                nextClass_of_ext found isExt isVersions isEnd
              rw [isNext] at ends goesOn
              apply Runs.bind
              apply Runs.getCurrent effect
              · intro parent isParent
                apply Heap.object_of_owned
                rw [effect.excess parent]
                have atRoots := owned parent
                have := own_nonneg c parent
                have isRoot : parent ∈ classRegistry.roots :=
                  List.mem_append_left _ (mem_roots_of_find isParent)
                have := owns_pos_of_mem isRoot
                rw [Pi.add_apply]
                omega
              intro middle _ effectMiddle
              apply Runs.bind
              apply Runs.release effectMiddle
              · intro other
                have := owned.nonneg other
                have := owns_nonneg
                  (find ext.parentName classRegistry.registry).toList other
                simp only [Pi.add_apply]
                omega
              intro after _ _ effectAfter
              have released : Effect base after
                  (change + owns
                    (find ext.parentName classRegistry.registry).toList)
                  fun _ => False := by
                apply effectAfter.weaken _ fun _ _ => id
                abel
              cases isParent : find ext.parentName classRegistry.registry with
              | none =>
                  rw [isParent] at released
                  apply Runs.pure
                  exact ends isParent none after released
              | some parent =>
                  rw [isParent, Option.toList_some, owns_singleton] at released
                  apply Runs.pure
                  exact goesOn parent after isParent released

/-- Where the chain ends, the loop does, with what is found there. -/
theorem Runs.findVersions
    (effect : Effect base heap (change + own c) fun _ => False)
    (owned : Owns classRegistry base change)
    (present : ∀ root ∈ classRegistry.roots, ∃ self,
      base.object? root = some self)
    (isRoot : c ∈ classRegistry.roots)
    {last steps : Nat}
    (path : walk (nextClass classRegistry methodName base) steps c = some last)
    (isLast : nextClass classRegistry methodName base last = none)
    {fuel : Nat}
    (enough : steps < fuel)
    {post : Option (List IntrinsicDescription) × Option Nat → ClassHeap → Prop}
    (holds : ∀ held after,
      Effect base after (change + owns held.toList) (fun _ => False) →
      post (versionsAt base methodName last, held) after) :
    Runs (findVersions classRegistry methodName fuel c) heap post := by
  obtain ⟨self, found⟩ := present c isRoot
  obtain ⟨fuel, rfl⟩ : ∃ rest, fuel = rest + 1 := ⟨fuel - 1, by omega⟩
  induction steps generalizing c heap self fuel with
  | zero =>
      rw [walk, Option.some.injEq] at path
      subst path
      apply Runs.bind
      apply Runs.findRound effect owned found
      · intro _ held after effectAfter
        apply Runs.pure
        exact holds held after effectAfter
      · intro parent after isNext
        rw [isLast] at isNext
        cases isNext
  | succ steps inductionHypothesis =>
      obtain ⟨next, isNext, rest⟩ := Option.bind_eq_some_iff.mp path
      apply Runs.bind
      apply Runs.findRound effect owned found
      · intro isEnd
        rw [isNext] at isEnd
        cases isEnd
      · intro parent after isParent effectAfter
        rw [isNext, Option.some.injEq] at isParent
        subst isParent
        have nextRoot : next ∈ classRegistry.roots :=
          List.mem_append_left _ (List.mem_toFinset.mp (nextClass_mem isNext))
        obtain ⟨object, isObject⟩ := present next nextRoot
        obtain ⟨fuel, rfl⟩ : ∃ rest, fuel = rest + 1 := ⟨fuel - 1, by omega⟩
        exact inductionHypothesis effectAfter nextRoot rest object isObject fuel
          (Nat.lt_of_succ_lt_succ enough)

/-- Where the loop ends, the chain does. -/
theorem ensures_findVersions
    (effect : Effect base heap (change + own c) fun _ => False)
    (owned : Owns classRegistry base change)
    (present : ∀ root ∈ classRegistry.roots, ∃ self,
      base.object? root = some self)
    (isRoot : c ∈ classRegistry.roots)
    (fuel : Nat) :
    Ensures (findVersions classRegistry methodName fuel c) heap fun _ _ =>
      walk (nextClass classRegistry methodName base) fuel c = none := by
  induction fuel generalizing c heap with
  | zero => exact Ensures.undefined
  | succ fuel inductionHypothesis =>
      obtain ⟨self, found⟩ := present c isRoot
      apply Ensures.bind_of_runs
      apply Runs.findRound effect owned found
      · intro isEnd held after _
        apply Ensures.pure
        rw [walk, isEnd, Option.bind_none]
      · intro parent after isNext effectAfter
        have nextRoot : parent ∈ classRegistry.roots :=
          List.mem_append_left _ (List.mem_toFinset.mp (nextClass_mem isNext))
        rw [walk, isNext, Option.bind_some]
        exact inductionHypothesis effectAfter nextRoot

end Rules

/-! ## The whole lookup -/

/-- What is found for an instance of a type. -/
inductive Finds (start : RegistryState) (methodName : String) (objType : Int)
    (typeName : String) : Except String (List IntrinsicDescription) → Prop
  | unknown
      (isUnknown :
        find objType start.state.classRegistry.indexedRegistry = none) :
      Finds start methodName objType typeName
        (.error ("Class not found for instance type: " ++ typeName))
  | noMetadata
      (cls : Nat)
      (isClass : find objType start.state.classRegistry.indexedRegistry =
        some cls)
      (noExt : (start.heap.object? cls).bind Class.compilerExtension = none) :
      Finds start methodName objType typeName
        (.error ("Class " ++ typeName ++ " does not have compiler metadata"))
  | missing
      (cls : Nat)
      (isClass : find objType start.state.classRegistry.indexedRegistry =
        some cls)
      (inherits : Inherits start.state.classRegistry methodName start.heap
        cls none) :
      Finds start methodName objType typeName
        (.error ("Class " ++ typeName ++
          " (or any of its parents) does not have an instance method " ++ methodName))
  | found
      (cls : Nat)
      (isClass : find objType start.state.classRegistry.indexedRegistry =
        some cls)
      (versions : List IntrinsicDescription)
      (inherits : Inherits start.state.classRegistry methodName start.heap cls
        (some versions)) :
      Finds start methodName objType typeName (.ok versions)

section Lookup

variable
  {start : RegistryState}
  {methodName : String}
  {objType : Int}
  {typeName : String}

theorem owns_classRegistry (start : RegistryState) :
    Owns start.state.classRegistry start.heap 0 := by
  intro other
  have atRoots := start.owned other
  have := owns_nonneg start.state.protocolRegistry.roots other
  rw [ThreadsafeCompilerState.roots, owns_append, Pi.add_apply] at atRoots
  rw [Pi.zero_apply]
  omega

theorem class_present (start : RegistryState) :
    ∀ root ∈ start.state.classRegistry.roots, ∃ self,
      start.heap.object? root = some self :=
  fun _ isRoot => start.object_of_root (List.mem_append_left _ isRoot)

theorem Runs.releaseHeld
    {base heap : ClassHeap}
    {change : Nat → Int}
    {changed : Nat → Prop}
    (held : Option Nat)
    (effect : Effect base heap (change + owns held.toList) changed)
    (nonneg : ∀ other, 0 ≤ base.excess other + change other)
    {post : Unit → ClassHeap → Prop}
    (holds : ∀ after, Effect base after change changed → post () after) :
    Runs (releaseHeld held) heap post := by
  cases held with
  | none =>
      apply Runs.pure
      apply holds
      rwa [Option.toList_none, owns_nil, add_zero] at effect
  | some currCls =>
      rw [Option.toList_some, owns_singleton] at effect
      apply Runs.release effect
      · intro other
        have := nonneg other
        rw [Pi.add_apply]
        omega
      · intro after _ _ effectAfter
        apply holds
        rwa [add_sub_cancel_right] at effectAfter

/-- If the lookup ends, so does the chain. -/
theorem ensures_resolveMethod
    {cls : Nat}
    {self : Class}
    {ext : ClassDescription}
    (isClass : find objType start.state.classRegistry.indexedRegistry =
      some cls)
    (found : start.heap.object? cls = some self)
    (isExt : self.compilerExtension = some ext)
    (fuel : Nat) :
    Ensures (resolveMethod start.state fuel methodName objType typeName)
      start.heap fun _ _ =>
      walk (nextClass start.state.classRegistry methodName start.heap) fuel
        cls = none := by
  have nothing : Effect start.heap start.heap 0 fun _ => False :=
    .refl start.heap
  have isRoot : cls ∈ start.state.classRegistry.roots :=
    List.mem_append_right _ (mem_roots_of_find isClass)
  unfold resolveMethod
  simp only [isClass]
  apply Ensures.bind_of_runs
  apply Runs.retain nothing found
  intro held same effectHeld
  rw [← same] at found
  apply Ensures.bind_of_runs
  apply Runs.load found
  simp only [isExt]
  apply Ensures.bind_of_runs
  apply Runs.retain effectHeld found
  intro twice _ effectTwice
  apply Ensures.bind
  apply (ensures_findVersions effectTwice
    ((owns_classRegistry start).add (own_nonneg cls)) (class_present start)
    isRoot fuel).mono
  intro _ _ ends
  constructor
  exact fun _ _ _ => ends

/-- Where the chain ends, so does the lookup. -/
theorem runs_resolveMethod
    (start : RegistryState)
    (methodName : String)
    (objType : Int)
    (typeName : String)
    (fuel : Nat)
    (ends : ∀ cls,
      find objType start.state.classRegistry.indexedRegistry = some cls →
      (start.heap.object? cls).bind Class.compilerExtension ≠ none →
      walk (nextClass start.state.classRegistry methodName start.heap) fuel
        cls = none) :
    Runs (resolveMethod start.state fuel methodName objType typeName) start.heap
      fun value after => Finds start methodName objType typeName value ∧
        Effect start.heap after 0 fun _ => False := by
  have nothing : Effect start.heap start.heap 0 fun _ => False :=
    .refl start.heap
  have owned := owns_classRegistry start
  unfold resolveMethod
  cases isClass : find objType start.state.classRegistry.indexedRegistry with
  | none =>
      apply Runs.pure
      exact ⟨.unknown isClass, nothing⟩
  | some cls =>
      have isRoot : cls ∈ start.state.classRegistry.roots :=
        List.mem_append_right _ (mem_roots_of_find isClass)
      obtain ⟨self, found⟩ := class_present start cls isRoot
      apply Runs.bind
      apply Runs.retain nothing found
      intro held same effectHeld
      have isHeld : held.object? cls = some self := by rw [same, found]
      apply Runs.bind
      apply Runs.load isHeld
      cases isExt : self.compilerExtension with
      | none =>
          have noExt : (start.heap.object? cls).bind Class.compilerExtension =
              none := by
            rw [found, Option.bind_some, isExt]
          rw [← owns_singleton cls] at effectHeld
          apply Runs.bind
          apply Runs.releaseHeld (some cls) effectHeld owned.nonneg
          intro after effectAfter
          apply Runs.pure
          exact ⟨.noMetadata cls isClass noExt, effectAfter⟩
      | some ext =>
          have hasExt : (start.heap.object? cls).bind Class.compilerExtension ≠
              none := by
            rw [found, Option.bind_some, isExt]
            exact Option.some_ne_none ext
          obtain ⟨steps, last, isLess, path, isLast⟩ :=
            exists_last_of_walk (ends cls isClass hasExt)
          have ownedHeld := owned.add (own_nonneg cls)
          apply Runs.bind
          apply Runs.retain effectHeld isHeld
          intro twice _ effectTwice
          apply Runs.bind
          apply Runs.findVersions effectTwice ownedHeld (class_present start)
            isRoot path isLast isLess
          intro lastHeld ended effectEnded
          apply Runs.bind
          apply Runs.releaseHeld lastHeld effectEnded ownedHeld.nonneg
          intro once effectOnce
          apply Runs.bind
          rw [← owns_singleton cls] at effectOnce
          apply Runs.releaseHeld (some cls) effectOnce owned.nonneg
          intro after effectAfter
          have inherits : Inherits start.state.classRegistry methodName
              start.heap cls (versionsAt start.heap methodName last) :=
                ⟨steps, last, path, isLast, rfl⟩
          cases isVersions : versionsAt start.heap methodName last with
          | none =>
              rw [isVersions] at inherits
              apply Runs.pure
              exact ⟨.missing cls isClass inherits, effectAfter⟩
          | some versions =>
              rw [isVersions] at inherits
              apply Runs.pure
              exact ⟨.found cls isClass versions inherits, effectAfter⟩

/-- Looking for a method comes to an end within as many rounds as there are
names of classes, or not at all.  Where it comes to an end, it has found what
the first class with the method has, and every class is held as before. -/
theorem resolveMethod_exact
    (start : RegistryState)
    (methodName : String)
    (objType : Int)
    (typeName : String) :
    (∀ fuel value after,
      resolveMethod start.state fuel methodName objType typeName start.heap =
      some (value, after) →
        Finds start methodName objType typeName value ∧
          Effect start.heap after 0 fun _ => False) ∧
    ∀ fuel result,
      resolveMethod start.state fuel methodName objType typeName start.heap =
      some result →
        ∃ result, resolveMethod start.state
          (start.state.classRegistry.registry.length + 1)
          methodName objType typeName start.heap = some result := by
  have chainEnds {fuel : Nat}
      {result : Except String (List IntrinsicDescription) × ClassHeap}
      (isResult : resolveMethod start.state fuel methodName objType typeName
        start.heap =
        some result) :
      ∀ cls, find objType start.state.classRegistry.indexedRegistry = some cls →
        (start.heap.object? cls).bind Class.compilerExtension ≠ none →
        walk (nextClass start.state.classRegistry methodName start.heap) fuel
          cls = none := by
    intro cls isClass hasExt
    obtain ⟨ext, isBound⟩ := Option.ne_none_iff_exists'.mp hasExt
    obtain ⟨self, found, isExt⟩ := Option.bind_eq_some_iff.mp isBound
    exact (ensures_resolveMethod isClass found isExt fuel).of_result _ _
      isResult
  constructor
  · intro fuel value after isResult
    exact (runs_resolveMethod start methodName objType typeName fuel
      (chainEnds isResult)).ensures.of_result value after isResult
  · intro fuel result isResult
    obtain ⟨value, after, isBounded, _⟩ := runs_resolveMethod start methodName
      objType typeName (start.state.classRegistry.registry.length + 1) (by
        intro cls isClass hasExt
        obtain ⟨steps, last, _, path, isLast⟩ :=
          exists_last_of_walk (chainEnds isResult cls isClass hasExt)
        have atMost := le_card_of_walk (fun _ _ => nextClass_mem) path isLast
        have : (chained start.state.classRegistry).card ≤ _ := card_chained_le
        obtain ⟨rest, isMore⟩ : ∃ rest,
          start.state.classRegistry.registry.length + 1 =
            steps + (rest + 1) :=
              ⟨start.state.classRegistry.registry.length - steps, by omega⟩
        rw [isMore, walk_add, path, Option.bind_some, walk, isLast,
          Option.bind_none])
    exact ⟨_, isBounded⟩

end Lookup

end CompilerState
end ClojureRt
