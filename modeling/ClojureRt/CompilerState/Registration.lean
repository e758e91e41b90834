import ClojureRt.CompilerState.Linking

/-!
# Registering classes

What a registry owns is part of what is owned on the heap.  The rest, which may
belong to the other classes, to the other registry and to whoever runs the
program, is the same before and after a class is registered.
-/

namespace ClojureRt
namespace CompilerState

open RefCount RefCount.Program

/-! ## What is registered -/

/-- What is found is owned among the values. -/
theorem owns_find_le
    {Key : Type}
    [DecidableEq Key]
    (key : Key)
    (entries : List (Key × Nat))
    (other : Nat) : owns (find key entries).toList other ≤
    owns (entries.map Prod.snd) other := by
  cases found : find key entries with
  | none =>
      rw [Option.toList_none, owns_nil]
      exact owns_nonneg _ other
  | some old =>
      rw [Option.toList_some, owns_singleton]
      by_cases same : other = old
      · rw [same, own_self]
        exact owns_pos_of_mem (mem_roots_of_find found)
      · rw [own, if_neg same]
        exact owns_nonneg _ other

namespace ThreadsafeRegistry

/-- The registry after a class has been registered by name. -/
def named (self : ThreadsafeRegistry) (name : String)
    (c : Nat) : ThreadsafeRegistry :=
  { self with registry := insert name c self.registry }

/-- The registry after a class has been registered by number. -/
def numbered (self : ThreadsafeRegistry) (requiredIndex : Int)
    (c : Nat) : ThreadsafeRegistry :=
  { self with
    indexedRegistry :=
      insert (self.chooseIndex requiredIndex).1 c self.indexedRegistry
    currentIndex :=
      if (self.chooseIndex requiredIndex).2 ≤
        (self.chooseIndex requiredIndex).1 then
        (self.chooseIndex requiredIndex).1 + 1
      else (self.chooseIndex requiredIndex).2 }

/-- The registry after a class has been registered. -/
def withClass (self : ThreadsafeRegistry)
    (created : Local) : ThreadsafeRegistry :=
  (self.named created.1.name created.2).numbered (created.1.type.getD (-1))
  created.2

/-- The registry after some classes have been registered. -/
def withClasses (self : ThreadsafeRegistry) (locals : List Local) :
    ThreadsafeRegistry :=
  locals.foldl withClass self

/-- A name that is registered takes one reference to the class, and gives up
what it replaces. -/
theorem owns_named (self : ThreadsafeRegistry) (name : String) (c : Nat) :
    owns (self.named name c).roots =
      owns self.roots + own c - owns (find name self.registry).toList := by
  simp only [roots, named, owns_append]
  rw [← add_sub_cancel_right (owns ((insert name c self.registry).map Prod.snd))
    (owns (find name self.registry).toList), owns_insert]
  abel

/-- A number that is registered takes one reference to the class, and gives up
what it replaces. -/
theorem owns_numbered (self : ThreadsafeRegistry) (requiredIndex : Int)
    (c : Nat) :
    owns (self.numbered requiredIndex c).roots =
      owns self.roots + own c -
        owns (find (self.chooseIndex requiredIndex).1
          self.indexedRegistry).toList := by
  simp only [roots, numbered, owns_append]
  rw [← add_sub_cancel_right
    (owns ((insert (self.chooseIndex requiredIndex).1 c
      self.indexedRegistry).map Prod.snd))
    (owns (find (self.chooseIndex requiredIndex).1
      self.indexedRegistry).toList), owns_insert]
  abel

/-- What a name stands for is owned by the registry. -/
theorem owns_find_registry_le (self : ThreadsafeRegistry) (name : String)
    (other : Nat) :
    owns (find name self.registry).toList other ≤ owns self.roots other := by
  have := owns_find_le name self.registry other
  have := owns_nonneg (self.indexedRegistry.map Prod.snd) other
  rw [roots, owns_append, Pi.add_apply]
  omega

/-- What a number stands for is owned by the registry. -/
theorem owns_find_indexed_le (self : ThreadsafeRegistry) (index : Int)
    (other : Nat) :
    owns (find index self.indexedRegistry).toList other ≤
      owns self.roots other := by
  have := owns_find_le index self.indexedRegistry other
  have := owns_nonneg (self.registry.map Prod.snd) other
  rw [roots, owns_append, Pi.add_apply]
  omega

end ThreadsafeRegistry

/-! ## Phase 3 -/

/-- Every object that is there was there before, perhaps with another number. -/
def Renumbered (heap after : ClassHeap) : Prop :=
  ∀ address self, after.object? address = some self →
    ∃ old id, heap.object? address = some old ∧
      self = { old with registerId := id }

/-- Objects that stay as they are have their numbers. -/
theorem Renumbered.of_kept
    {heap after : ClassHeap}
    (kept : ∀ address self, after.object? address = some self →
      heap.object? address = some self) : Renumbered heap after :=
  fun address self found =>
    ⟨self, self.registerId, kept address self found, rfl⟩

/-- One step after the other. -/
theorem Renumbered.trans
    {first second third : ClassHeap}
    (left : Renumbered first second)
    (right : Renumbered second third) : Renumbered first third := by
  intro address self found
  obtain ⟨middle, id, isMiddle, rfl⟩ := right address self found
  obtain ⟨old, _, isOld, rfl⟩ := left address middle isMiddle
  exact ⟨old, id, isOld, rfl⟩

section Rules

variable
  {base heap : ClassHeap}
  {change free : Nat → Int}

/-- What is owned is there. -/
theorem object_of_change
    (effect : Effect base heap change fun _ => True)
    {address : Nat}
    (owned : 0 < base.excess address + change address) :
    ∃ self, heap.object? address = some self := by
  apply Heap.object_of_owned
  rw [effect.excess address]
  exact owned

/-- The reference to what was replaced is given up. -/
theorem Runs.releaseReplaced
    (effect : Effect base heap change fun _ => True)
    (replaced : Option Nat)
    (owned : ∀ other,
      owns replaced.toList other ≤ base.excess other + change other)
    {post : Unit → ClassHeap → Prop}
    (holds : ∀ after, Renumbered heap after →
      Effect base after (change - owns replaced.toList) (fun _ => True) →
        post () after) :
    Runs (ThreadsafeRegistry.releaseReplaced replaced) heap post := by
  cases replaced with
  | none =>
      apply Runs.pure
      apply holds heap (.of_kept fun _ _ => id)
      simpa using effect
  | some old =>
      rw [Option.toList_some, owns_singleton] at owned holds
      apply Runs.release effect owned
      intro after kept _ effectAfter
      exact holds after (.of_kept kept) effectAfter

/-- The reference to the class goes to the registry, which gives up what it
replaces. -/
theorem Runs.registerName
    {registry : ThreadsafeRegistry}
    {c : Nat}
    (effect : Effect base heap (free + owns registry.roots + own c)
      fun _ => True)
    (nonneg : ∀ other, 0 ≤ base.excess other + free other)
    (name : String)
    {post : ThreadsafeRegistry → ClassHeap → Prop}
    (holds : ∀ after, Renumbered heap after →
      Effect base after (free + owns (registry.named name c).roots)
        (fun _ => True) →
      post (registry.named name c) after) :
    Runs (registry.registerName name c) heap post := by
  apply Runs.bind
  apply Runs.releaseReplaced effect
  · intro other
    have := registry.owns_find_registry_le name other
    have := nonneg other
    have := own_nonneg c other
    simp only [Pi.add_apply]
    omega
  · intro after renumbered effectAfter
    apply Runs.pure
    apply holds after renumbered
    apply effectAfter.weaken _ fun _ _ => id
    rw [registry.owns_named name c]
    abel

/-- The same with a number, which is chosen if none is asked for. -/
theorem Runs.registerObject
    {registry : ThreadsafeRegistry}
    {c : Nat}
    (effect : Effect base heap (free + owns registry.roots + own c)
      fun _ => True)
    (nonneg : ∀ other, 0 ≤ base.excess other + free other)
    (requiredIndex : Int)
    {post : Int × ThreadsafeRegistry → ClassHeap → Prop}
    (holds : ∀ after, Renumbered heap after →
      Effect base after (free + owns (registry.numbered requiredIndex c).roots)
        (fun _ => True) →
      post ((registry.chooseIndex requiredIndex).1,
        registry.numbered requiredIndex c) after) :
    Runs (registry.registerObject c requiredIndex) heap post := by
  apply Runs.bind
  apply Runs.releaseReplaced effect
  · intro other
    have := registry.owns_find_indexed_le
      (registry.chooseIndex requiredIndex).1 other
    have := nonneg other
    have := own_nonneg c other
    simp only [Pi.add_apply]
    omega
  · intro after renumbered effectAfter
    apply Runs.pure
    apply holds after renumbered
    apply effectAfter.weaken _ fun _ _ => id
    rw [registry.owns_numbered requiredIndex c]
    abel

/-- Only the number of the class is written. -/
theorem Runs.setRegisterId
    (effect : Effect base heap change fun _ => True)
    {c : Nat}
    (owned : 0 < base.excess c + change c)
    (id : Int)
    {post : Unit → ClassHeap → Prop}
    (holds : ∀ after, Renumbered heap after →
      Effect base after change (fun _ => True) →
      post () after) :
    Runs (setRegisterId c id) heap post := by
  obtain ⟨self, found⟩ := object_of_change effect owned
  apply Runs.bind
  apply Runs.load found
  apply Runs.store effect found
  intro after isStored others effectAfter
  apply holds after
  · intro address object isThere
    by_cases same : address = c
    · subst same
      rw [isStored, Option.some.injEq] at isThere
      exact ⟨self, id, found, isThere.symm⟩
    · rw [others address same] at isThere
      exact ⟨object, object.registerId, isThere, rfl⟩
  · apply effectAfter.weaken _ fun _ _ _ => trivial
    rw [owns_references, owns_references, sub_self, add_zero]

/-- Keeping one reference more than the registry owns. -/
theorem Runs.retainOwned
    (effect : Effect base heap change fun _ => True)
    {c : Nat}
    (owned : 0 < base.excess c + change c)
    {post : Unit → ClassHeap → Prop}
    (holds : ∀ after, Renumbered heap after →
      Effect base after (change + own c) (fun _ => True) → post () after) :
    Runs (retain c) heap post := by
  obtain ⟨self, found⟩ := object_of_change effect owned
  apply Runs.retain effect found
  intro after same effectAfter
  apply holds after (.of_kept _) effectAfter
  rw [same]
  exact fun _ _ => id

/-- A class with a reference of its own is on the heap. -/
theorem owned_of_own
    {registry : ThreadsafeRegistry}
    {c : Nat}
    (nonneg : ∀ other, 0 ≤ base.excess other + free other) :
    0 < base.excess c + (free + owns registry.roots + own c) c := by
  have := nonneg c
  have := owns_nonneg registry.roots c
  simp only [Pi.add_apply, own_self]
  omega

/-- A class is registered by its number, whether the type is set or not, and the
caller keeps its reference. -/
theorem Runs.registerId
    {registry : ThreadsafeRegistry}
    {c : Nat}
    (effect : Effect base heap (free + owns registry.roots + own c)
      fun _ => True)
    (nonneg : ∀ other, 0 ≤ base.excess other + free other)
    (type : Option Int)
    {post : ThreadsafeRegistry → ClassHeap → Prop}
    (holds : ∀ after, Renumbered heap after →
      Effect base after
        (free + own c + owns (registry.numbered (type.getD (-1)) c).roots)
        (fun _ => True) →
      post (registry.numbered (type.getD (-1)) c) after) :
    Runs (registerId registry c type) heap post := by
  have nonnegOwn : ∀ other, 0 ≤ base.excess other + (free + own c) other := by
    intro other
    have := nonneg other
    have := own_nonneg c other
    simp only [Pi.add_apply]
    omega
  have moved (registry : ThreadsafeRegistry) :
      free + owns registry.roots + own c + own c = free + own c +
        owns registry.roots + own c := by
    abel
  cases type with
  | some id =>
      apply Runs.bind
      apply Runs.setRegisterId effect (owned_of_own nonneg)
      intro set renumberedSet effectSet
      apply Runs.bind
      apply Runs.retainOwned effectSet (owned_of_own nonneg)
      intro retained renumberedRetained effectRetained
      rw [moved registry] at effectRetained
      apply Runs.bind
      apply Runs.registerObject effectRetained nonnegOwn
      intro after renumbered effectAfter
      apply Runs.pure
      exact holds after
        ((renumberedSet.trans renumberedRetained).trans renumbered) effectAfter
  | none =>
      apply Runs.bind
      apply Runs.retainOwned effect (owned_of_own nonneg)
      intro retained renumberedRetained effectRetained
      rw [moved registry] at effectRetained
      apply Runs.bind
      apply Runs.registerObject effectRetained nonnegOwn
      intro stored renumbered effectStored
      apply Runs.bind
      apply Runs.setRegisterId effectStored
      · have := nonneg c
        have := owns_nonneg (registry.numbered (-1) c).roots c
        simp only [Pi.add_apply, own_self]
        omega
      · intro after renumberedSet effectAfter
        apply Runs.pure
        exact holds after
          ((renumberedRetained.trans renumbered).trans renumberedSet)
          effectAfter

/-- The caller's reference to the class ends in the registry, which holds the
class twice. -/
theorem Runs.registerClass
    {registry : ThreadsafeRegistry}
    {desc : ClassDescription}
    {c : Nat}
    (effect : Effect base heap (free + owns registry.roots + own c)
      fun _ => True)
    (nonneg : ∀ other, 0 ≤ base.excess other + free other)
    (described : ∀ self, heap.object? c = some self →
      self.compilerExtension = some desc)
    {post : ThreadsafeRegistry → ClassHeap → Prop}
    (holds : ∀ after, Renumbered heap after →
      Effect base after (free + owns (registry.withClass (desc, c)).roots)
        (fun _ => True) →
      post (registry.withClass (desc, c)) after) :
    Runs (registerClass registry c) heap post := by
  have nonnegOwn : ∀ other, 0 ≤ base.excess other + (free + own c) other := by
    intro other
    have := nonneg other
    have := own_nonneg c other
    simp only [Pi.add_apply]
    omega
  obtain ⟨self, found⟩ := object_of_change effect (owned_of_own nonneg)
  apply Runs.bind
  apply Runs.load found
  rw [described self found]
  apply Runs.bind
  apply Runs.retainOwned effect (owned_of_own nonneg)
  intro retained renumberedRetained effectRetained
  have moved : free + owns registry.roots + own c + own c =
      free + own c + owns registry.roots + own c := by
    abel
  rw [moved] at effectRetained
  apply Runs.bind
  apply Runs.registerName effectRetained nonnegOwn
  intro named renumberedNamed effectNamed
  rw [add_right_comm] at effectNamed
  apply Runs.bind
  apply Runs.registerId effectNamed nonneg
  intro numbered renumberedNumbered effectNumbered
  apply Runs.bind
  apply Runs.release effectNumbered
  · intro other
    have := nonneg other
    have := owns_nonneg
      ((registry.named desc.name c).numbered (desc.type.getD (-1)) c).roots
      other
    simp only [Pi.add_apply]
    omega
  · intro after kept _ effectAfter
    apply Runs.pure
    apply holds after
    · exact ((renumberedRetained.trans renumberedNamed).trans
        renumberedNumbered).trans
        (.of_kept kept)
    · apply effectAfter.weaken _ fun _ _ => id
      unfold ThreadsafeRegistry.withClass
      abel

/-- The classes have the given descriptions. -/
def Described (locals : List Local) (heap : ClassHeap) : Prop :=
  ∀ created ∈ locals, ∀ self, heap.object? created.2 = some self →
    self.compilerExtension = some created.1 ∧ self.implementedProtocols = []

/-- The descriptions of the classes stay. -/
theorem Described.of_renumbered
    {locals : List Local}
    {after : ClassHeap}
    (described : Described locals heap)
    (renumbered : Renumbered heap after) : Described locals after := by
  intro created isCreated self found
  obtain ⟨old, id, isOld, rfl⟩ := renumbered created.2 self found
  exact described created isCreated old isOld

/-- The third phase gives the references to the new classes to the registry. -/
theorem Runs.registerClasses
    {registry : ThreadsafeRegistry}
    (locals : List Local)
    (effect : Effect base heap
      (free + owns registry.roots + owns (locals.map Prod.snd))
      fun _ => True)
    (nonneg : ∀ other, 0 ≤ base.excess other + free other)
    (described : Described locals heap)
    {post : ThreadsafeRegistry → ClassHeap → Prop}
    (holds : ∀ after, Renumbered heap after →
      Effect base after (free + owns (registry.withClasses locals).roots)
        (fun _ => True) →
      post (registry.withClasses locals) after) :
    Runs (registerClasses registry (entries locals)) heap post := by
  induction locals generalizing registry heap with
  | nil =>
      apply Runs.pure
      apply holds heap (.of_kept fun _ _ => id)
      simpa [ThreadsafeRegistry.withClasses] using effect
  | cons created locals inductionHypothesis =>
      have apart : free + owns registry.roots +
        owns ((created :: locals).map Prod.snd) =
          free + owns (locals.map Prod.snd) + owns registry.roots +
            own created.2 := by
        rw [List.map_cons, owns_cons]
        abel
      rw [apart] at effect
      have nonnegLater : ∀ other,
          0 ≤ base.excess other + (free + owns (locals.map Prod.snd))
            other := by
        intro other
        have := nonneg other
        have := owns_nonneg (locals.map Prod.snd) other
        simp only [Pi.add_apply]
        omega
      apply Runs.bind
      apply Runs.registerClass effect nonnegLater
      · exact fun self found =>
          (described created List.mem_cons_self self found).1
      · intro middle renumbered effectMiddle
        rw [add_right_comm] at effectMiddle
        have describedMiddle : Described locals middle := by
          apply Described.of_renumbered _ renumbered
          exact fun later isLater =>
            described later (List.mem_cons_of_mem _ isLater)
        apply inductionHypothesis effectMiddle describedMiddle
        intro after renumberedAfter effectAfter
        exact holds after (renumbered.trans renumberedAfter) effectAfter

end Rules

end CompilerState
end ClojureRt
