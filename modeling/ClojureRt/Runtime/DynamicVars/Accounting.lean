import ClojureRt.Runtime.DynamicVars.World

/-!
# Maps of bindings and who holds them

Adding an entry to a map of bindings adds a binding to what the map stands for.
A map that a context holds on to is the same after code that takes other
references.
-/

namespace ClojureRt
namespace Runtime
namespace DynamicVars

open RefCount RefCount.Program PersistentArrayMap

/-! ## What entries stand for -/

section Entries

variable {entries : Entries}

/-- The keys are different objects. -/
structure IsBindings (entries : Entries) : Prop where
  distinct :
    AssocList.Distinct
    (fun first second : RTValue => decide (first = second)) entries
  keys : ∀ entry ∈ entries, ∃ address, entry.1 = .pointer address

theorem Binds.isBindings
    {heap : MapHeap}
    {address : Address}
    (binds : Binds heap address entries) : IsBindings entries where
  distinct := binds.distinct
  keys := binds.keys

theorem isBindings_nil : IsBindings [] where
  distinct := List.Pairwise.nil
  keys := by simp

theorem Shows.isBindings
    {heap : MapHeap}
    {ctx : Option ExecutionContext}
    (shows : Shows heap ctx entries) : IsBindings entries := by
  unfold Shows at shows
  split at shows
  · exact shows.isBindings
  · rw [shows]
    exact isBindings_nil

theorem IsBindings.withEntry
    (isBindings : IsBindings entries)
    (v : Address)
    (val : RTValue) :
    IsBindings (DynamicVars.withEntry (.pointer v, val) entries) where
  distinct :=
    AssocList.distinct_assoc
      (AssocList.IsEquivalence.of_decidableEq.on fun _ => True) trivial val
      (fun _ _ => trivial) isBindings.distinct
  keys := by
    intro entry isEntry
    rcases AssocList.key_of_mem_assoc isEntry with ⟨old, isOld, isKey⟩ | isKey
    · rw [← isKey]
      exact isBindings.keys old isOld
    · exact ⟨v, isKey⟩

theorem valueFor_withEntry (v : Address) (val : RTValue) (entries : Entries) :
    valueFor (withEntry (.pointer v, val) entries) =
      Function.update (valueFor entries) v (some val) := by
  funext other
  unfold valueFor withEntry
  rw [AssocList.get_assoc AssocList.IsEquivalence.of_decidableEq,
    Function.update_apply]
  simp only [RTValue.pointer.injEq, decide_eq_true_eq]

/-- The object that is a key. -/
def keyAddress : RTValue → Address
  | .pointer address => address
  | .word _ => 0

theorem IsBindings.nodup
    (isBindings : IsBindings entries) :
    (entries.map fun entry => keyAddress entry.1).Nodup := by
  apply List.pairwise_map.mpr
  apply isBindings.distinct.imp_of_mem
  intro first second isFirst isSecond apart same
  obtain ⟨firstAddress, isFirstKey⟩ := isBindings.keys first isFirst
  obtain ⟨secondAddress, isSecondKey⟩ := isBindings.keys second isSecond
  rw [isFirstKey, isSecondKey] at same apart
  rw [decide_eq_false_iff_not] at apart
  exact apart (congrArg RTValue.pointer same)

theorem IsBindings.ne_none_iff
    (isBindings : IsBindings entries)
    (v : Address) :
    valueFor entries v ≠ none ↔
      v ∈ entries.map fun entry => keyAddress entry.1 := by
  unfold valueFor
  rw [ne_eq, AssocList.get_eq_none_iff, List.mem_map]
  push Not
  constructor
  · rintro ⟨entry, isEntry, isKey⟩
    refine ⟨entry, isEntry, ?_⟩
    rw [ne_eq, Bool.not_eq_false, decide_eq_true_eq] at isKey
    rw [← isKey]
    rfl
  · rintro ⟨entry, isEntry, isKey⟩
    refine ⟨entry, isEntry, ?_⟩
    obtain ⟨address, isPointer⟩ := isBindings.keys entry isEntry
    rw [isPointer] at isKey ⊢
    rw [ne_eq, Bool.not_eq_false, decide_eq_true_eq]
    exact congrArg RTValue.pointer isKey.symm

/-- As many Vars are bound as there are entries. -/
theorem IsBindings.size_valueFor
    (isBindings : IsBindings entries) :
    Bindings.size (valueFor entries) = entries.length := by
  have same : { v | valueFor entries v ≠ none } =
      ((entries.map fun entry => keyAddress entry.1).toFinset :
        Set Address) := by
    ext v
    rw [List.coe_toFinset]
    exact isBindings.ne_none_iff v
  rw [Bindings.size, same, Set.ncard_coe_finset,
    List.toFinset_card_of_nodup isBindings.nodup, List.length_map]

theorem IsBindings.isFull_iff
    (isBindings : IsBindings entries)
    (v : Address) :
    IsFull (.pointer v) entries ↔
      valueFor entries v = none ∧
        ArrayMap.hashtableThreshold ≤ Bindings.size (valueFor entries) := by
  rw [IsFull, indexOf_eq_none_iff, isBindings.size_valueFor]

variable {scopes : Scopes} {vars : Vars}

/-- An entry stands for a binding. -/
theorem addEntry_add
    (sameVars : scopes.vars = vars.find)
    (isBindings : IsBindings entries)
    (refusal : Exception)
    (entry : RTValue × RTValue) :
    scopes.add refusal (valueFor entries) entry =
        (addEntry vars refusal entries entry).map valueFor ∧
      ∀ added, addEntry vars refusal entries entry = .ok added →
        IsBindings added := by
  obtain ⟨key, val⟩ := entry
  unfold Scopes.add addEntry
  rw [sameVars]
  cases key with
  | word bits =>
      refine ⟨rfl, ?_⟩
      rintro added ⟨⟩
  | pointer v =>
      dsimp only [Vars.ofValue]
      cases vars.find v with
      | none =>
          refine ⟨rfl, ?_⟩
          rintro added ⟨⟩
      | some var =>
          dsimp only
          by_cases dynamic : var.dynamic = true
          · rw [if_pos dynamic, if_pos dynamic]
            by_cases isFull : IsFull (.pointer v) entries
            · rw [if_pos isFull, if_pos ((isBindings.isFull_iff v).mp isFull)]
              refine ⟨rfl, ?_⟩
              rintro added ⟨⟩
            · rw [if_neg isFull, if_neg fun full =>
                isFull ((isBindings.isFull_iff v).mpr full),
                ← valueFor_withEntry]
              refine ⟨rfl, ?_⟩
              rintro added ⟨⟩
              exact isBindings.withEntry v val
          · rw [if_neg dynamic, if_neg dynamic]
            refine ⟨rfl, ?_⟩
            rintro added ⟨⟩

theorem addEntries_addAll
    (sameVars : scopes.vars = vars.find)
    (isBindings : IsBindings entries)
    (newEntries : Entries) :
    scopes.addAll (valueFor entries) (some newEntries) =
      (addEntries vars entries newEntries).map valueFor := by
  induction newEntries generalizing entries with
  | nil => rfl
  | cons entry newEntries inductionHypothesis =>
      obtain ⟨isAdded, addedIsBindings⟩ :=
        addEntry_add sameVars isBindings notVarKey entry
      rw [addEntries_cons]
      unfold Scopes.addAll at inductionHypothesis ⊢
      dsimp only at inductionHypothesis ⊢
      rw [List.foldlM_cons, isAdded]
      cases isEntry : addEntry vars notVarKey entries entry with
      | error exception => rfl
      | ok added => exact inductionHypothesis (addedIsBindings added isEntry)

end Entries

/-! ## Who holds what -/

section Owned

variable {holdings : Holdings}

theorem Holdings.owned_nonneg (holdings : Holdings) (address : Address) :
    0 ≤ holdings.owned address := by
  have := owns_nonneg holdings.vars.references address
  have := owns_nonneg (mapReferences holdings.contexts) address
  have := own_nonneg emptyArrayMap address
  unfold owned
  omega

theorem Holdings.empty_le_owned (holdings : Holdings) (address : Address) :
    own emptyArrayMap address ≤ holdings.owned address := by
  have := owns_nonneg holdings.vars.references address
  have := owns_nonneg (mapReferences holdings.contexts) address
  unfold owned
  omega

/-- A context holds on to its map. -/
theorem Holdings.owned_map
    {context : ExecutionContext}
    (isContext : some context ∈ holdings.contexts)
    {map : Address}
    (isMap : context.bindingsMap = some map) : 0 < holdings.owned map := by
  have isIn : map ∈ mapReferences holdings.contexts := by
    apply List.mem_flatMap.mpr
    refine ⟨some context, isContext, ?_⟩
    rw [bindingsOf, isMap]
    exact List.mem_cons_self
  have := List.count_pos_iff.mpr isIn
  have := owns_nonneg holdings.vars.references map
  have := own_nonneg emptyArrayMap map
  unfold owned
  rw [owns, owns] at *
  omega

theorem Vars.mem_of_find
    {vars : Vars}
    {self : Address}
    {var : Var}
    (isVar : vars.find self = some var) : (self, var) ∈ vars := by
  obtain ⟨entry, isEntry, same, isValue⟩ := AssocList.exists_mem_of_get isVar
  rw [decide_eq_true_eq] at same
  rw [same, ← isValue]
  exact isEntry

/-- A Var holds on to its root. -/
theorem Holdings.owned_root
    {self : Address}
    {var : Var}
    (isVar : holdings.vars.find self = some var)
    {address : Address}
    (isIn : address ∈ addresses var.root) : 0 < holdings.owned address := by
  have isReference : address ∈ holdings.vars.references :=
    List.mem_flatMap.mpr ⟨(self, var), Vars.mem_of_find isVar,
      List.mem_cons_of_mem _ isIn⟩
  have := List.count_pos_iff.mpr isReference
  have := owns_nonneg (mapReferences holdings.contexts) address
  have := own_nonneg emptyArrayMap address
  unfold owned
  rw [owns, owns] at *
  omega

theorem Vars.references_cons (entry : Address × Var) (vars : Vars) :
    owns (Vars.references (entry :: vars)) =
      own entry.1 + refs entry.2.root + owns vars.references := by
  rw [references, List.flatMap_cons, owns_append, owns_cons]
  rfl

/-- A Var that gets another root holds on to that one. -/
theorem Vars.references_write
    {vars : Vars}
    {self : Address}
    {old : Var}
    (isVar : vars.find self = some old)
    (new : Var) :
    owns (vars.write self new).references + refs old.root =
      owns vars.references + refs new.root := by
  unfold find at isVar
  unfold write
  induction vars with
  | nil => cases isVar
  | cons entry vars inductionHypothesis =>
      rw [AssocList.get_cons] at isVar
      rw [AssocList.assoc_cons]
      split
      · next isHere =>
          rw [if_pos isHere, Option.some.injEq] at isVar
          rw [references_cons, references_cons, ← isVar]
          abel
      · next isElsewhere =>
          rw [if_neg isElsewhere] at isVar
          rw [references_cons, references_cons, add_assoc,
            inductionHypothesis isVar]
          abel

theorem Vars.find_write (vars : Vars) (self : Address) (var : Var) :
    (vars.write self var).find = Function.update vars.find self (some var) := by
  funext other
  unfold find write
  rw [AssocList.get_assoc AssocList.IsEquivalence.of_decidableEq,
    Function.update_apply]
  simp only [decide_eq_true_eq]

theorem mapReferences_append (contexts : List (Option ExecutionContext))
    (context : Option ExecutionContext) :
    owns (mapReferences (contexts ++ [context])) =
      owns (mapReferences contexts) + leftRefs context := by
  unfold mapReferences
  rw [List.flatMap_append, owns_append, List.flatMap_singleton]
  rfl

/-- A context that is replaced. -/
theorem mapReferences_set
    {contexts : List (Option ExecutionContext)}
    {ctx : Nat}
    {old : Option ExecutionContext}
    (isOld : contexts[ctx]? = some old)
    (new : Option ExecutionContext) :
    owns (mapReferences (contexts.set ctx new)) + leftRefs old =
      owns (mapReferences contexts) + leftRefs new := by
  have references_cons (first : Option ExecutionContext)
      (others : List (Option ExecutionContext)) :
      owns (mapReferences (first :: others)) = leftRefs first +
        owns (mapReferences others) := by
    unfold mapReferences
    rw [List.flatMap_cons, owns_append]
    rfl
  induction contexts generalizing ctx with
  | nil => cases isOld
  | cons first contexts inductionHypothesis =>
      cases ctx with
      | zero =>
          cases isOld
          rw [List.set_cons_zero, references_cons, references_cons]
          abel
      | succ ctx =>
          have isLater : contexts[ctx]? = some old := isOld
          rw [List.set_cons_succ, references_cons, references_cons, add_assoc,
            inductionHypothesis isLater]
          abel

end Owned

/-! ## The invariant -/

/-- The counts are those of all references, and contexts have maps of
bindings. -/
structure World.Consistent (world : World) : Prop where
  excess : ∀ address, world.heap.excess address = world.holdings.owned address
  empty : world.heap.object? emptyArrayMap = some (.map ⟨[], .boxNil⟩)
  shows : ∀ context, some context ∈ world.holdings.contexts →
    ∃ entries, Shows world.heap (some context) entries

section Consistency

variable
  {world : World}
  {heap : MapHeap}
  {taken given : Address → Int}
  {rest holdings : Holdings}

theorem World.Consistent.backed
    (consistent : world.Consistent)
    (before : world.holdings.owned = taken + rest.owned) :
    Backed world.heap (taken + rest.owned) := by
  rw [← before]
  exact ⟨world.holdings.owned_nonneg,
    fun address => le_of_eq (consistent.excess address).symm⟩

/-- What somebody else holds is the same afterwards. -/
theorem World.Consistent.kept
    (consistent : world.Consistent)
    (transfer : Transfer world.heap heap taken given)
    (before : world.holdings.owned = taken + rest.owned)
    {address : Address}
    (positive : 0 < rest.owned address) :
    heap.object? address = world.heap.object? address :=
  transfer.frame rest.owned rest.owned_nonneg (consistent.backed before) address
    (.owned address positive)

/-- A context that somebody else has shows the same. -/
theorem World.Consistent.shows_kept
    (consistent : world.Consistent)
    (transfer : Transfer world.heap heap taken given)
    (before : world.holdings.owned = taken + rest.owned)
    {context : ExecutionContext}
    (isRest : some context ∈ rest.contexts)
    {entries : Entries}
    (shows : Shows world.heap (some context) entries) :
    Shows heap (some context) entries := by
  apply shows.of_objects
  intro map isMap
  exact consistent.kept transfer before (Holdings.owned_map isRest isMap)

theorem World.Consistent.scopeOf_kept
    (consistent : world.Consistent)
    (transfer : Transfer world.heap heap taken given)
    (before : world.holdings.owned = taken + rest.owned)
    {context : ExecutionContext}
    (isRest : some context ∈ rest.contexts) :
    World.scopeOf heap context = World.scopeOf world.heap context := by
  unfold World.scopeOf
  congr 1
  cases isMap : context.bindingsMap with
  | none => rfl
  | some map =>
      have same :=
        consistent.kept transfer before (Holdings.owned_map isRest isMap)
      simp only [Option.map_some, World.contents, mapAt, same]

/-- What a call has to show for the references that it takes. -/
theorem World.Consistent.after
    (consistent : world.Consistent)
    (transfer : Transfer world.heap heap taken given)
    (before : world.holdings.owned = taken + rest.owned)
    (now : holdings.owned = given + rest.owned)
    (restShows : ∀ context, some context ∈ rest.contexts →
      some context ∈ world.holdings.contexts)
    (shows : ∀ context, some context ∈ holdings.contexts →
      some context ∈ rest.contexts ∨ ∃ entries,
        Shows heap (some context) entries) :
    World.Consistent ⟨heap, holdings⟩ where
  excess := by
    intro address
    change heap.excess address = holdings.owned address
    have wasOwned := congrFun before address
    have isOwned := congrFun now address
    rw [Pi.add_apply] at wasOwned isOwned
    rw [transfer.excess, consistent.excess]
    omega
  empty := by
    rw [consistent.kept transfer before]
    · exact consistent.empty
    · have := rest.empty_le_owned emptyArrayMap
      rw [own_self] at this
      omega
  shows := by
    intro context isContext
    rcases shows context isContext with isRest | isNew
    · obtain ⟨entries, showsEntries⟩ :=
        consistent.shows context (restShows context isRest)
      exact ⟨entries, consistent.shows_kept transfer before isRest showsEntries⟩
    · exact isNew

end Consistency

end DynamicVars
end Runtime
end ClojureRt
