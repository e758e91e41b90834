import ClojureRt.Runtime.DynamicVars.Refinement
import ClojureRt.Runtime.PersistentArrayMap.Conservation

/-!
# What holds along whole runs

A context keeps its bindings until a Var is set in it, whatever happens to the
contexts that it was derived from or that are derived from it.  References are
lost only where `RT_bind_map` needs a larger map than there is and where
`Var_bindRoot` is given what cannot be shared.
-/

namespace ClojureRt
namespace Runtime
namespace DynamicVars
namespace World

open RefCount RefCount.Program PersistentArrayMap

/-! ## Dynamic scopes -/

/-- In every world that calls lead to, a call gives what the scopes say and
changes them as they say, and whatever else happens does not change them. -/
theorem follows_scopes
    {world : World}
    (reaches : Reaches (fun _ _ => True) world) :
    (∀ operation, world.Allows operation →
      ∃ outcome after, world.perform operation = some (outcome, after) ∧
        world.scopes.perform (contents world.heap) operation =
          (outcome, after.scopes)) ∧
    ∀ after, world.Other after → after.scopes = world.scopes := by
  have consistent := consistent_of_reaches reaches
  constructor
  · intro operation allowed
    obtain ⟨outcome, after, result, _, follows⟩ := consistent.refined allowed
    exact ⟨outcome, after, result, follows⟩
  · exact fun after happens => (consistent.other happens).2

/-! ## Isolation -/

/-- No context comes back, and those that stay keep their bindings, or else that
is not the context. -/
def KeepsBindings (ctx : Nat) (before after : Scopes) : Prop :=
  before.contexts.length ≤ after.contexts.length ∧
    (ctx < before.contexts.length → ∀ later,
      after.contexts[ctx]? = some (some later) →
      ∃ scope, before.contexts[ctx]? = some (some scope) ∧
        later.bindings = scope.bindings)

theorem KeepsBindings.refl (ctx : Nat)
    (scopes : Scopes) : KeepsBindings ctx scopes scopes :=
  ⟨le_rfl, fun _ later isLater => ⟨later, isLater, rfl⟩⟩

theorem KeepsBindings.trans
    {ctx : Nat}
    {before middle after : Scopes}
    (first : KeepsBindings ctx before middle)
    (second : KeepsBindings ctx middle after) :
    KeepsBindings ctx before after := by
  refine ⟨first.1.trans second.1, fun isBelow later isLater => ?_⟩
  obtain ⟨between, isBetween, sameLater⟩ :=
    second.2 (lt_of_lt_of_le isBelow first.1) later isLater
  obtain ⟨scope, isScope, sameBetween⟩ := first.2 isBelow between isBetween
  exact ⟨scope, isScope, sameLater.trans sameBetween⟩

theorem KeepsBindings.of_contexts
    {ctx : Nat}
    {before after : Scopes}
    (same : after.contexts = before.contexts) :
    KeepsBindings ctx before after := by
  rw [KeepsBindings, same]
  exact KeepsBindings.refl ctx before

theorem keepsBindings_create (ctx : Nat) (scopes : Scopes)
    (bindings : Option Bindings) :
    KeepsBindings ctx scopes (scopes.create bindings).2 := by
  refine ⟨by simp [Scopes.create], fun isBelow later isLater => ⟨later,
    ?_, rfl⟩⟩
  rw [Scopes.create, List.getElem?_append_left isBelow] at isLater
  exact isLater

theorem keepsBindings_derive (ctx : Nat) (scopes : Scopes)
    (bindings : Except Exception Bindings) :
    KeepsBindings ctx scopes (scopes.derive bindings).2 := by
  cases bindings with
  | ok bindings => exact keepsBindings_create ctx scopes (some bindings)
  | error exception => exact KeepsBindings.refl ctx scopes

/-- Another context is replaced, or the bindings stay. -/
theorem keepsBindings_replace
    {ctx index : Nat}
    {scopes : Scopes}
    {change : Scope → Option Scope}
    (keeps : index = ctx → ∀ scope later, change scope = some later →
      later.bindings = scope.bindings) :
    KeepsBindings ctx scopes (scopes.replace index change) := by
  unfold Scopes.replace
  split
  · next scope isScope =>
      refine ⟨by rw [List.length_set], fun isBelow later isLater => ?_⟩
      dsimp only at isLater
      by_cases isHere : index = ctx
      · rw [isHere, List.getElem?_set_self isBelow,
          Option.some.injEq] at isLater
        rw [← isHere]
        exact ⟨scope, isScope, keeps isHere scope later isLater⟩
      · rw [List.getElem?_set_ne isHere] at isLater
        exact ⟨later, isLater, rfl⟩
  · exact KeepsBindings.refl ctx scopes

theorem keepsBindings_write (ctx : Nat) (scopes : Scopes) (self : Address)
    (change : Var → Var) :
    KeepsBindings ctx scopes (scopes.write self change) := by
  unfold Scopes.write
  split
  · exact KeepsBindings.of_contexts rfl
  · exact KeepsBindings.refl ctx scopes

theorem bindings_of_release
    {scope later : Scope}
    (isLater : scope.release = some later) :
    later.bindings = scope.bindings := by
  unfold Scope.release at isLater
  split at isLater
  · cases isLater
  · cases isLater
    rfl

theorem keepsBindings_set
    {ctx : Nat}
    {index : Option Nat}
    (scopes : Scopes)
    (elsewhere : index ≠ some ctx)
    (value : RTValue)
    (bindings : Except Exception Bindings) :
    KeepsBindings ctx scopes (scopes.set index value bindings).2 := by
  cases bindings with
  | error exception => exact KeepsBindings.refl ctx scopes
  | ok bindings =>
      cases index with
      | none => exact KeepsBindings.refl ctx scopes
      | some index =>
          apply keepsBindings_replace
          intro isHere
          exact absurd (congrArg some isHere) elsewhere

/-- The step lemma: only setting a Var in a context changes its bindings. -/
theorem keepsBindings_perform
    {ctx : Nat}
    (scopes : Scopes)
    (contents : RTValue → Option Entries)
    {operation : Operation}
    (elsewhere : ∀ self value, operation ≠ .set (some ctx) self value) :
    KeepsBindings ctx scopes (scopes.perform contents operation).2 := by
  have released (index : Nat) :
      KeepsBindings ctx scopes (scopes.replace index Scope.release) :=
    keepsBindings_replace fun _ _ _ => bindings_of_release
  cases operation with
  | create bindingsMap => exact keepsBindings_create ctx scopes _
  | retain index =>
      apply keepsBindings_replace
      rintro _ scope later ⟨⟩
      rfl
  | release index => exact released index
  | clone index => exact (released index).trans (keepsBindings_create ctx _ _)
  | bind index v val => exact keepsBindings_derive ctx scopes _
  | bindMap index bindingsMap => exact keepsBindings_derive ctx scopes _
  | deref index self => exact KeepsBindings.refl ctx scopes
  | set index self value =>
      have isElsewhere : index ≠ some ctx := by
        rintro rfl
        exact elsewhere self value rfl
      rw [Scopes.perform]
      cases scopes.vars self with
      | none => exact KeepsBindings.refl ctx scopes
      | some var => exact keepsBindings_set scopes isElsewhere value _
  | bindRoot self object view =>
      rw [Scopes.perform]
      cases view.promoteToShared object with
      | none => exact KeepsBindings.refl ctx scopes
      | some promoted =>
          cases promoted with
          | ok => exact keepsBindings_write ctx scopes self _
          | error exception => exact KeepsBindings.refl ctx scopes
  | unbindRoot self => exact keepsBindings_write ctx scopes self _
  | setDynamic self dynamic => exact keepsBindings_write ctx scopes self _

/-- No Var is set in the context. -/
def SetElsewhere (ctx : Nat) (operation : Operation) (_ : Outcome) : Prop :=
  ∀ self value, operation ≠ .set (some ctx) self value

/-- The run lemma. -/
theorem keepsBindings_of_run
    {before after : World}
    {ctx : Nat}
    (consistent : before.Consistent)
    (run : Relation.ReflTransGen (Step (SetElsewhere ctx)) before after) :
    after.Consistent ∧ KeepsBindings ctx before.scopes after.scopes := by
  induction run with
  | refl => exact ⟨consistent, KeepsBindings.refl ctx _⟩
  | @tail middle later _ stepped inductionHypothesis =>
      obtain ⟨consistentMiddle, kept⟩ := inductionHypothesis
      refine ⟨consistentMiddle.step stepped, kept.trans ?_⟩
      cases stepped with
      | call operation outcome _ meets allowed result =>
          obtain ⟨_, _, isResult, _, follows⟩ :=
            consistentMiddle.refined allowed
          rw [result, Option.some.injEq, Prod.mk.injEq] at isResult
          rw [← isResult.2] at follows
          have keeps :=
            keepsBindings_perform middle.scopes (contents middle.heap) meets
          rwa [follows] at keeps
      | other _ happens =>
          rw [(consistentMiddle.other happens).2]
          exact KeepsBindings.refl ctx _

/-- A context keeps its bindings along every run that does not set a Var in
it. -/
theorem bindings_kept
    {before after : World}
    {ctx : Nat}
    (reaches : Reaches (fun _ _ => True) before)
    (run : Relation.ReflTransGen (Step (SetElsewhere ctx)) before after)
    (wasThere : before.contextAt ctx ≠ none)
    (isThere : after.contextAt ctx ≠ none) :
    after.scopes.bindings? (some ctx) = before.scopes.bindings? (some ctx) := by
  have kept := (keepsBindings_of_run (consistent_of_reaches reaches) run).2
  obtain ⟨context, isContext⟩ := Option.ne_none_iff_exists'.mp wasThere
  obtain ⟨later, isLater⟩ := Option.ne_none_iff_exists'.mp isThere
  have isBefore := scope_of_context isContext
  have isBelow : ctx < before.scopes.contexts.length :=
    (List.getElem?_eq_some_iff.mp isBefore).1
  obtain ⟨scope, isScope, same⟩ := kept.2 isBelow _ (scope_of_context isLater)
  rw [Scopes.bindings?, Scopes.bindings?, scope_of_context isLater, isScope]
  exact same

/-! ## References that are lost -/

/-- `RT_bind_map` needs a larger map than there is, or `Var_bindRoot` is given
what cannot be shared. -/
def Loses : Operation → Outcome → Prop
  | .bindMap _ _, .throws (.ofMap _) => True
  | .bindRoot _ _ _, .throws _ => True
  | _, _ => False

/-- What a call leaves that belongs to nobody. -/
def lostBy : Operation → Outcome → List Address
  | .bindMap _ bindingsMap, .throws (.ofMap _) => addresses bindingsMap
  | .bindRoot self object _, .throws _ => self :: addresses object
  | _, _ => []

theorem exists_of_consume
    {world after : World}
    {consumed : List Address}
    {Result : Type}
    {code : Code Result}
    {finish : Result → Holdings → Outcome × Holdings}
    {outcome : Outcome}
    (result : world.consume consumed code finish = some (outcome, after)) :
    ∃ value, finish value (world.without consumed) =
      (outcome, after.holdings) := by
  unfold consume at result
  split at result
  · split at result
    · next value heap _ =>
        cases result
        exact ⟨value, rfl⟩
    · cases result
  · cases result

theorem lost_of_finished
    {world after : World}
    {operation : Operation}
    {outcome : Outcome}
    {finished : Outcome × Holdings}
    (isFinished : finished = (outcome, after.holdings))
    (same : finished.2.lost = world.holdings.lost)
    (nothing : lostBy operation outcome = []) :
    after.holdings.lost = world.holdings.lost + lostBy operation outcome := by
  rw [nothing, Multiset.coe_nil, add_zero, ← same, isFinished]

/-- The step lemma: only `RT_bind_map` and `Var_bindRoot` lose something. -/
theorem lost_perform
    {world after : World}
    {operation : Operation}
    {outcome : Outcome}
    (result : world.perform operation = some (outcome, after)) :
    after.holdings.lost = world.holdings.lost + lostBy operation outcome := by
  cases operation with
  | create bindingsMap =>
      rw [perform] at result
      obtain ⟨_, finished⟩ := exists_of_consume result
      exact lost_of_finished finished rfl rfl
  | retain index =>
      obtain ⟨context, _, finished⟩ := Option.bind_eq_some_iff.mp result
      cases finished
      exact (add_zero _).symm
  | release index =>
      obtain ⟨context, _, consumed⟩ := Option.bind_eq_some_iff.mp result
      obtain ⟨_, finished⟩ := exists_of_consume consumed
      exact lost_of_finished finished rfl rfl
  | clone index =>
      obtain ⟨context, _, consumed⟩ := Option.bind_eq_some_iff.mp result
      obtain ⟨_, finished⟩ := exists_of_consume consumed
      exact lost_of_finished finished rfl rfl
  | bind index v val =>
      obtain ⟨context, _, consumed⟩ := Option.bind_eq_some_iff.mp result
      obtain ⟨value, finished⟩ := exists_of_consume consumed
      cases value with
      | ok value => exact lost_of_finished finished rfl rfl
      | error exception => exact lost_of_finished finished rfl rfl
  | bindMap index bindingsMap =>
      obtain ⟨context, _, consumed⟩ := Option.bind_eq_some_iff.mp result
      obtain ⟨value, finished⟩ := exists_of_consume consumed
      cases value with
      | ok value =>
          cases congrArg Prod.fst finished
          exact lost_of_finished finished rfl rfl
      | error exception =>
          cases exception with
          | ofMap exception =>
              cases congrArg Prod.fst finished
              rw [← congrArg (fun finished => finished.2.lost) finished]
              rfl
          | illegalArgument message =>
              cases congrArg Prod.fst finished
              exact lost_of_finished finished rfl rfl
          | illegalState message =>
              cases congrArg Prod.fst finished
              exact lost_of_finished finished rfl rfl
  | deref index self =>
      obtain ⟨context, _, found⟩ := Option.bind_eq_some_iff.mp result
      obtain ⟨var, _, consumed⟩ := Option.bind_eq_some_iff.mp found
      obtain ⟨_, finished⟩ := exists_of_consume consumed
      exact lost_of_finished finished rfl rfl
  | set index self value =>
      obtain ⟨context, _, found⟩ := Option.bind_eq_some_iff.mp result
      obtain ⟨var, _, consumed⟩ := Option.bind_eq_some_iff.mp found
      obtain ⟨value, finished⟩ := exists_of_consume consumed
      cases value with
      | ok value => exact lost_of_finished finished rfl rfl
      | error exception => exact lost_of_finished finished rfl rfl
  | bindRoot self object view =>
      obtain ⟨var, _, found⟩ := Option.bind_eq_some_iff.mp result
      obtain ⟨promoted, _, consumed⟩ := Option.bind_eq_some_iff.mp found
      obtain ⟨value, finished⟩ := exists_of_consume consumed
      cases value with
      | ok exchanged =>
          cases congrArg Prod.fst finished
          exact lost_of_finished finished rfl rfl
      | error exception =>
          cases congrArg Prod.fst finished
          rw [← congrArg (fun finished => finished.2.lost) finished]
          rfl
  | unbindRoot self =>
      obtain ⟨var, _, consumed⟩ := Option.bind_eq_some_iff.mp result
      obtain ⟨_, finished⟩ := exists_of_consume consumed
      exact lost_of_finished finished rfl rfl
  | setDynamic self dynamic =>
      obtain ⟨var, _, finished⟩ := Option.bind_eq_some_iff.mp result
      cases finished
      exact (add_zero _).symm

theorem noneLost_of_reaches
    {condition : Operation → Outcome → Prop}
    {world : World}
    (reaches : Reaches condition world)
    (keeps : ∀ operation outcome, condition operation outcome →
      ¬ Loses operation outcome) :
    world.holdings.lost = 0 := by
  apply reaches.invariant
  · exact fun _ initially => initially.noneLost
  · intro before after _ noneBefore stepped
    cases stepped with
    | call operation outcome _ meets _ result =>
        have nothing : lostBy operation outcome = [] := by
          have notLost := keeps operation outcome meets
          unfold Loses at notLost
          unfold lostBy
          split
          · exact absurd trivial notLost
          · exact absurd trivial notLost
          · rfl
        rw [lost_perform result, noneBefore, nothing, Multiset.coe_nil,
          add_zero]
    | other _ happens =>
        cases happens with
        | transfer => exact noneBefore
        | reclaim => exact noneBefore

/-- Along every run, the count of an object is that of the references from the
heap, of Vars, of contexts, of the caller, of what is retired and of what is
lost.  Nothing is lost as long as `RT_bind_map` does not need a larger map than
there is and `Var_bindRoot` is given what can be shared, and otherwise their
arguments are. -/
theorem counts_exact
    {condition : Operation → Outcome → Prop}
    {world : World}
    (reaches : Reaches condition world) :
    (∀ address, (world.heap.count address : Int) =
      world.heap.incoming address + owns world.holdings.vars.references
        address +
        owns (mapReferences world.holdings.contexts) address +
        world.holdings.held.count address + world.holdings.retired.count
          address +
        world.holdings.lost.count address + own emptyArrayMap address) ∧
    ((∀ operation outcome, condition operation outcome →
      ¬ Loses operation outcome) →
      world.holdings.lost = 0) ∧
    ∀ operation outcome after, world.perform operation = some (outcome, after) →
      after.holdings.lost = world.holdings.lost + lostBy operation outcome := by
  refine ⟨fun address => ?_, noneLost_of_reaches reaches,
    fun _ _ _ => lost_perform⟩
  have isOwned := (consistent_of_reaches reaches).excess address
  rw [Heap.excess, Holdings.owned] at isOwned
  omega

/-! ## A run -/

/-- The world after a call that has a result. -/
def next (world : World) (operation : Operation) : World :=
  match world.perform operation with
  | some (_, after) => after
  | none => world

theorem step_next
    {condition : Operation → Outcome → Prop}
    {world : World}
    {operation : Operation}
    (meets : ∀ outcome, condition operation outcome)
    (allowed : world.Allows operation) :
    Relation.ReflTransGen (Step condition) world (world.next operation) := by
  unfold next
  cases result : world.perform operation with
  | none => exact .refl
  | some pair =>
      exact .single
        (.call operation pair.1 pair.2 (meets pair.1) allowed result)

/-- A dynamic Var with the root 5, three references to it, and one to a
transient vector. -/
def oneVar : World where
  heap := (initialHeap.set 1 (some ⟨4, .other 0 []⟩)).set 2
    (some ⟨1, .other 1 []⟩)
  holdings :=
    { vars := [(1, ⟨true, .boxInt32 5⟩)]
      contexts := []
      held := {1, 1, 1, 2}
      retired := 0
      lost := 0 }

theorem oneVar_initial : oneVar.Initial where
  noContexts := rfl
  noneLost := rfl
  excess := by
    intro address
    have conserved :
        PersistentArrayMap.Holdings.Conserved ⟨oneVar.heap, {1, 1, 1, 1, 2}⟩ :=
      PersistentArrayMap.Holdings.conserved_of_below (by decide) (by decide)
        (by decide)
        (by decide)
    rw [conserved.excess]
    have isVar : owns oneVar.holdings.vars.references = owns [1] := rfl
    have noMaps : owns (mapReferences oneVar.holdings.contexts) = 0 := owns_nil
    have isHeld : ({1, 1, 1, 1, 2} : Multiset Address) =
        ([1] : List Address) + oneVar.holdings.held := by decide
    have noneRetired : oneVar.holdings.retired.count address = 0 :=
      Multiset.count_zero address
    have noneLost : oneVar.holdings.lost.count address = 0 :=
      Multiset.count_zero address
    rw [Holdings.owned, isVar, noMaps, noneRetired, noneLost, isHeld,
      Multiset.count_add, Multiset.coe_count, owns, Pi.zero_apply]
    omega
  empty := by decide

/-- The Var is bound to 6. -/
def boundVar : World := oneVar.next (.bind none (.pointer 1) (.boxInt32 6))

theorem boundVar_reached
    {condition : Operation → Outcome → Prop}
    (meets : ∀ outcome,
      condition (.bind none (.pointer 1) (.boxInt32 6)) outcome) :
    Reaches condition boundVar :=
  ⟨oneVar, oneVar_initial, step_next meets ⟨by decide, by decide⟩⟩

/-- Promotion finds the transient vector, and nothing that is shared. -/
def transientView : SharedView :=
  .unshared boundVar.heap
    (fun address =>
      if address = 2 then .persistentVector 7 none none .boxNil
      else .other []) 2

theorem transientView_refuses :
    transientView.promoteToShared (.pointer 2) =
      some (.error (.illegalState "Cannot share a transient vector")) := by
  decide

theorem boundVar_allows : boundVar.Allows
    (.bindRoot 1 (.pointer 2) transientView) := by
  refine ⟨by decide, by decide, SharedView.unshared_views _ _ _, ?_⟩
  rw [transientView_refuses]
  exact Option.some_ne_none _

/-- All calls follow the scopes, and the Var keeps its root if it is to be the
vector. -/
theorem boundVar_follows :
    ((∀ operation, boundVar.Allows operation →
      ∃ outcome after, boundVar.perform operation = some (outcome, after) ∧
        boundVar.scopes.perform (contents boundVar.heap) operation =
          (outcome, after.scopes)) ∧
    ∀ after, boundVar.Other after → after.scopes = boundVar.scopes) ∧
    ∃ outcome after,
      boundVar.perform (.bindRoot 1 (.pointer 2) transientView) =
        some (outcome, after) ∧
      after.scopes = boundVar.scopes := by
  have follows := follows_scopes (boundVar_reached fun _ => trivial)
  refine ⟨follows, ?_⟩
  obtain ⟨outcome, after, result, same⟩ := follows.1 _ boundVar_allows
  rw [Scopes.perform, transientView_refuses] at same
  exact ⟨outcome, after, result, (congrArg Prod.snd same).symm⟩

/-- Another context is derived from the first one, and the Var is set in
that. -/
def setVar : World :=
  (boundVar.next (.bind (some 0) (.pointer 1) (.boxInt32 7))).next
  (.set (some 1) 1 (.boxInt32 8))

theorem boundVar_kept :
    setVar.scopes.bindings? (some 0) = boundVar.scopes.bindings? (some 0) := by
  have derived : Relation.ReflTransGen (Step (SetElsewhere 0)) boundVar
      (boundVar.next (.bind (some 0) (.pointer 1) (.boxInt32 7))) :=
    step_next (fun _ _ _ => by simp) ⟨by decide, by decide⟩
  have set : Relation.ReflTransGen (Step (SetElsewhere 0))
      (boundVar.next (.bind (some 0) (.pointer 1) (.boxInt32 7))) setVar :=
    step_next (fun _ _ _ => by simp) ⟨by decide, by decide, by decide⟩
  exact bindings_kept (boundVar_reached fun _ => trivial) (derived.trans set)
    (by decide)
    (by decide)

theorem boundVar_counts :
    (∀ address, (boundVar.heap.count address : Int) =
      boundVar.heap.incoming address + owns boundVar.holdings.vars.references
        address +
        owns (mapReferences boundVar.holdings.contexts) address +
        boundVar.holdings.held.count address + boundVar.holdings.retired.count
          address +
        boundVar.holdings.lost.count address + own emptyArrayMap address) ∧
    boundVar.holdings.lost = 0 ∧
    ∃ outcome after,
      boundVar.perform (.bindRoot 1 (.pointer 2) transientView) =
        some (outcome, after) ∧
      after.holdings.lost = {1, 2} := by
  have reaches : Reaches (fun operation outcome => ¬ Loses operation outcome)
      boundVar :=
    boundVar_reached fun _ => id
  have counts := counts_exact reaches
  have noneLost := counts.2.1 fun _ _ => id
  have throws : boundVar.perform (.bindRoot 1 (.pointer 2) transientView) =
      some (.throws (.illegalState "Cannot share a transient vector"),
        ⟨boundVar.heap,
          { boundVar.without [1,
            2] with lost := boundVar.holdings.lost + {1, 2} }⟩) := by
    rw [perform, transientView_refuses]
    rfl
  refine ⟨counts.1, noneLost, _, _, throws, ?_⟩
  rw [counts.2.2 _ _ _ throws, noneLost]
  rfl

end World
end DynamicVars
end Runtime
end ClojureRt
