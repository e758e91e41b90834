import ClojureRt.Runtime.DynamicVars.Accounting

/-!
# Dynamic binding follows its scopes

Every call gives what the scopes say, and the scopes change as they say,
whatever else happens in between.
-/

namespace ClojureRt
namespace Runtime
namespace DynamicVars
namespace World

open RefCount RefCount.Program PersistentArrayMap

/-- A call has a result, which is that of the scopes. -/
def Refined (world : World) (operation : Operation) : Prop :=
  ∃ outcome after, world.perform operation = some (outcome, after) ∧
    after.Consistent ∧
    world.scopes.perform (contents world.heap) operation =
      (outcome, after.scopes)

/-- What the caller has besides what a call takes. -/
def without (world : World) (consumed : List Address) : Holdings :=
  { world.holdings with held := world.holdings.held - consumed }

section Steps

variable
  {world : World}
  {heap : MapHeap}
  {consumed : List Address}
  {taken given : Address → Int}

/-- What a call consumes, and what remains. -/
theorem owned_without
    (isHeld : (consumed : Multiset Address) ≤ world.holdings.held) :
    world.holdings.owned = owns consumed + (world.without consumed).owned := by
  funext address
  have := Multiset.count_le_of_le address isHeld
  rw [Multiset.coe_count] at this
  simp only [Holdings.owned, without, Pi.add_apply, Multiset.count_sub,
    Multiset.coe_count, owns]
  omega

/-- The code of a call runs on a world that holds what the call consumes. -/
theorem consume_of_runs
    (isHeld : (consumed : Multiset Address) ≤ world.holdings.held)
    {Result : Type}
    {code : Code Result}
    {post : Result → MapHeap → Prop}
    (runs : Runs code world.heap post)
    (finish : Result → Holdings → Outcome × Holdings) :
    ∃ result heap, post result heap ∧
      world.consume consumed code finish =
        some ((finish result (world.without consumed)).1,
          ⟨heap, (finish result (world.without consumed)).2⟩) := by
  obtain ⟨result, heap, isResult, holds⟩ := runs
  refine ⟨result, heap, holds, ?_⟩
  rw [consume, if_pos isHeld, isResult]
  rfl

/-- What the code gives is wrapped up at the end. -/
theorem consume_wrapped
    {Result Wrapped : Type}
    (code : Code Result)
    (wrap : Result → Wrapped)
    (finish : Wrapped → Holdings → Outcome × Holdings) :
    world.consume consumed (code >>= fun result => pure (wrap result)) finish =
      world.consume consumed code fun result => finish (wrap result) := by
  unfold consume
  simp only [Bind.bind, Pure.pure]
  cases code world.heap <;> rfl

/-- What somebody else has shows the same scopes. -/
theorem Consistent.scopes_kept
    {rest : Holdings}
    (consistent : world.Consistent)
    (transfer : Transfer world.heap heap taken given)
    (before : world.holdings.owned = taken + rest.owned) :
    scopes ⟨heap, rest⟩ = scopes ⟨world.heap, rest⟩ := by
  unfold scopes
  congr 1
  apply List.map_congr_left
  intro context isContext
  cases context with
  | none => rfl
  | some context =>
      exact congrArg some (consistent.scopeOf_kept transfer before isContext)

/-- What a context binds, as the scopes have it. -/
structure Inherits
    (world : World)
    (ctx : Option Nat)
    (context : Option ExecutionContext)
    (entries : Entries) : Prop where
  shows : Shows world.heap context entries
  inherited : world.scopes.inherited ctx = valueFor entries
  bindings : world.scopes.bindings? ctx = (bindingsOf context).map fun _ =>
    valueFor entries

/-- The bindings of a context are the entries of its map. -/
theorem contents_of_shows
    {context : ExecutionContext}
    {entries : Entries}
    (shows : Shows heap (some context) entries) :
    (scopeOf heap context).bindings = context.bindingsMap.map fun _ => valueFor
    entries := by
  obtain ⟨refCount, bindingsMap⟩ := context
  unfold scopeOf
  cases bindingsMap with
  | none => rfl
  | some map =>
      obtain ⟨object, found, rfl⟩ := Binds.found shows
      simp only [Option.map_some, contents, mapAt, found, Option.getD_some]

/-- A context that is there is in the list. -/
theorem getElem?_of_contextAt
    {ctx : Nat}
    {context : ExecutionContext}
    (isContext : world.contextAt ctx = some context) :
    world.holdings.contexts[ctx]? = some (some context) :=
  Option.join_eq_some_iff.mp isContext

/-- A context that a call is given is in the list. -/
theorem mem_contexts
    {ctx : Option Nat}
    {context : ExecutionContext}
    (isContext : world.context? ctx = some (some context)) :
    ∃ index, ctx = some index ∧
      world.holdings.contexts[index]? = some (some context) := by
  cases ctx with
  | none => cases isContext
  | some index =>
      obtain ⟨other, found, same⟩ := Option.map_eq_some_iff.mp isContext
      cases same
      exact ⟨index, rfl, getElem?_of_contextAt found⟩

/-- A context has bindings to be inherited. -/
theorem Consistent.inherits
    (consistent : world.Consistent)
    {ctx : Option Nat}
    {context : Option ExecutionContext}
    (isContext : world.context? ctx = some context) :
    ∃ entries, Inherits world ctx context entries := by
  cases context with
  | none =>
      cases ctx with
      | none => exact ⟨[], rfl, rfl, rfl⟩
      | some index =>
          obtain ⟨other, _, never⟩ := Option.map_eq_some_iff.mp isContext
          cases never
  | some context =>
      obtain ⟨index, rfl, found⟩ := mem_contexts isContext
      obtain ⟨entries, shows⟩ :=
        consistent.shows context (List.mem_of_getElem? found)
      have isScope :
          world.scopes.contexts[index]? =
          some (some (scopeOf world.heap context)) := by
        rw [scopes, List.getElem?_map, found]
        rfl
      have bindings : world.scopes.bindings? (some index) =
          (bindingsOf (some context)).map fun _ => valueFor entries := by
        rw [Scopes.bindings?, isScope]
        exact contents_of_shows shows
      refine ⟨entries, shows, ?_, bindings⟩
      rw [Scopes.inherited, bindings]
      unfold Shows at shows
      cases isMap : bindingsOf (some context) with
      | some map => rfl
      | none =>
          rw [isMap] at shows
          rw [shows]
          rfl

/-! ## New contexts -/

/-- A new context with a map of bindings. -/
theorem Consistent.create
    {rest : Holdings}
    {bindingsMap : Option Address}
    {entries : Entries}
    (consistent : world.Consistent)
    (transfer : Transfer world.heap heap taken (mapRefs bindingsMap))
    (before : world.holdings.owned = taken + rest.owned)
    (restShows : ∀ context, some context ∈ rest.contexts →
      some context ∈ world.holdings.contexts)
    (shows : Shows heap (some (.create bindingsMap)) entries) :
    Consistent ⟨heap, (rest.create (.create bindingsMap)).2⟩ ∧
      (scopes ⟨world.heap, rest⟩).create
      (bindingsMap.map fun _ => valueFor entries) =
        ((rest.create (.create bindingsMap)).1,
          scopes ⟨heap, (rest.create (.create bindingsMap)).2⟩) := by
  constructor
  · apply consistent.after transfer before _ restShows
    · intro context isContext
      rcases List.mem_append.mp isContext with isRest | isNew
      · exact Or.inl isRest
      · cases List.mem_singleton.mp isNew
        exact Or.inr ⟨entries, shows⟩
    · funext address
      have references := congrFun (mapReferences_append rest.contexts
        (some (.create bindingsMap))) address
      have isLeft : leftRefs (some (ExecutionContext.create bindingsMap)) =
          mapRefs bindingsMap :=
        rfl
      rw [Pi.add_apply, isLeft] at references
      simp only [Holdings.owned, Holdings.create, Pi.add_apply, references]
      omega
  · rw [← consistent.scopes_kept transfer before]
    unfold Scopes.create Holdings.create scopes
    rw [List.length_map, List.map_append, List.map_singleton, Option.map_some]
    have isScope : scopeOf heap (.create bindingsMap) =
        ⟨1, bindingsMap.map fun _ => valueFor entries⟩ :=
      congrArg (Scope.mk 1) (contents_of_shows shows)
    rw [isScope]

/-- Code that leaves the contexts alone. -/
theorem Consistent.same
    {rest holdings : Holdings}
    (consistent : world.Consistent)
    (transfer : Transfer world.heap heap taken given)
    (before : world.holdings.owned = taken + rest.owned)
    (now : holdings.owned = given + rest.owned)
    (restContexts : rest.contexts = world.holdings.contexts)
    (sameContexts : holdings.contexts = rest.contexts) :
    Consistent ⟨heap, holdings⟩ ∧
      scopes ⟨heap, holdings⟩ =
        { world.scopes with vars := holdings.vars.find } := by
  constructor
  · apply consistent.after transfer before now
    · intro context isContext
      rwa [restContexts] at isContext
    · intro context isContext
      rw [sameContexts] at isContext
      exact Or.inl isContext
  · have kept :=
      congrArg Scopes.contexts (consistent.scopes_kept transfer before)
    unfold scopes at kept ⊢
    dsimp only at kept ⊢
    rw [sameContexts, kept, restContexts]

/-- A context that is created starts with the bindings of the map. -/
theorem refined_create
    (consistent : world.Consistent)
    {bindingsMap : Option Address}
    (allowed : world.Allows (.create bindingsMap)) :
    world.Refined (.create bindingsMap) := by
  obtain ⟨isHeld, entries, shows⟩ := allowed
  have runs : Runs (pure () : Code Unit) world.heap fun _ after => after =
      world.heap :=
    Runs.pure rfl
  obtain ⟨_, heap, rfl, isResult⟩ :=
    consume_of_runs isHeld runs fun _ holdings =>
    holdings.create (.create bindingsMap)
  obtain ⟨after, created⟩ := consistent.create (Transfer.refl world.heap _)
    (owned_without isHeld) (fun _ => id) shows
  refine ⟨_, _, isResult, after, ?_⟩
  rw [← created]
  exact congrArg world.scopes.create (contents_of_shows shows)

/-- A call that gives a context with a new map of bindings, or throws. -/
theorem Consistent.derive
    {rest : Holdings}
    {left : Exception → Address → Int}
    {bindings : Except Exception Entries}
    {result : Except Exception ExecutionContext}
    (consistent : world.Consistent)
    (before : world.holdings.owned = taken + rest.owned)
    (restVars : rest.vars = world.holdings.vars)
    (restContexts : rest.contexts = world.holdings.contexts)
    (bound : Bound world.heap taken 0 left
      (fun nextMap => ExecutionContext.create (some nextMap)) bindings
      result heap)
    (finish : Except Exception ExecutionContext → Outcome × Holdings)
    (returns : ∀ context, finish (.ok context) = rest.create context)
    (throws : ∀ exception, ∃ holdings,
      finish (.error exception) = (.throws exception, holdings) ∧
      holdings.owned = left exception + rest.owned ∧ holdings.vars = rest.vars ∧
      holdings.contexts = rest.contexts) :
    Consistent ⟨heap, (finish result).2⟩ ∧
      world.scopes.derive (bindings.map valueFor) =
        ((finish result).1, scopes ⟨heap, (finish result).2⟩) := by
  have restScopes : scopes ⟨world.heap, rest⟩ = world.scopes := by
    unfold scopes
    rw [restVars, restContexts]
  cases bound with
  | returned map entries _ transfer binds =>
      rw [returns]
      rw [add_zero] at transfer
      have shows : Shows heap (some (.create (some map))) entries := binds
      have given : Transfer world.heap heap taken (mapRefs (some map)) :=
        transfer.of_eq rfl (owns_singleton map).symm
      obtain ⟨after, created⟩ := consistent.create given before
        (fun context isContext => by rwa [restContexts] at isContext) shows
      rw [restScopes] at created
      exact ⟨after, created⟩
  | thrown exception _ transfer =>
      obtain ⟨holdings, isFinished, now, sameVars, sameContexts⟩ :=
        throws exception
      obtain ⟨after, same⟩ :=
        consistent.same transfer before now restContexts sameContexts
      rw [isFinished]
      refine ⟨after, ?_⟩
      rw [same, sameVars, restVars]
      rfl

/-- A Var is bound above the bindings that are there. -/
theorem refined_bind
    (consistent : world.Consistent)
    {ctx : Option Nat}
    {v val : RTValue}
    (allowed : world.Allows (.bind ctx v val)) :
    world.Refined (.bind ctx v val) := by
  obtain ⟨isThere, isHeld⟩ := allowed
  obtain ⟨context, isContext⟩ := Option.ne_none_iff_exists'.mp isThere
  obtain ⟨entries, inherits⟩ := consistent.inherits isContext
  have before := owned_without isHeld
  rw [owns_append] at before
  have runs : Runs (bind world.holdings.vars context v val) world.heap _ :=
    runs_bind inherits.shows consistent.empty (consistent.backed before)
      (Holdings.owned_nonneg _) (Holdings.empty_le_owned _)
  obtain ⟨result, heap, bound, isResult⟩ := consume_of_runs isHeld runs
    fun result holdings => holdings.derive result
  have sameVars : world.scopes.vars = world.holdings.vars.find := rfl
  have isAdded :=
    (addEntry_add sameVars inherits.shows.isBindings notVar (v, val)).1
  obtain ⟨after, derived⟩ := consistent.derive before rfl rfl bound
    (world.without (addresses v ++ addresses val)).derive (fun _ => rfl)
    fun exception => ⟨_, rfl, (zero_add _).symm, rfl, rfl⟩
  have performs : world.perform (.bind ctx v val) =
      world.consume (addresses v ++ addresses val)
        (bind world.holdings.vars context v val)
        fun result holdings => holdings.derive result := by
    rw [perform, isContext]
    rfl
  refine ⟨_, _, performs.trans isResult, after, ?_⟩
  rw [← derived, ← isAdded, ← inherits.inherited]
  rfl

/-- Where `RT_bind_map` throws, its argument is lost or released. -/
theorem exists_deriveAll {rest : Holdings} (bindingsMap : RTValue)
    (exception : Exception) :
    ∃ holdings,
      rest.deriveAll bindingsMap (.error exception) =
      (.throws exception, holdings) ∧
      holdings.owned = lostMap bindingsMap exception + rest.owned ∧
      holdings.vars = rest.vars ∧ holdings.contexts = rest.contexts := by
  have released : rest.owned = 0 + rest.owned := (zero_add _).symm
  cases bindingsMap with
  | word bits =>
      cases exception with
      | ofMap exception =>
          refine ⟨_, rfl, ?_, rfl, rfl⟩
          funext address
          simp [Holdings.owned, lostMap, addresses]
      | illegalArgument message => exact ⟨_, rfl, released, rfl, rfl⟩
      | illegalState message => exact ⟨_, rfl, released, rfl, rfl⟩
  | pointer map =>
      cases exception with
      | ofMap exception =>
          refine ⟨_, rfl, ?_, rfl, rfl⟩
          funext address
          have isOwn := congrFun (owns_singleton map) address
          unfold owns at isOwn
          simp only [Holdings.owned, lostMap, lostBindings, addresses,
            Multiset.count_add, Multiset.coe_count, Pi.add_apply, ← isOwn]
          omega
      | illegalArgument message => exact ⟨_, rfl, released, rfl, rfl⟩
      | illegalState message => exact ⟨_, rfl, released, rfl, rfl⟩

/-- The bindings of a map are put above those that are there. -/
theorem refined_bindMap
    (consistent : world.Consistent)
    {ctx : Option Nat}
    {bindingsMap : RTValue}
    (allowed : world.Allows (.bindMap ctx bindingsMap)) :
    world.Refined (.bindMap ctx bindingsMap) := by
  obtain ⟨isThere, isHeld⟩ := allowed
  obtain ⟨context, isContext⟩ := Option.ne_none_iff_exists'.mp isThere
  obtain ⟨entries, inherits⟩ := consistent.inherits isContext
  have before := owned_without isHeld
  have runs :
      Runs (bindMap world.holdings.vars context bindingsMap) world.heap _ :=
    runs_bindMap inherits.shows consistent.empty (consistent.backed before)
      (Holdings.owned_nonneg _) (Holdings.empty_le_owned _)
  obtain ⟨result, heap, bound, isResult⟩ := consume_of_runs isHeld runs
    fun result holdings => holdings.deriveAll bindingsMap result
  have sameVars : world.scopes.vars = world.holdings.vars.find := rfl
  have isAdded :
    world.scopes.addAll (valueFor entries) (contents world.heap bindingsMap) =
      (addMap world.holdings.vars entries (mapAt world.heap bindingsMap)).map
      valueFor := by
    unfold contents
    cases mapAt world.heap bindingsMap with
    | none => rfl
    | some newBindings =>
        exact addEntries_addAll sameVars inherits.shows.isBindings
          newBindings.entries
  obtain ⟨after, derived⟩ := consistent.derive before rfl rfl bound
    ((world.without (addresses bindingsMap)).deriveAll bindingsMap)
    (fun _ => rfl)
    (exists_deriveAll bindingsMap)
  have performs : world.perform (.bindMap ctx bindingsMap) =
      world.consume (addresses bindingsMap)
        (bindMap world.holdings.vars context bindingsMap)
        fun result holdings => holdings.deriveAll bindingsMap result := by
    rw [perform, isContext]
    rfl
  refine ⟨_, _, performs.trans isResult, after, ?_⟩
  rw [← derived, ← isAdded, ← inherits.inherited]
  rfl

/-! ## Vars -/

/-- A Var has its innermost binding, or its root. -/
theorem refined_deref
    (consistent : world.Consistent)
    {ctx : Option Nat}
    {self : Address}
    (allowed : world.Allows (.deref ctx self)) :
    world.Refined (.deref ctx self) := by
  obtain ⟨isThere, isVarThere, isHeld⟩ := allowed
  obtain ⟨context, isContext⟩ := Option.ne_none_iff_exists'.mp isThere
  obtain ⟨var, isVar⟩ := Option.ne_none_iff_exists'.mp isVarThere
  obtain ⟨entries, inherits⟩ := consistent.inherits isContext
  have before := owned_without isHeld
  rw [owns_singleton] at before
  have restVar : (world.without [self]).vars.find self = some var := isVar
  have runs : Runs (deref var context self) world.heap _ :=
    runs_deref inherits.shows (consistent.backed before)
      (Holdings.owned_nonneg _)
      fun _ isIn => Holdings.owned_root restVar isIn
  obtain ⟨value, heap, ⟨isValue, transfer⟩, isResult⟩ := consume_of_runs
    isHeld runs
    fun value holdings => holdings.give value
  have now : ((world.without [self]).give value).2.owned =
      refs value + (world.without [self]).owned := by
    funext address
    simp only [Holdings.owned, Holdings.give, Pi.add_apply, Multiset.count_add,
      Multiset.coe_count, refs, owns]
    omega
  obtain ⟨after, same⟩ := consistent.same transfer before now rfl rfl
  have performs : world.perform (.deref ctx self) =
      world.consume [self] (deref var context self) fun value holdings =>
        holdings.give value := by
    rw [perform, isContext, isVar]
    rfl
  refine ⟨_, _, performs.trans isResult, after, ?_⟩
  have isScopeVar : world.scopes.vars self = some var := isVar
  rw [same, Scopes.perform, isScopeVar, isValue, valueIn, ← inherits.inherited]
  rfl

/-- A Var gets another root, and the old one is retired. -/
theorem Consistent.exchange
    (consistent : world.Consistent)
    {self : Address}
    {root : RTValue}
    {var : Var}
    (isVar : world.holdings.vars.find self = some var)
    (isHeld : ((self :: addresses root : List Address) : Multiset Address) ≤
      world.holdings.held) :
    ∃ heap after,
        world.consume (self :: addresses root) (exchangeRoot var self root)
        (fun result holdings => holdings.exchanged self result) =
          some (.value .boxNil, ⟨heap, after⟩) ∧
      Consistent ⟨heap, after⟩ ∧
      scopes ⟨heap, after⟩ = world.scopes.write self fun var =>
        { var with root } := by
  have before := owned_without isHeld
  have runs : Runs (exchangeRoot var self root) world.heap _ :=
    runs_exchangeRoot ((consistent.backed before).left
      (fun address => owns_nonneg _ address) (Holdings.owned_nonneg _) |>.mono
      (own_nonneg self) (by
        intro address
        have := owns_nonneg (addresses root) address
        rw [owns_cons, Pi.add_apply]
        omega))
  obtain ⟨result, heap, ⟨isExchanged, transfer⟩, isResult⟩ := consume_of_runs
    isHeld runs
    fun result holdings => holdings.exchanged self result
  have kept := transfer.keep (refs_nonneg root)
  rw [zero_add] at kept
  have taken : own self + refs root = owns (self :: addresses root) :=
    (owns_cons _ _).symm
  rw [taken] at kept
  have now :
    ((world.without (self :: addresses root)).exchanged self result).2.owned =
      refs root + (world.without (self :: addresses root)).owned := by
    funext address
    have written :=
      congrFun (Vars.references_write isVar { var with root }) address
    rw [isExchanged]
    simp only [Pi.add_apply, refs, owns] at written
    simp only [Holdings.owned, Holdings.exchanged, without, Pi.add_apply,
      Multiset.count_add, Multiset.coe_count, refs, owns]
    omega
  obtain ⟨after, same⟩ := consistent.same kept before now rfl rfl
  refine ⟨heap, _, isResult, after, ?_⟩
  have isScopeVar : world.scopes.vars self = some var := isVar
  rw [same, Scopes.write, isScopeVar, isExchanged]
  dsimp only [Holdings.exchanged]
  rw [Vars.find_write]
  rfl

/-- Both references of a call that `promoteToShared` ends are lost. -/
theorem Consistent.lose
    (consistent : world.Consistent)
    {consumed : List Address}
    (isHeld : (consumed : Multiset Address) ≤ world.holdings.held) :
    Consistent ⟨world.heap,
        { world.without consumed with lost := world.holdings.lost + consumed }⟩ ∧
      scopes ⟨world.heap,
        { world.without consumed with lost := world.holdings.lost + consumed }⟩ =
          world.scopes := by
  have before := owned_without isHeld
  have now : Holdings.owned
      { world.without consumed with lost := world.holdings.lost + consumed } =
        owns consumed + (world.without consumed).owned := by
    funext address
    simp only [Holdings.owned, without, Pi.add_apply, Multiset.count_add,
      Multiset.coe_count, owns]
    omega
  exact consistent.same (Transfer.refl world.heap (owns consumed)) before
    now rfl rfl

/-- The root is exchanged, unless the object cannot be shared. -/
theorem refined_bindRoot
    (consistent : world.Consistent)
    {self : Address}
    {object : RTValue}
    {view : SharedView}
    (allowed : world.Allows (.bindRoot self object view)) :
    world.Refined (.bindRoot self object view) := by
  obtain ⟨isVarThere, isHeld, _, isPromoted⟩ := allowed
  obtain ⟨var, isVar⟩ := Option.ne_none_iff_exists'.mp isVarThere
  obtain ⟨promoted, isEnd⟩ := Option.ne_none_iff_exists'.mp isPromoted
  cases promoted with
  | ok =>
      obtain ⟨heap, holdings, isResult, after, same⟩ :=
        consistent.exchange isVar isHeld
      refine ⟨.value .boxNil, _, ?_, after, ?_⟩
      · rw [perform, isVar, isEnd]
        exact (consume_wrapped (exchangeRoot var self object) Except.ok
          (fun result holdings => holdings.rebound self object result)).trans
            isResult
      · rw [same, Scopes.perform, isEnd]
        rfl
  | error exception =>
      obtain ⟨after, same⟩ := consistent.lose isHeld
      refine ⟨.throws exception, _, ?_, after, ?_⟩
      · rw [perform, isVar, isEnd]
        exact if_pos isHeld
      · rw [same, Scopes.perform, isEnd]
        rfl

/-- The root becomes unbound. -/
theorem refined_unbindRoot
    (consistent : world.Consistent)
    {self : Address}
    (allowed : world.Allows (.unbindRoot self)) :
    world.Refined (.unbindRoot self) := by
  obtain ⟨isVarThere, isHeld⟩ := allowed
  obtain ⟨var, isVar⟩ := Option.ne_none_iff_exists'.mp isVarThere
  have isHeldNull :
      ((self :: addresses .boxNull : List Address) : Multiset Address) ≤
      world.holdings.held :=
    isHeld
  obtain ⟨heap, holdings, isResult, after, same⟩ :=
    consistent.exchange isVar isHeldNull
  refine ⟨.value .boxNil, _, ?_, after, ?_⟩
  · rw [perform, isVar]
    exact isResult
  · rw [same]
    rfl

/-- Only the flag changes. -/
theorem refined_setDynamic
    (consistent : world.Consistent)
    {self : Address}
    {dynamic : Bool}
    (allowed : world.Allows (.setDynamic self dynamic)) :
    world.Refined (.setDynamic self dynamic) := by
  obtain ⟨var, isVar⟩ := Option.ne_none_iff_exists'.mp allowed
  have before : world.holdings.owned = 0 + world.holdings.owned :=
    (zero_add _).symm
  have now : Holdings.owned { world.holdings with
      vars := world.holdings.vars.write self { var with dynamic } } =
        0 + world.holdings.owned := by
    funext address
    have written :=
      congrFun (Vars.references_write isVar { var with dynamic }) address
    simp only [Pi.add_apply] at written
    simp only [Holdings.owned, Pi.add_apply, Pi.zero_apply]
    omega
  obtain ⟨after, same⟩ :=
    consistent.same (Transfer.refl world.heap 0) before now rfl rfl
  refine ⟨.done, _, ?_, after, ?_⟩
  · rw [perform, isVar]
    rfl
  · have isScopeVar : world.scopes.vars self = some var := isVar
    rw [same, Scopes.perform, Scopes.write, isScopeVar, Vars.find_write]
    rfl

/-! ## Contexts that change -/

/-- A context gives up its references to the one in its place. -/
theorem owned_replace
    {holdings : Holdings}
    {ctx : Nat}
    {old : Option ExecutionContext}
    (isOld : holdings.contexts[ctx]? = some old)
    (new : Option ExecutionContext) :
    (holdings.replace ctx new).owned + leftRefs old = holdings.owned +
    leftRefs new := by
  funext address
  have references := congrFun (mapReferences_set isOld new) address
  simp only [Pi.add_apply] at references
  simp only [Holdings.owned, Holdings.replace, Pi.add_apply]
  omega

/-- One context is replaced, and others are new. -/
theorem Consistent.replaced
    {rest holdings : Holdings}
    {ctx : Nat}
    {left : Option ExecutionContext}
    (added : List (Option ExecutionContext))
    (consistent : world.Consistent)
    (transfer : Transfer world.heap heap taken given)
    (before : world.holdings.owned = taken + rest.owned)
    (restContexts : rest.contexts = world.holdings.contexts.set ctx none)
    (now : holdings.owned = given + rest.owned)
    (newContexts : holdings.contexts = world.holdings.contexts.set ctx
      left ++ added)
    (shows : ∀ context, left = some context ∨ some context ∈ added →
      ∃ entries, Shows heap (some context) entries) :
    Consistent ⟨heap, holdings⟩ ∧
      scopes ⟨heap, holdings⟩ =
        { vars := holdings.vars.find
          contexts := world.scopes.contexts.set ctx (left.map (scopeOf heap)) ++
            added.map (Option.map (scopeOf heap)) } := by
  have again : world.holdings.contexts.set ctx left = rest.contexts.set ctx
      left := by
    rw [restContexts, List.set_set]
  constructor
  · apply consistent.after transfer before now
    · intro context isContext
      rw [restContexts] at isContext
      rcases List.mem_or_eq_of_mem_set isContext with isOld | never
      · exact isOld
      · cases never
    · intro context isContext
      rw [newContexts, again] at isContext
      rcases List.mem_append.mp isContext with isLeft | isAdded
      · rcases List.mem_or_eq_of_mem_set isLeft with isRest | isReplaced
        · exact Or.inl isRest
        · exact Or.inr (shows context (Or.inl isReplaced.symm))
      · exact Or.inr (shows context (Or.inr isAdded))
  · have kept :=
      congrArg Scopes.contexts (consistent.scopes_kept transfer before)
    unfold scopes at kept ⊢
    dsimp only at kept ⊢
    rw [newContexts, again, List.map_append, List.map_set, kept, restContexts,
      List.map_set, List.set_set]

/-- The scope of a context that is there. -/
theorem scope_of_context
    {ctx : Nat}
    {context : ExecutionContext}
    (isContext : world.contextAt ctx = some context) :
    world.scopes.contexts[ctx]? = some (some (scopeOf world.heap context)) := by
  rw [scopes, List.getElem?_map, getElem?_of_contextAt isContext]
  rfl

/-- Another scope in the place of one that is there. -/
theorem replace_scope
    {ctx : Nat}
    {context : ExecutionContext}
    (isContext : world.contextAt ctx = some context)
    (change : Scope → Option Scope) :
    world.scopes.replace ctx change =
      { world.scopes with
        contexts :=
          world.scopes.contexts.set ctx
            (change (scopeOf world.heap context)) } := by
  rw [Scopes.replace, scope_of_context isContext]

/-- What somebody has besides a context. -/
theorem owned_context
    {ctx : Nat}
    {context : ExecutionContext}
    (isContext : world.contextAt ctx = some context) :
    world.holdings.owned =
      mapRefs context.bindingsMap +
        (world.holdings.replace ctx none).owned := by
  have replaced := owned_replace (getElem?_of_contextAt isContext) none
  have nothing : leftRefs none = 0 := owns_nil
  rw [nothing, add_zero] at replaced
  rw [← replaced, add_comm]
  rfl

/-- The references of what is left of a context. -/
theorem owned_left
    {ctx : Nat}
    {context : ExecutionContext}
    (isContext : world.contextAt ctx = some context)
    (left : Option ExecutionContext) :
    (world.holdings.replace ctx left).owned =
      leftRefs left + (world.holdings.replace ctx none).owned := by
  have isOld := owned_replace (getElem?_of_contextAt isContext) left
  have isOwned := owned_context isContext
  have isLeft : leftRefs (some context) = mapRefs context.bindingsMap := rfl
  rw [isOwned, isLeft] at isOld
  funext address
  have := congrFun isOld address
  simp only [Pi.add_apply] at *
  omega

theorem without_nil : world.without [] = world.holdings := by
  unfold without
  rw [Multiset.coe_nil, tsub_zero]

/-- The context has one reference more. -/
theorem refined_retain
    (consistent : world.Consistent)
    {ctx : Nat}
    (allowed : world.Allows (.retain ctx)) : world.Refined (.retain ctx) := by
  obtain ⟨context, isContext⟩ := Option.ne_none_iff_exists'.mp allowed
  obtain ⟨entries, shows⟩ :=
    consistent.shows context
      (List.mem_of_getElem? (getElem?_of_contextAt isContext))
  have showsAfter (other : ExecutionContext)
      (isThere : some context.retain = some other ∨
        some other ∈ ([] : List (Option _))) :
      ∃ entries, Shows world.heap (some other) entries := by
    rcases isThere with isLeft | never
    · cases isLeft
      exact ⟨entries, shows⟩
    · cases never
  obtain ⟨after, same⟩ := consistent.replaced [] (Transfer.refl world.heap _)
    (owned_context isContext) rfl (owned_left isContext (some context.retain))
    (List.append_nil _).symm showsAfter
  refine ⟨.done, _, ?_, after, ?_⟩
  · rw [perform, isContext]
    rfl
  · rw [same, Scopes.perform, replace_scope isContext]
    simp only [List.map_nil, List.append_nil]
    rfl

/-- Releasing a context is releasing its scope. -/
theorem map_afterRelease (heap : MapHeap) (context : ExecutionContext) :
    (afterRelease context).map (scopeOf heap) =
    (scopeOf heap context).release := by
  unfold afterRelease Scope.release
  by_cases isOne : context.refCount = 1
  · rw [if_pos isOne]
    exact (if_pos isOne).symm
  · rw [if_neg isOne]
    exact (if_neg isOne).symm

/-- A context that is left keeps its bindings. -/
theorem bindingsMap_of_afterRelease
    {context left : ExecutionContext}
    (isLeft : afterRelease context = some left) :
    left.bindingsMap = context.bindingsMap := by
  unfold afterRelease at isLeft
  split at isLeft
  · cases isLeft
  · cases isLeft
    rfl

/-- The context has one reference less, or is gone with its bindings. -/
theorem refined_release
    (consistent : world.Consistent)
    {ctx : Nat}
    (allowed : world.Allows (.release ctx)) : world.Refined (.release ctx) := by
  obtain ⟨context, isContext⟩ := Option.ne_none_iff_exists'.mp allowed
  obtain ⟨entries, shows⟩ :=
    consistent.shows context
      (List.mem_of_getElem? (getElem?_of_contextAt isContext))
  have before := owned_context isContext
  have runs : Runs context.release world.heap _ :=
    runs_releaseContext ((consistent.backed before).left (mapRefs_nonneg _)
      (Holdings.owned_nonneg _))
  have isHeld : (([] : List Address) : Multiset Address) ≤
      world.holdings.held :=
    Multiset.zero_le _
  obtain ⟨left, heap, ⟨isLeft, transfer, sameHeap⟩, isResult⟩ := consume_of_runs
    isHeld runs
    fun left holdings => (.done, holdings.replace ctx left)
  rw [without_nil] at isResult
  have showsAfter (other : ExecutionContext)
      (isThere : left = some other ∨ some other ∈ ([] : List (Option _))) :
      ∃ entries, Shows heap (some other) entries := by
    rcases isThere with isOther | never
    · rw [sameHeap (by rw [isOther]; exact Option.some_ne_none other)]
      rw [isLeft] at isOther
      exact ⟨entries, shows.of_sameMap (bindingsMap_of_afterRelease isOther)⟩
    · cases never
  obtain ⟨after, same⟩ := consistent.replaced [] transfer before rfl
    (owned_left isContext left) (List.append_nil _).symm showsAfter
  have performs : world.perform (.release ctx) =
      world.consume [] context.release fun left holdings =>
        (.done, holdings.replace ctx left) := by
    rw [perform, isContext]
    rfl
  have scopeLeft :
      left.map (scopeOf heap) = (scopeOf world.heap context).release := by
    rw [← map_afterRelease, ← isLeft]
    by_cases isThere : left = none
    · rw [isThere]
      rfl
    · rw [sameHeap isThere]
  refine ⟨_, _, performs.trans isResult, after, ?_⟩
  rw [same, Scopes.perform, replace_scope isContext, scopeLeft]
  simp only [List.map_nil, List.append_nil]
  rfl

/-- The new context has the same bindings. -/
theorem refined_clone
    (consistent : world.Consistent)
    {ctx : Nat}
    (allowed : world.Allows (.clone ctx)) : world.Refined (.clone ctx) := by
  obtain ⟨context, isContext⟩ := Option.ne_none_iff_exists'.mp allowed
  obtain ⟨entries, shows⟩ :=
    consistent.shows context
      (List.mem_of_getElem? (getElem?_of_contextAt isContext))
  have before := owned_context isContext
  have runs : Runs context.clone world.heap _ :=
    runs_clone
      ((consistent.backed before).left (mapRefs_nonneg _)
      (Holdings.owned_nonneg _))
  have isHeld : (([] : List Address) : Multiset Address) ≤
      world.holdings.held :=
    Multiset.zero_le _
  obtain ⟨result, heap, ⟨isCloned, transfer, sameMap⟩,
    isResult⟩ := consume_of_runs isHeld runs
    fun result holdings => (holdings.replace ctx result.2).create result.1
  rw [without_nil, isCloned] at isResult
  rw [isCloned] at transfer
  dsimp only at isResult transfer
  have showsNow : Shows heap (some context) entries := shows.of_objects sameMap
  have showsAfter (other : ExecutionContext)
      (isThere : afterRelease context = some other ∨
        some other ∈ [some (ExecutionContext.create context.bindingsMap)]) :
      ∃ entries, Shows heap (some other) entries := by
    rcases isThere with isLeft | isNew
    · exact ⟨entries, showsNow.of_sameMap (bindingsMap_of_afterRelease isLeft)⟩
    · cases List.mem_singleton.mp isNew
      exact ⟨entries, showsNow.of_sameMap rfl⟩
  have now : (((world.holdings.replace ctx (afterRelease context)).create
      (.create context.bindingsMap)).2).owned =
        leftRefs (afterRelease context) + mapRefs context.bindingsMap +
          (world.holdings.replace ctx none).owned := by
    have isLeft := owned_left isContext (afterRelease context)
    funext address
    have references := congrFun (mapReferences_append
      (world.holdings.replace ctx (afterRelease context)).contexts
      (some (.create context.bindingsMap))) address
    have isOwned := congrFun isLeft address
    have isMap : leftRefs (some (ExecutionContext.create context.bindingsMap)) =
        mapRefs context.bindingsMap := rfl
    rw [isMap] at references
    simp only [Pi.add_apply] at references isOwned
    simp only [Holdings.create, Pi.add_apply]
    unfold Holdings.owned at isOwned ⊢
    dsimp only at isOwned references ⊢
    omega
  obtain ⟨after, same⟩ := consistent.replaced
    [some (ExecutionContext.create context.bindingsMap)] transfer before rfl now
    rfl showsAfter
  have performs : world.perform (.clone ctx) =
      world.consume [] context.clone fun result holdings =>
        (holdings.replace ctx result.2).create result.1 := by
    rw [perform, isContext]
    rfl
  have sameScope : scopeOf heap context = scopeOf world.heap context := by
    have isNow := contents_of_shows showsNow
    rw [← contents_of_shows shows] at isNow
    exact congrArg (Scope.mk context.refCount) isNow
  refine ⟨_, _, performs.trans isResult, after, ?_⟩
  have isBindings :
      world.scopes.bindings? (some ctx) = (scopeOf heap context).bindings := by
    rw [Scopes.bindings?, scope_of_context isContext, sameScope]
  rw [same, Scopes.perform, Scopes.clone, replace_scope isContext,
    map_afterRelease, sameScope, isBindings, Scopes.create]
  simp only [Holdings.create, Holdings.replace, List.length_set, scopes,
    List.length_map]
  rfl

/-- Bindings are those of a context. -/
theorem context_of_bindings
    {ctx : Option Nat}
    {context : Option ExecutionContext}
    (isContext : world.context? ctx = some context)
    {map : Address}
    (isMap : bindingsOf context = some map) :
    ∃ index refCount, ctx = some index ∧ context = some ⟨refCount, some map⟩ ∧
      world.contextAt index = some ⟨refCount, some map⟩ := by
  cases context with
  | none => cases isMap
  | some context =>
      obtain ⟨refCount, bindingsMap⟩ := context
      obtain ⟨index, rfl, found⟩ := mem_contexts isContext
      cases isMap
      exact ⟨index, refCount, rfl, rfl, Option.join_eq_some_iff.mpr found⟩

/-- What somebody has besides the map of a context. -/
theorem exists_rest
    {ctx : Option Nat}
    {context : Option ExecutionContext}
    (isContext : world.context? ctx = some context)
    (consumed : List Address) :
    ∃ rest : Holdings,
      (world.without consumed).owned = mapRefs (bindingsOf context) +
      rest.owned ∧
      ∀ map, bindingsOf context = some map → ∃ index refCount,
        ctx = some index ∧
        context = some ⟨refCount, some map⟩ ∧
        world.contextAt index = some ⟨refCount, some map⟩ ∧
        rest = (world.without consumed).replace index none := by
  cases isMap : bindingsOf context with
  | none =>
      refine ⟨world.without consumed, (zero_add _).symm.trans ?_, ?_⟩
      · rw [mapRefs, Option.toList_none, owns_nil]
      · rintro map ⟨⟩
  | some map =>
      obtain ⟨index, refCount, isIndex, isFound, found⟩ :=
        context_of_bindings isContext isMap
      have alsoFound : contextAt ⟨world.heap, world.without consumed⟩ index =
          some ⟨refCount, some map⟩ := found
      refine ⟨(world.without consumed).replace index none,
        owned_context alsoFound, ?_⟩
      rintro other ⟨⟩
      exact ⟨index, refCount, isIndex, isFound, found, rfl⟩

/-- `set!` in a context with these bindings. -/
theorem Inherits.setIn
    {ctx : Option Nat}
    {context : Option ExecutionContext}
    {entries : Entries}
    (inherits : Inherits world ctx context entries)
    (self : Address)
    (value : RTValue)
    (var : Var) :
    world.scopes.setIn ctx self value var =
      (setEntry var context entries self value).map valueFor := by
  unfold Scopes.setIn setEntry
  rw [inherits.bindings]
  by_cases dynamic : var.dynamic = true
  · rw [if_pos dynamic, if_pos dynamic]
    cases bindingsOf context with
    | none => rfl
    | some map =>
        dsimp only [Option.map_some]
        cases valueFor entries self with
        | none => rfl
        | some old =>
            dsimp only
            rw [← valueFor_withEntry]
            rfl
  · rw [if_neg dynamic, if_neg dynamic]
    rfl

/-- Only a context with bindings lets a var be set. -/
theorem exists_bindings_of_setEntry
    {ctx : Option ExecutionContext}
    {entries newEntries : Entries}
    {self : Address}
    {value : RTValue}
    {var : Var}
    (isOk : setEntry var ctx entries self value = .ok newEntries) :
    ∃ map, bindingsOf ctx = some map := by
  unfold setEntry at isOk
  split at isOk
  · split at isOk
    · next map isMap => exact ⟨map, isMap⟩
    · cases isOk
  · cases isOk

/-- What is owned when a context has a new map, and the value is held again. -/
theorem owned_rebound
    {holdings : Holdings}
    {ctx refCount : Nat}
    {map : Address}
    (isContext : contextAt ⟨world.heap, holdings⟩ ctx =
      some ⟨refCount, some map⟩)
    (newMap : Address)
    (value : RTValue) :
    Holdings.owned { holdings with
      contexts := holdings.contexts.set ctx (some ⟨refCount, some newMap⟩)
      held := holdings.held + addresses value } =
        own newMap + refs value + (holdings.replace ctx none).owned := by
  have isLeft := owned_left isContext (some ⟨refCount, some newMap⟩)
  have isOwn : leftRefs (some ⟨refCount, some newMap⟩) = own newMap :=
    owns_singleton newMap
  rw [isOwn] at isLeft
  funext address
  have isOwned := congrFun isLeft address
  simp only [Pi.add_apply] at isOwned ⊢
  simp only [Holdings.owned, Holdings.replace, Multiset.count_add,
    Multiset.coe_count, refs, owns] at isOwned ⊢
  omega

/-- `set!` changes the innermost binding in this context. -/
theorem refined_set
    (consistent : world.Consistent)
    {ctx : Option Nat}
    {self : Address}
    {value : RTValue}
    (allowed : world.Allows (.set ctx self value)) :
    world.Refined (.set ctx self value) := by
  obtain ⟨isThere, isVarThere, isHeld⟩ := allowed
  obtain ⟨context, isContext⟩ := Option.ne_none_iff_exists'.mp isThere
  obtain ⟨var, isVar⟩ := Option.ne_none_iff_exists'.mp isVarThere
  obtain ⟨entries, inherits⟩ := consistent.inherits isContext
  obtain ⟨rest, restOwned, isRest⟩ :=
    exists_rest isContext (addresses value ++ [self])
  have beforeArguments := owned_without isHeld
  rw [owns_append, owns_singleton] at beforeArguments
  have before := beforeArguments
  rw [restOwned, ← add_assoc] at before
  have runs : Runs (DynamicVars.set var context self value) world.heap _ :=
    runs_set inherits.shows (consistent.backed before) (Holdings.owned_nonneg _)
      (Holdings.empty_le_owned _)
  obtain ⟨result, heap, sets, isResult⟩ := consume_of_runs isHeld runs
    fun result holdings => holdings.set ctx result
  have performs : world.perform (.set ctx self value) =
      world.consume (addresses value ++ [self])
        (DynamicVars.set var context self value)
        fun result holdings => holdings.set ctx result := by
    rw [perform, isContext, isVar]
    rfl
  have isScopeVar : world.scopes.vars self = some var := isVar
  have isSet := inherits.setIn self value var
  have scopesSet : world.scopes.perform (contents world.heap)
    (.set ctx self value) =
      world.scopes.set ctx value
        ((setEntry var context entries self value).map valueFor) := by
    rw [Scopes.perform, isScopeVar, ← isSet]
    rfl
  rw [Refined, scopesSet]
  have isBound (newEntries : Entries)
      (isOk : setEntry var context entries self value = .ok newEntries) :=
    exists_bindings_of_setEntry isOk
  generalize setEntry var context entries self value =
    bindings at sets isBound ⊢
  cases sets with
  | thrown exception _ transfer =>
      obtain ⟨after, same⟩ :=
        consistent.same transfer beforeArguments (zero_add _).symm rfl rfl
      refine ⟨_, _, performs.trans isResult, after, ?_⟩
      dsimp only [Holdings.set]
      rw [same]
      rfl
  | returned newMap newEntries _ transfer binds =>
      obtain ⟨map, isMap⟩ := isBound newEntries rfl
      obtain ⟨index, refCount, rfl, rfl, found, rfl⟩ := isRest map isMap
      have foundWithout :
        contextAt ⟨world.heap, world.without (addresses value ++ [self])⟩
        index =
          some ⟨refCount, some map⟩ := found
      have now := owned_rebound foundWithout newMap value
      have showsAfter (other : ExecutionContext)
          (isThere : some ⟨refCount, some newMap⟩ = some other ∨
            some other ∈ ([] : List (Option ExecutionContext))) :
          ∃ entries, Shows heap (some other) entries := by
        rcases isThere with isOther | never
        · cases isOther
          exact ⟨newEntries, binds⟩
        · cases never
      obtain ⟨after, same⟩ := consistent.replaced [] transfer before rfl now
        (List.append_nil _).symm showsAfter
      have newBindings : (scopeOf heap ⟨refCount, some newMap⟩).bindings =
          some (valueFor newEntries) :=
        contents_of_shows
          (show Shows heap (some ⟨refCount, some newMap⟩) newEntries from binds)
      refine ⟨_, _, performs.trans isResult, after, ?_⟩
      dsimp only [Holdings.set, Except.map, Scopes.set, Option.elim]
      rw [replace_scope found, ← newBindings]
      refine congrArg (Prod.mk _) (Eq.trans ?_ same.symm)
      simp only [List.map_nil, List.append_nil]
      rfl

/-! ## Whole runs -/

/-- The step lemma for calls. -/
theorem Consistent.refined
    (consistent : world.Consistent)
    {operation : Operation}
    (allowed : world.Allows operation) : world.Refined operation := by
  cases operation with
  | create bindingsMap => exact refined_create consistent allowed
  | retain ctx => exact refined_retain consistent allowed
  | release ctx => exact refined_release consistent allowed
  | clone ctx => exact refined_clone consistent allowed
  | bind ctx v val => exact refined_bind consistent allowed
  | bindMap ctx bindingsMap => exact refined_bindMap consistent allowed
  | deref ctx self => exact refined_deref consistent allowed
  | set ctx self value => exact refined_set consistent allowed
  | bindRoot self object view => exact refined_bindRoot consistent allowed
  | unbindRoot self => exact refined_unbindRoot consistent allowed
  | setDynamic self dynamic => exact refined_setDynamic consistent allowed

/-- The step lemma for whatever else happens. -/
theorem Consistent.other
    (consistent : world.Consistent)
    {after : World}
    (happens : world.Other after) : after.Consistent ∧
    after.scopes = world.scopes := by
  cases happens with
  | transfer heap taken given isHeld transfer =>
      have now : Holdings.owned { world.holdings with
          held := world.holdings.held - taken + given } =
            owns given + (world.without taken).owned := by
        funext address
        simp only [Holdings.owned, without, Pi.add_apply, Multiset.count_add,
          Multiset.coe_count, owns]
        omega
      exact consistent.same transfer (owned_without isHeld) now rfl rfl
  | reclaim heap taken isRetired transfer =>
      have before : world.holdings.owned = owns taken +
          Holdings.owned
            { world.holdings with retired := world.holdings.retired - taken } := by
        funext address
        have := Multiset.count_le_of_le address isRetired
        rw [Multiset.coe_count] at this
        simp only [Holdings.owned, Pi.add_apply, Multiset.count_sub,
          Multiset.coe_count, owns]
        omega
      exact consistent.same transfer before (zero_add _).symm rfl rfl

/-- There is no context yet. -/
theorem consistent_of_initial (initially : world.Initial) :
    world.Consistent where
  excess := initially.excess
  empty := initially.empty
  shows := by
    intro context isContext
    rw [initially.noContexts] at isContext
    cases isContext

/-- Every call keeps the world consistent. -/
theorem Consistent.step
    {condition : Operation → Outcome → Prop}
    {after : World}
    (consistent : world.Consistent)
    (stepped : Step condition world after) : after.Consistent := by
  cases stepped with
  | call operation outcome _ _ allowed result =>
      obtain ⟨_, _, isResult, consistentAfter, _⟩ := consistent.refined allowed
      rw [result, Option.some.injEq, Prod.mk.injEq] at isResult
      rw [isResult.2]
      exact consistentAfter
  | other _ happens => exact (consistent.other happens).1

/-- By induction on the run. -/
theorem consistent_of_reaches
    {condition : Operation → Outcome → Prop}
    (reaches : Reaches condition world) : world.Consistent := by
  apply reaches.invariant
  · exact fun _ initially => consistent_of_initial initially
  · exact fun _ _ _ consistent stepped => consistent.step stepped

end Steps

end World
end DynamicVars
end Runtime
end ClojureRt
