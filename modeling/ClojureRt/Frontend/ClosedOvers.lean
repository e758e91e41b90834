import ClojureRt.Frontend.FreshVars

/-!
# Two capture analyses agree

`collect-closed-overs` walks the tree with a mutable frame: binders are added to
the `:locals` of the frame when they are met, and a local that is not among them
becomes a closed-over.  A `:deftype`, a `:reify`, a method of a function, a
`:loop` and a `:try` start a frame of their own, whose closed-overs are passed
on to the outer frame unless they are local there.

The frame is passed explicitly here, and a map of closed-overs is its set of
keys. The keys and values of a `:map` are visited in evaluation order.
-/

namespace ClojureRt
namespace Frontend

variable {Name : Type} [DecidableEq Name]

/-! ## The walk -/

/-- The value of `*collects*`. -/
structure Collects (Name : Type) where
  closedOvers : Finset Name
  locals : Finset Name

namespace Collects

/-- A new frame. -/
def empty : Collects Name :=
  ⟨∅, ∅⟩

/-- Register locals. -/
def register (names : Finset Name) (collects : Collects Name) : Collects Name :=
  { collects with locals := collects.locals ∪ names }

/-- Visit a `:local`. -/
def visit (name : Name) (collects : Collects Name) : Collects Name :=
  if name ∈ collects.locals then collects
  else { collects with closedOvers := insert name collects.closedOvers }

/-- Propagate the closed-overs of an inner frame. -/
def leave (closedOvers : Finset Name) (collects : Collects Name) :
    Collects Name :=
  { collects with
    closedOvers := collects.closedOvers ∪ (closedOvers \ collects.locals) }

end Collects

mutual

/-- `collect-closed-overs*`.  The annotation of a node that has a frame of its
own is the set of its closed-overs. -/
def collectClosedOvers : Node Name Unit → Collects Name →
    Node Name (Option (Finset Name)) × Collects Name
  | .localVar _ name, collects => (.localVar none name, collects.visit name)
  | .plain _ op child, collects =>
      let (child, collects) := collectChild child collects
      (.plain none op child, collects)
  | .application _ op children, collects =>
      let (children, collects) := collectNodes children collects
      (.application none op children, collects)
  | .fn _ self methods, collects =>
      let (methods, collects) :=
        collectFnMethods methods (collects.register self.toFinset)
      (.fn none self methods, collects)
  | .reify _ methods, collects =>
      let (methods, inner) := collectMethods methods .empty
      (.reify (some inner.closedOvers) methods,
        collects.leave inner.closedOvers)
  | .deftype _ fields methods, collects =>
      let (methods, inner) := collectMethods methods ⟨fields.toFinset, ∅⟩
      (.deftype (some inner.closedOvers) fields methods,
        collects.leave (inner.closedOvers \ fields.toFinset))
  | .letForm _ kind scope, collects =>
      let collects := match kind with
        | .letfn => collects.register scope.names.toFinset
        | _ => collects
      let (scope, collects) := collectScope scope collects
      (.letForm none kind scope, collects)
  | .loop _ scope, collects =>
      let (scope, inner) := collectScope scope .empty
      (.loop (some inner.closedOvers) scope, collects.leave inner.closedOvers)
  | .tryForm _ body catches finalizer, collects =>
      let (body, inner) := collectClosedOvers body .empty
      let (catches, inner) := collectCatches catches inner
      let (finalizer, inner) := collectChild finalizer inner
      (.tryForm (some inner.closedOvers) body catches finalizer,
        collects.leave inner.closedOvers)
  | .ifForm _ test thenBranch elseBranch, collects =>
      let (test, collects) := collectClosedOvers test collects
      let (thenBranch, collects) := collectClosedOvers thenBranch collects
      let (elseBranch, collects) := collectClosedOvers elseBranch collects
      (.ifForm none test thenBranch elseBranch, collects)
  | .caseForm _ test thens default, collects =>
      let (thens, collects) := collectNodes thens (collects.visit test)
      let (default, collects) := collectChild default collects
      (.caseForm none test thens default, collects)

/-- The walk over a list of nodes. -/
def collectNodes : Nodes Name Unit → Collects Name →
    Nodes Name (Option (Finset Name)) × Collects Name
  | .nil, collects => (.nil, collects)
  | .cons head tail, collects =>
      let (head, collects) := collectClosedOvers head collects
      let (tail, collects) := collectNodes tail collects
      (.cons head tail, collects)

/-- The walk over an optional child. -/
def collectChild : Child Name Unit → Collects Name →
    Child Name (Option (Finset Name)) × Collects Name
  | .absent, collects => (.absent, collects)
  | .present node, collects =>
      let (node, collects) := collectClosedOvers node collects
      (.present node, collects)

/-- The walk over bindings: a name is registered before its value is visited. -/
def collectScope : Scope Name Unit → Collects Name →
    Scope Name (Option (Finset Name)) × Collects Name
  | .body node, collects =>
      let (node, collects) := collectClosedOvers node collects
      (.body node, collects)
  | .bind _ name init rest, collects =>
      let (init, collects) := collectClosedOvers init (collects.register {name})
      let (rest, collects) := collectScope rest collects
      (.bind none name init rest, collects)

/-- The walk over the methods of a function, each in its own frame. -/
def collectFnMethods : Methods Name Unit → Collects Name →
    Methods Name (Option (Finset Name)) × Collects Name
  | .nil, collects => (.nil, collects)
  | .cons _ this params loopId body rest, collects =>
      let (body, inner) := collectClosedOvers body
        (Collects.empty.register (methodArgs this params))
      let (rest, collects) :=
        collectFnMethods rest (collects.leave inner.closedOvers)
      (.cons (some inner.closedOvers) this params loopId body rest, collects)

/-- The walk over the methods of a type, which share the frame of the type. -/
def collectMethods : Methods Name Unit → Collects Name →
    Methods Name (Option (Finset Name)) × Collects Name
  | .nil, collects => (.nil, collects)
  | .cons _ this params loopId body rest, collects =>
      let (body, collects) := collectClosedOvers body
        (collects.register (methodArgs this params))
      let (rest, collects) := collectMethods rest collects
      (.cons none this params loopId body rest, collects)

/-- The walk over catch clauses. -/
def collectCatches : Catches Name Unit → Collects Name →
    Catches Name (Option (Finset Name)) × Collects Name
  | .nil, collects => (.nil, collects)
  | .cons _ name body rest, collects =>
      let (body, collects) := collectClosedOvers body (collects.register {name})
      let (rest, collects) := collectCatches rest collects
      (.cons none name body rest, collects)

end

/-! ## The methods of functions -/

section MethodAnns

variable {Ann : Type}

mutual

/-- The annotations of all methods of functions, outside of `:reify` and
`:deftype`, in the order of the tree. -/
def Node.methodAnns : Node Name Ann → List Ann
  | .localVar _ _ => []
  | .plain _ _ child => child.methodAnns
  | .application _ _ children => children.methodAnns
  | .fn _ _ methods => methods.methodAnns
  | .reify _ _ => []
  | .deftype _ _ _ => []
  | .letForm _ _ scope => scope.methodAnns
  | .loop _ scope => scope.methodAnns
  | .tryForm _ body catches finalizer =>
      body.methodAnns ++ (catches.methodAnns ++ finalizer.methodAnns)
  | .ifForm _ test thenBranch elseBranch =>
      test.methodAnns ++ (thenBranch.methodAnns ++ elseBranch.methodAnns)
  | .caseForm _ _ thens default => thens.methodAnns ++ default.methodAnns

/-- Annotations of methods in a list of nodes. -/
def Nodes.methodAnns : Nodes Name Ann → List Ann
  | .nil => []
  | .cons head tail => head.methodAnns ++ tail.methodAnns

/-- Annotations of methods in an optional child. -/
def Child.methodAnns : Child Name Ann → List Ann
  | .absent => []
  | .present node => node.methodAnns

/-- Annotations of methods in bindings and their body. -/
def Scope.methodAnns : Scope Name Ann → List Ann
  | .body node => node.methodAnns
  | .bind _ _ init rest => init.methodAnns ++ rest.methodAnns

/-- Annotations of methods and of the methods inside them.  A method that binds
`this` is one of a type. -/
def Methods.methodAnns : Methods Name Ann → List Ann
  | .nil => []
  | .cons ann none _ _ body rest => ann :: (body.methodAnns ++ rest.methodAnns)
  | .cons _ (some _) _ _ _ rest => rest.methodAnns

/-- Annotations of methods in catch clauses. -/
def Catches.methodAnns : Catches Name Ann → List Ann
  | .nil => []
  | .cons _ _ body rest => body.methodAnns ++ rest.methodAnns

end

omit [DecidableEq Name] in
theorem Node.methodAnns_modify (change : Ann → Ann) (node : Node Name Ann) :
    (node.modify change).methodAnns = node.methodAnns := by
  cases node <;> rfl

end MethodAnns

/-! ## What a walk collects -/

/-- The walk over something with the given free variables and binders.
`implicit` are the `this` that `-fresh-vars` adds to a `:recur`, which no node
mentions. -/
structure Collected
    (implicit free : Finset Name)
    (binders : List Name)
    (before after : Collects Name) : Prop where
  upper : after.closedOvers ⊆ before.closedOvers ∪ (free \ before.locals)
  kept : before.closedOvers ⊆ after.closedOvers
  lower : (free \ before.locals) \ implicit ⊆ after.closedOvers
  locals_subset : before.locals ⊆ after.locals
  subset_locals : after.locals ⊆ before.locals ∪ binders.toFinset

namespace Collected

variable {implicit free freeFirst freeSecond : Finset Name}
  {binders bindersFirst bindersSecond : List Name}
  {before middle after : Collects Name}

theorem refl (before : Collects Name) : Collected implicit ∅
    [] before before := by
  constructor <;> simp

theorem visit (name : Name) (before : Collects Name) :
    Collected implicit {name} [] before (before.visit name) := by
  unfold Collects.visit
  split
  · constructor <;> grind
  · constructor <;> grind

/-- One walk after the other.  What the first binds is not free in the
second. -/
theorem append
    (first : Collected implicit freeFirst bindersFirst before middle)
    (second : Collected implicit freeSecond bindersSecond middle after)
    (apart : ∀ name ∈ bindersFirst, name ∉ freeSecond) :
    Collected implicit (freeFirst ∪ freeSecond) (bindersFirst ++ bindersSecond)
      before after := by
  obtain ⟨upperFirst, keptFirst, lowerFirst, localsFirst, boundFirst⟩ := first
  obtain ⟨upperSecond, keptSecond, lowerSecond, localsSecond, boundSecond⟩ :=
    second
  refine ⟨?_, keptFirst.trans keptSecond, ?_,
    localsFirst.trans localsSecond, ?_⟩
  · intro name member
    have fromSecond := @upperSecond name member
    have fromFirst := @upperFirst name
    have localFirst := @localsFirst name
    simp only [Finset.mem_union, Finset.mem_sdiff] at fromSecond fromFirst ⊢
    grind
  · intro name member
    have notBound : name ∈ freeSecond → name ∉ bindersFirst := fun free bound =>
      apart name bound free
    have localMiddle := @boundFirst name
    have fromSecond := @lowerSecond name
    have fromFirst := @lowerFirst name
    have kept := @keptSecond name
    simp only [Finset.mem_union, Finset.mem_sdiff,
      List.mem_toFinset] at member localMiddle
    simp only [Finset.mem_sdiff] at fromSecond fromFirst
    grind
  · intro name member
    have fromSecond := @boundSecond name member
    have fromFirst := @boundFirst name
    simp only [Finset.mem_union, List.mem_toFinset,
      List.mem_append] at fromSecond fromFirst ⊢
    grind

/-- A walk in the scope of names registered before it.  A `this` among them is
no longer implicit outside. -/
theorem register
    {inside : Finset Name}
    {names : List Name}
    (inner : Collected inside free binders
      (before.register names.toFinset) after)
    (explicit : inside ⊆ implicit ∪ names.toFinset) :
    Collected implicit (free \ names.toFinset) (names ++ binders) before
      after := by
  obtain ⟨upper, kept, lower, localsSubset, bound⟩ := inner
  simp only [Collects.register] at upper kept lower localsSubset bound
  refine ⟨?_, kept, ?_, ?_, ?_⟩
  · intro name member
    have known := @upper name member
    simp only [Finset.mem_union, Finset.mem_sdiff] at known ⊢
    grind
  · intro name member
    have notInside := @explicit name
    refine @lower name ?_
    simp only [Finset.mem_union, Finset.mem_sdiff] at member notInside ⊢
    grind
  · exact Finset.subset_union_left.trans localsSubset
  · intro name member
    have known := @bound name member
    simp only [Finset.mem_union, List.mem_toFinset, List.mem_append] at known ⊢
    grind

/-- A walk in the scope of one name. -/
theorem bindName
    {name : Name}
    (inner : Collected implicit free binders (before.register {name}) after) :
    Collected implicit (free.erase name) (name :: binders) before after := by
  have singleton : ([name] : List Name).toFinset = {name} := by simp
  rw [← singleton] at inner
  have collected := inner.register Finset.subset_union_left
  rwa [singleton, Finset.sdiff_singleton_eq_erase] at collected

/-- Leaving a frame of its own. -/
theorem frame
    (inner : Collected implicit free binders Collects.empty after)
    (outer : Collects Name) :
    Collected implicit free binders outer (outer.leave after.closedOvers) := by
  obtain ⟨upper, -, lower, -, -⟩ := inner
  simp only [Collects.empty, Finset.empty_union,
    Finset.sdiff_empty] at upper lower
  refine ⟨?_, Finset.subset_union_left, ?_, subset_rfl,
    Finset.subset_union_left⟩
  · exact Finset.union_subset_union_right
      (Finset.sdiff_subset_sdiff upper subset_rfl)
  · intro name member
    have known := @lower name
    simp only [Collects.leave, Finset.mem_union,
      Finset.mem_sdiff] at member known ⊢
    grind

/-- Frames of which nothing is implicit collect exactly the free variables. -/
theorem closedOvers_eq
    (inner : Collected ∅ free binders Collects.empty after) :
    after.closedOvers = free := by
  refine subset_antisymm ?_ ?_
  · simpa [Collects.empty] using inner.upper
  · simpa [Collects.empty] using inner.lower

/-- Names that are local anyway, or implicit, may be counted as free or not. -/
theorem of_free
    {freeAfter : Finset Name}
    (collected : Collected implicit free binders before after)
    (larger : free ⊆ freeAfter)
    (same : freeAfter ⊆ free ∪ before.locals ∪ implicit) :
    Collected implicit freeAfter binders before after := by
  refine ⟨?_, collected.kept, ?_, collected.locals_subset,
    collected.subset_locals⟩
  · exact collected.upper.trans
      (Finset.union_subset_union_right
        (Finset.sdiff_subset_sdiff larger subset_rfl))
  · intro name member
    have known := @same name
    refine @collected.lower name ?_
    simp only [Finset.mem_union, Finset.mem_sdiff] at member known ⊢
    grind

theorem weaken
    (collected : Collected implicit free binders before after)
    (larger : binders ⊆ bindersSecond) :
    Collected implicit free bindersSecond before after := by
  refine ⟨collected.upper, collected.kept, collected.lower,
    collected.locals_subset, ?_⟩
  refine collected.subset_locals.trans (Finset.union_subset_union_right ?_)
  intro name member
  exact List.mem_toFinset.mpr (larger (List.mem_toFinset.mp member))

end Collected

/-! ## The walk collects the free variables -/

/-- `this` of a method is added to what is implicit in its body. -/
theorem mem_implicit_of_method
    {recurThis : Name → Option Name}
    {implicit : Finset Name}
    (known : ∀ loopId this, recurThis loopId = some this → this ∈ implicit)
    (methodThis : Option Name)
    (methodLoopId : Name) :
    ∀ loopId this,
      (if methodThis.isSome then Function.update recurThis methodLoopId
        methodThis
        else recurThis) loopId = some this →
      this ∈ implicit ∪ methodThis.toFinset := by
  intro loopId this found
  cases methodThis with
  | none => exact Finset.mem_union_left _ (known loopId this found)
  | some name =>
      simp only [Option.isSome_some, if_true, Function.update_apply] at found
      split at found
      · exact Finset.mem_union_right _ (by simpa using found.symm)
      · exact Finset.mem_union_left _ (known loopId this found)

/-- The body of a method is walked in the scope of the names the method
binds. -/
theorem Collected.methodBody
    {implicit free : Finset Name}
    {binders : List Name}
    {before after : Collects Name}
    {this : Option Name}
    {params : List Name}
    (inner : Collected (implicit ∪ this.toFinset) free binders
      (before.register (methodArgs this params)) after) :
    Collected implicit (free \ methodArgs this params)
      (this.toList ++ (params ++ binders)) before after := by
  rw [← toFinset_methodArgs, ← List.append_assoc]
  rw [← toFinset_methodArgs] at inner
  refine inner.register ?_
  refine Finset.union_subset_union_right ?_
  rw [toFinset_methodArgs]
  exact Finset.subset_union_left

/-- What a method body binds is not free in it. -/
theorem methodBody_apart
    {this : Option Name}
    {params : List Name}
    {body : Node Name Unit}
    {rest : List Name}
    {free fresh : Finset Name}
    (nodup : (this.toList ++ (params ++ (body.binders ++ rest))).Nodup)
    (apart : ∀ name ∈ this.toList ++ (params ++ (body.binders ++ rest)),
      name ∉ fresh)
    (freeSubset : free \ methodArgs this params ⊆ fresh) :
    ∀ name ∈ body.binders, name ∉ free := by
  intro name member isFree
  obtain ⟨-, othersNodup, thisApart⟩ := List.nodup_append.mp nodup
  obtain ⟨-, -, paramsApart⟩ := List.nodup_append.mp othersNodup
  by_cases isArg : name ∈ methodArgs this params
  · rcases Finset.mem_union.mp isArg with isThis | isParam
    · exact thisApart name (by simpa using isThis) name (by simp [member]) rfl
    · exact paramsApart name (List.mem_toFinset.mp isParam) name
        (by simp [member]) rfl
  · exact apart name (by simp [member])
      (freeSubset (Finset.mem_sdiff.mpr ⟨isFree, isArg⟩))

mutual

/-- The walk over a node collects its free variables, when binders are distinct
and not among the free variables. -/
theorem collected_node (recurThis : Name → Option Name) (implicit : Finset Name)
    (known : ∀ loopId this, recurThis loopId = some this → this ∈ implicit)
    (node : Node Name Unit)
    (closed : DeftypesClosed recurThis node)
    (nodup : node.binders.Nodup)
    (apart : ∀ name ∈ node.binders, name ∉ (freshVars recurThis node).ann)
    (collects : Collects Name) :
    Collected implicit (freshVars recurThis node).ann node.binders collects
      (collectClosedOvers node collects).2 := by
  match node with
  | .localVar _ name => exact Collected.visit name collects
  | .plain _ op child =>
      exact collected_child recurThis implicit known child closed nodup apart
        collects
  | .application _ op children =>
      cases this : op.recurThis recurThis with
      | none =>
          simp only [freshVars, this, Nodes.consThis] at apart ⊢
          exact collected_nodes op.cumulative recurThis implicit known children
            closed nodup apart collects
      | some name =>
          simp only [freshVars, this, Nodes.consThis] at apart ⊢
          have isImplicit : name ∈ implicit := by
            cases op with
            | recur loopId => exact known loopId name this
            | _ => cases this
          refine Collected.of_free
            (collected_nodes op.cumulative recurThis implicit known children
              closed nodup (fun binder member free => apart binder member
                (Finset.mem_union_right _ free)) collects)
            Finset.subset_union_right ?_
          intro other member
          rcases Finset.mem_union.mp member with isThis | free
          · rw [Finset.mem_singleton.mp isThis]
            exact Finset.mem_union_right _ isImplicit
          · exact Finset.mem_union_left _ (Finset.mem_union_left _ free)
  | .fn _ self methods =>
      obtain ⟨-, methodsNodup, selfApart⟩ := List.nodup_append.mp nodup
      have selfEqual : self.toList.toFinset = self.toFinset := by
        cases self <;> simp
      have methodsApart : ∀ name ∈ methods.binders,
          name ∉ (freshMethods recurThis methods).fresh := by
        intro name member free
        by_cases isSelf : name ∈ self.toFinset
        · exact selfApart name (by simpa using isSelf) name member rfl
        · exact apart name (List.mem_append_right _ member)
            (Finset.mem_sdiff.mpr ⟨free, isSelf⟩)
      have inner := collected_fnMethods recurThis implicit known methods closed
        methodsNodup methodsApart (collects.register self.toList.toFinset)
      have collected := inner.register (Finset.subset_union_left)
      rw [selfEqual] at collected
      exact collected
  | .reify _ methods =>
      exact Collected.frame
        (collected_methods recurThis implicit known methods closed nodup apart
          .empty) collects
  | .deftype _ fields methods =>
      obtain ⟨-, methodsNodup, fieldsApart⟩ := List.nodup_append.mp nodup
      have inner := collected_methods recurThis implicit known methods closed.2
        methodsNodup (fun name member free =>
          fieldsApart name (List.mem_toFinset.mp (closed.1 free)) name
          member rfl) ⟨fields.toFinset, ∅⟩
      -- Only fields are collected, and these are removed again.
      have onlyFields :
          (collectMethods methods ⟨fields.toFinset, ∅⟩).2.closedOvers \
          fields.toFinset = ∅ := by
        have upper := inner.upper
        have methodsFields := closed.1
        rw [Finset.sdiff_eq_empty_iff_subset]
        intro name member
        have bound := upper member
        simp only [Finset.mem_union, Finset.mem_sdiff] at bound
        grind
      have after :
        (collectClosedOvers (.deftype () fields methods) collects).2 =
          collects.leave ∅ := congrArg collects.leave onlyFields
      rw [after]
      constructor <;> simp [Collects.leave, freshVars, Node.ann]
  | .letForm _ .plainLet scope =>
      exact collected_scope recurThis implicit known scope closed nodup apart
        collects
  | .letForm _ .loopLet scope =>
      exact collected_scope recurThis implicit known scope closed nodup apart
        collects
  | .letForm _ .letfn scope =>
      have names := names_freshScope recurThis scope
      have namesApart := scope.not_mem_names_of_nodup nodup
      have innerApart : ∀ name ∈ scope.innerBinders,
          name ∉ (freshScope recurThis scope).ann := by
        intro name member free
        refine apart name ((scope.mem_binders_iff name).mpr (.inr member))
          (Finset.mem_sdiff.mpr ⟨free, ?_⟩)
        rw [names, List.mem_toFinset]
        exact namesApart name member
      have inner := collected_letfnScope recurThis implicit known scope
        closed nodup
        innerApart namesApart (collects.register scope.names.toFinset)
        (fun name member =>
          Finset.mem_union_right _ (List.mem_toFinset.mpr member))
      have collected := inner.register Finset.subset_union_left
      show Collected implicit ((freshScope recurThis scope).ann \
        (freshScope recurThis scope).names.toFinset) scope.binders collects
        (collectScope scope (collects.register scope.names.toFinset)).2
      rw [names]
      refine collected.weaken ?_
      intro name member
      rcases List.mem_append.mp member with isName | bound
      · exact (scope.mem_binders_iff name).mpr (.inl isName)
      · exact bound
  | .loop _ scope =>
      exact Collected.frame
        (collected_scope recurThis implicit known scope closed nodup apart
          .empty) collects
  | .tryForm _ body catches finalizer =>
      obtain ⟨bodyNodup, othersNodup, -⟩ := List.nodup_append.mp nodup
      obtain ⟨catchesNodup, finalizerNodup, -⟩ :=
        List.nodup_append.mp othersNodup
      have apart : ∀ name ∈ body.binders ++
          (catches.binders ++ finalizer.binders),
          name ∉ (freshVars recurThis body).ann ∪
            (freshCatches recurThis catches).fresh ∪
            (freshChild recurThis finalizer).fresh := apart
      simp only [List.mem_append, Finset.mem_union, not_or] at apart
      have bodyCollected := collected_node recurThis implicit known body
        closed.1 bodyNodup (by grind) .empty
      have catchesCollected := collected_catches recurThis implicit known
        catches closed.2.1
        catchesNodup (by grind) (collectClosedOvers body .empty).2
      have finalizerCollected := collected_child recurThis implicit known
        finalizer closed.2.2 finalizerNodup (by grind)
          (collectCatches catches (collectClosedOvers body .empty).2).2
      have inner := (bodyCollected.append catchesCollected (by grind)).append
        finalizerCollected (by grind)
      rw [List.append_assoc] at inner
      exact inner.frame collects
  | .ifForm _ test thenBranch elseBranch =>
      obtain ⟨testNodup, branchesNodup, -⟩ := List.nodup_append.mp nodup
      obtain ⟨thenNodup, elseNodup, -⟩ := List.nodup_append.mp branchesNodup
      have apart : ∀ name ∈ test.binders ++
          (thenBranch.binders ++ elseBranch.binders),
          name ∉ (freshVars recurThis test).ann ∪
            (freshVars recurThis thenBranch).ann ∪
            (freshVars recurThis elseBranch).ann := apart
      simp only [List.mem_append, Finset.mem_union, not_or] at apart
      have testCollected := collected_node recurThis implicit known test
        closed.1 testNodup (by grind) collects
      have thenCollected := collected_node recurThis implicit known thenBranch
        closed.2.1 thenNodup (by grind) (collectClosedOvers test collects).2
      have elseCollected := collected_node recurThis implicit known elseBranch
        closed.2.2 elseNodup (by grind)
        (collectClosedOvers thenBranch (collectClosedOvers test collects).2).2
      have collected := (testCollected.append thenCollected (by grind)).append
        elseCollected (by grind)
      rw [List.append_assoc] at collected
      exact collected
  | .caseForm _ test thens default =>
      obtain ⟨thensNodup, defaultNodup, -⟩ := List.nodup_append.mp nodup
      have apart : ∀ name ∈ thens.binders ++ default.binders,
          name ∉ (freshChild recurThis default).fresh ∪ {test} ∪
            (freshNodes false recurThis thens).fresh := apart
      simp only [List.mem_append, Finset.mem_union, not_or] at apart
      have thensCollected := collected_nodes false recurThis implicit known
        thens closed.1 thensNodup (by grind) (collects.visit test)
      have defaultCollected := collected_child recurThis implicit known default
        closed.2
        defaultNodup (by grind) (collectNodes thens (collects.visit test)).2
      have collected := ((Collected.visit test collects).append thensCollected
        (by simp)).append defaultCollected (by grind)
      rw [List.nil_append] at collected
      refine collected.of_free ?_ ?_
      · show _ ⊆ (freshChild recurThis default).fresh ∪ {test} ∪
          (freshNodes false recurThis thens).fresh
        grind
      · show (freshChild recurThis default).fresh ∪ {test} ∪
          (freshNodes false recurThis thens).fresh ⊆ _
        grind

theorem collected_child (recurThis : Name → Option Name)
    (implicit : Finset Name)
    (known : ∀ loopId this, recurThis loopId = some this → this ∈ implicit)
    (child : Child Name Unit)
    (closed : DeftypesClosedChild recurThis child)
    (nodup : child.binders.Nodup)
    (apart : ∀ name ∈ child.binders, name ∉ (freshChild recurThis child).fresh)
    (collects : Collects Name) :
    Collected implicit (freshChild recurThis child).fresh child.binders collects
      (collectChild child collects).2 := by
  match child with
  | .absent => exact Collected.refl collects
  | .present node =>
      exact collected_node recurThis implicit known node closed nodup apart
        collects

theorem collected_nodes (cumulative : Bool) (recurThis : Name → Option Name)
    (implicit : Finset Name)
    (known : ∀ loopId this, recurThis loopId = some this → this ∈ implicit)
    (nodes : Nodes Name Unit)
    (closed : DeftypesClosedNodes recurThis nodes)
    (nodup : nodes.binders.Nodup)
    (apart : ∀ name ∈ nodes.binders,
      name ∉ (freshNodes cumulative recurThis nodes).fresh)
    (collects : Collects Name) :
    Collected implicit (freshNodes cumulative recurThis nodes).fresh
      nodes.binders collects (collectNodes nodes collects).2 := by
  match nodes with
  | .nil => exact Collected.refl collects
  | .cons head tail =>
      rw [fresh_freshNodes_cons] at apart ⊢
      obtain ⟨headNodup, tailNodup, -⟩ := List.nodup_append.mp nodup
      refine Collected.append
        (collected_node recurThis implicit known head closed.1 headNodup ?_
          collects)
        (collected_nodes cumulative recurThis implicit known tail closed.2
          tailNodup ?_ _) ?_
      · exact fun name member free => apart name (List.mem_append_left _ member)
          (Finset.mem_union_left _ free)
      · exact fun name member free =>
          apart name (List.mem_append_right _ member)
          (Finset.mem_union_right _ free)
      · exact fun name member free => apart name (List.mem_append_left _ member)
          (Finset.mem_union_right _ free)

theorem collected_scope (recurThis : Name → Option Name)
    (implicit : Finset Name)
    (known : ∀ loopId this, recurThis loopId = some this → this ∈ implicit)
    (scope : Scope Name Unit)
    (closed : DeftypesClosedScope recurThis scope)
    (nodup : scope.binders.Nodup)
    (apart : ∀ name ∈ scope.binders, name ∉ (freshScope recurThis scope).ann)
    (collects : Collects Name) :
    Collected implicit (freshScope recurThis scope).ann scope.binders collects
      (collectScope scope collects).2 := by
  match scope with
  | .body node =>
      exact collected_node recurThis implicit known node closed nodup apart
        collects
  | .bind _ name init rest =>
      obtain ⟨nameFresh, innerNodup⟩ := List.nodup_cons.mp nodup
      obtain ⟨initNodup, restNodup, -⟩ := List.nodup_append.mp innerNodup
      have apart : ∀ binder ∈ name :: (init.binders ++ rest.binders),
          binder ∉ (freshScope recurThis rest).ann.erase name ∪
            (freshVars recurThis init).ann :=
        apart
      simp only [List.mem_cons, List.mem_append, Finset.mem_union,
        Finset.mem_erase, not_or, not_and] at apart nameFresh
      have initCollected := collected_node recurThis implicit known init
        closed.1 initNodup (by grind) (collects.register {name})
      have restCollected := collected_scope recurThis implicit known rest
        closed.2 restNodup
        (by grind) (collectClosedOvers init (collects.register {name})).2
      have collected := (initCollected.append restCollected (by grind)).bindName
      have notInInit := (apart name (.inl rfl)).2
      rw [Finset.erase_union_distrib, Finset.erase_eq_of_notMem notInInit,
        Finset.union_comm]
        at collected
      exact collected

theorem collected_letfnScope (recurThis : Name → Option Name)
    (implicit : Finset Name)
    (known : ∀ loopId this, recurThis loopId = some this → this ∈ implicit)
    (scope : Scope Name Unit)
    (closed : DeftypesClosedScope recurThis scope)
    (nodup : scope.binders.Nodup)
    (apart : ∀ name ∈ scope.innerBinders,
      name ∉ (freshScope recurThis scope).ann)
    (namesApart : ∀ name ∈ scope.innerBinders, name ∉ scope.names)
    (collects : Collects Name)
    (registered : ∀ name ∈ scope.names, name ∈ collects.locals) :
    Collected implicit (freshScope recurThis scope).ann scope.binders collects
      (collectScope scope collects).2 := by
  match scope with
  | .body node =>
      exact collected_node recurThis implicit known node closed nodup apart
        collects
  | .bind _ name init rest =>
      obtain ⟨nameFresh, innerNodup⟩ := List.nodup_cons.mp nodup
      obtain ⟨initNodup, restNodup, -⟩ := List.nodup_append.mp innerNodup
      have apart : ∀ binder ∈ init.binders ++ rest.innerBinders,
          binder ∉ (freshScope recurThis rest).ann.erase name ∪
            (freshVars recurThis init).ann :=
        apart
      have namesApart : ∀ binder ∈ init.binders ++ rest.innerBinders,
          binder ∉ name :: rest.names := namesApart
      simp only [List.mem_cons, List.mem_append, Finset.mem_union,
        Finset.mem_erase, not_or, not_and] at apart namesApart
      have isLocal : name ∈ collects.locals :=
        registered name List.mem_cons_self
      have initCollected := collected_node recurThis implicit known init
        closed.1 initNodup (by grind) (collects.register {name})
      have restCollected := collected_letfnScope recurThis implicit known rest
        closed.2 restNodup (by grind) (by grind)
        (collectClosedOvers init (collects.register {name})).2
        (fun binder member => initCollected.locals_subset
          (Finset.mem_union_left _
            (registered binder (List.mem_cons_of_mem _ member))))
      have collected := (initCollected.append restCollected (by grind)).bindName
      refine collected.of_free ?_ ?_
      · rw [Finset.erase_union_distrib, Finset.union_comm]
        exact Finset.union_subset_union_right (Finset.erase_subset _ _)
      · -- The name itself may be free in its value, but it is local.
        intro other member
        have member : other ∈ (freshScope recurThis rest).ann.erase name ∪
          (freshVars recurThis init).ann := member
        simp only [Finset.mem_union, Finset.mem_erase] at member ⊢
        grind

theorem collected_fnMethods (recurThis : Name → Option Name)
    (implicit : Finset Name)
    (known : ∀ loopId this, recurThis loopId = some this → this ∈ implicit)
    (methods : Methods Name Unit)
    (closed : DeftypesClosedMethods recurThis methods)
    (nodup : methods.binders.Nodup)
    (apart : ∀ name ∈ methods.binders,
      name ∉ (freshMethods recurThis methods).fresh)
    (collects : Collects Name) :
    Collected implicit (freshMethods recurThis methods).fresh methods.binders
      collects (collectFnMethods methods collects).2 := by
  match methods with
  | .nil => exact Collected.refl collects
  | .cons _ this params loopId body rest =>
      obtain ⟨-, othersNodup, -⟩ := List.nodup_append.mp nodup
      obtain ⟨-, innerNodup, -⟩ := List.nodup_append.mp othersNodup
      obtain ⟨bodyNodup, restNodup, -⟩ := List.nodup_append.mp innerNodup
      have bodyCollected := collected_node _ (implicit ∪ this.toFinset)
        (mem_implicit_of_method known this loopId) body closed.1 bodyNodup
        (methodBody_apart nodup apart Finset.subset_union_left)
        (Collects.empty.register (methodArgs this params))
      have method := bodyCollected.methodBody.frame collects
      have restCollected := collected_fnMethods recurThis implicit known rest
        closed.2 restNodup
        (fun name member free => apart name (by simp [Methods.binders, member])
          (Finset.mem_union_right _ free))
        (collects.leave (collectClosedOvers body
          (Collects.empty.register (methodArgs this params))).2.closedOvers)
      have collected := method.append restCollected
        (fun name member free => apart name
          (by
            simp only [List.mem_append, Methods.binders] at member ⊢
            grind)
          (Finset.mem_union_right _ free))
      simp only [List.append_assoc] at collected
      exact collected

theorem collected_methods (recurThis : Name → Option Name)
    (implicit : Finset Name)
    (known : ∀ loopId this, recurThis loopId = some this → this ∈ implicit)
    (methods : Methods Name Unit)
    (closed : DeftypesClosedMethods recurThis methods)
    (nodup : methods.binders.Nodup)
    (apart : ∀ name ∈ methods.binders,
      name ∉ (freshMethods recurThis methods).fresh)
    (collects : Collects Name) :
    Collected implicit (freshMethods recurThis methods).fresh methods.binders
      collects (collectMethods methods collects).2 := by
  match methods with
  | .nil => exact Collected.refl collects
  | .cons _ this params loopId body rest =>
      obtain ⟨-, othersNodup, -⟩ := List.nodup_append.mp nodup
      obtain ⟨-, innerNodup, -⟩ := List.nodup_append.mp othersNodup
      obtain ⟨bodyNodup, restNodup, -⟩ := List.nodup_append.mp innerNodup
      have bodyCollected := collected_node _ (implicit ∪ this.toFinset)
        (mem_implicit_of_method known this loopId) body closed.1 bodyNodup
        (methodBody_apart nodup apart Finset.subset_union_left)
        (collects.register (methodArgs this params))
      have restCollected := collected_methods recurThis implicit known rest
        closed.2 restNodup
        (fun name member free => apart name (by simp [Methods.binders, member])
          (Finset.mem_union_right _ free))
        (collectClosedOvers body (collects.register (methodArgs this params))).2
      have collected := bodyCollected.methodBody.append restCollected
        (fun name member free => apart name
          (by
            simp only [List.mem_append, Methods.binders] at member ⊢
            grind)
          (Finset.mem_union_right _ free))
      simp only [List.append_assoc] at collected
      exact collected

theorem collected_catches (recurThis : Name → Option Name)
    (implicit : Finset Name)
    (known : ∀ loopId this, recurThis loopId = some this → this ∈ implicit)
    (catches : Catches Name Unit)
    (closed : DeftypesClosedCatches recurThis catches)
    (nodup : catches.binders.Nodup)
    (apart : ∀ name ∈ catches.binders,
      name ∉ (freshCatches recurThis catches).fresh)
    (collects : Collects Name) :
    Collected implicit (freshCatches recurThis catches).fresh catches.binders
      collects (collectCatches catches collects).2 := by
  match catches with
  | .nil => exact Collected.refl collects
  | .cons _ name body rest =>
      obtain ⟨nameFresh, innerNodup⟩ := List.nodup_cons.mp nodup
      obtain ⟨bodyNodup, restNodup, -⟩ := List.nodup_append.mp innerNodup
      have apart : ∀ binder ∈ name :: (body.binders ++ rest.binders),
          binder ∉ (freshVars recurThis body).ann.erase name ∪
            (freshCatches recurThis rest).fresh := apart
      simp only [List.mem_cons, List.mem_append, Finset.mem_union,
        Finset.mem_erase, not_or, not_and] at apart nameFresh
      have bodyCollected := collected_node recurThis implicit known body
        closed.1 bodyNodup (by grind) (collects.register {name})
      have restCollected := collected_catches recurThis implicit known rest
        closed.2 restNodup
        (by grind) (collectClosedOvers body (collects.register {name})).2
      exact bodyCollected.bindName.append restCollected (by grind)

end

/-! ## Agreement -/

/-- The two annotations of one method of a function. -/
theorem closedOvers_fnMethod
    (params : List Name)
    (body : Node Name Unit)
    (closed : DeftypesClosed (fun _ => none) body)
    (nodup : body.binders.Nodup)
    (apart : ∀ name ∈ body.binders,
      name ∉ (freshVars (fun _ => none) body).ann) :
    (collectClosedOvers body
        (Collects.empty.register (methodArgs none params))).2.closedOvers =
      (freshVars (fun _ => none) body).ann \ methodArgs none params := by
  have collected := collected_node (fun _ => none) (∅ ∪ Option.toFinset none)
    (by simp) body
    closed nodup apart (Collects.empty.register (methodArgs none params))
  exact collected.methodBody.closedOvers_eq

mutual

theorem methodAnns_node (node : Node Name Unit)
    (closed : DeftypesClosed (fun _ => none) node)
    (nodup : node.binders.Nodup)
    (apart : ∀ name ∈ node.binders, name ∉ (freshVars (fun _ => none) node).ann)
    (collects : Collects Name) :
    (collectClosedOvers node collects).1.methodAnns =
      (freshVars (fun _ => none) node).methodAnns.map some := by
  match node with
  | .localVar _ _ => rfl
  | .plain _ op child =>
      exact methodAnns_child child closed nodup apart collects
  | .application _ op children =>
      have noThis : op.recurThis (fun _ => none) = none := by cases op <;> rfl
      simp only [freshVars, noThis, Nodes.consThis] at apart ⊢
      exact methodAnns_nodes op.cumulative children closed nodup apart collects
  | .fn _ self methods =>
      obtain ⟨-, methodsNodup, selfApart⟩ := List.nodup_append.mp nodup
      refine methodAnns_methods methods closed methodsNodup ?_ _
      intro name member free
      by_cases isSelf : name ∈ self.toFinset
      · exact selfApart name (by simpa using isSelf) name member rfl
      · exact apart name (List.mem_append_right _ member)
          (Finset.mem_sdiff.mpr ⟨free, isSelf⟩)
  | .reify _ _ => rfl
  | .deftype _ _ _ => rfl
  | .letForm _ .plainLet scope =>
      exact methodAnns_scope scope closed nodup
        (fun name member =>
          apart name ((scope.mem_binders_iff name).mpr (.inr member))) collects
  | .letForm _ .loopLet scope =>
      exact methodAnns_scope scope closed nodup
        (fun name member =>
          apart name ((scope.mem_binders_iff name).mpr (.inr member))) collects
  | .letForm _ .letfn scope =>
      refine methodAnns_scope scope closed nodup ?_ _
      intro name member free
      refine apart name ((scope.mem_binders_iff name).mpr (.inr member))
        (Finset.mem_sdiff.mpr ⟨free, ?_⟩)
      rw [names_freshScope, List.mem_toFinset]
      exact scope.not_mem_names_of_nodup nodup name member
  | .loop _ scope =>
      exact methodAnns_scope scope closed nodup
        (fun name member =>
          apart name ((scope.mem_binders_iff name).mpr (.inr member))) .empty
  | .tryForm _ body catches finalizer =>
      obtain ⟨bodyNodup, othersNodup, -⟩ := List.nodup_append.mp nodup
      obtain ⟨catchesNodup, finalizerNodup, -⟩ :=
        List.nodup_append.mp othersNodup
      have apart : ∀ name ∈ body.binders ++
          (catches.binders ++ finalizer.binders),
          name ∉ (freshVars (fun _ => none) body).ann ∪
            (freshCatches (fun _ => none) catches).fresh ∪
            (freshChild (fun _ => none) finalizer).fresh := apart
      simp only [List.mem_append, Finset.mem_union, not_or] at apart
      simp only [collectClosedOvers, freshVars, Node.methodAnns,
        List.map_append,
        methodAnns_node body closed.1 bodyNodup (by grind),
        methodAnns_catches catches closed.2.1 catchesNodup (by grind),
        methodAnns_child finalizer closed.2.2 finalizerNodup (by grind)]
  | .ifForm _ test thenBranch elseBranch =>
      obtain ⟨testNodup, branchesNodup, -⟩ := List.nodup_append.mp nodup
      obtain ⟨thenNodup, elseNodup, -⟩ := List.nodup_append.mp branchesNodup
      have apart : ∀ name ∈ test.binders ++
          (thenBranch.binders ++ elseBranch.binders),
          name ∉ (freshVars (fun _ => none) test).ann ∪
            (freshVars (fun _ => none) thenBranch).ann ∪
            (freshVars (fun _ => none) elseBranch).ann := apart
      simp only [List.mem_append, Finset.mem_union, not_or] at apart
      simp only [collectClosedOvers, freshVars, Node.methodAnns,
        List.map_append,
        methodAnns_node test closed.1 testNodup (by grind),
        methodAnns_node thenBranch closed.2.1 thenNodup (by grind),
        methodAnns_node elseBranch closed.2.2 elseNodup (by grind)]
  | .caseForm _ test thens default =>
      obtain ⟨thensNodup, defaultNodup, -⟩ := List.nodup_append.mp nodup
      have apart : ∀ name ∈ thens.binders ++ default.binders,
          name ∉ (freshChild (fun _ => none) default).fresh ∪ {test} ∪
            (freshNodes false (fun _ => none) thens).fresh := apart
      simp only [List.mem_append, Finset.mem_union, not_or] at apart
      simp only [collectClosedOvers, freshVars, Node.methodAnns,
        List.map_append,
        methodAnns_nodes false thens closed.1 thensNodup (by grind),
        methodAnns_child default closed.2 defaultNodup (by grind)]

theorem methodAnns_child (child : Child Name Unit)
    (closed : DeftypesClosedChild (fun _ => none) child)
    (nodup : child.binders.Nodup)
    (apart : ∀ name ∈ child.binders,
      name ∉ (freshChild (fun _ => none) child).fresh)
    (collects : Collects Name) :
    (collectChild child collects).1.methodAnns =
      (freshChild (fun _ => none) child).methodAnns.map some := by
  match child with
  | .absent => rfl
  | .present node => exact methodAnns_node node closed nodup apart collects

theorem methodAnns_nodes (cumulative : Bool) (nodes : Nodes Name Unit)
    (closed : DeftypesClosedNodes (fun _ => none) nodes)
    (nodup : nodes.binders.Nodup)
    (apart : ∀ name ∈ nodes.binders,
      name ∉ (freshNodes cumulative (fun _ => none) nodes).fresh)
    (collects : Collects Name) :
    (collectNodes nodes collects).1.methodAnns =
      (freshNodes cumulative (fun _ => none) nodes).methodAnns.map some := by
  match nodes with
  | .nil => rfl
  | .cons head tail =>
      rw [fresh_freshNodes_cons] at apart
      obtain ⟨headNodup, tailNodup, -⟩ := List.nodup_append.mp nodup
      simp only [Nodes.binders, List.mem_append, Finset.mem_union,
        not_or] at apart
      simp only [collectNodes, freshNodes, Nodes.methodAnns,
        Node.methodAnns_modify,
        List.map_append, methodAnns_node head closed.1 headNodup (by grind),
        methodAnns_nodes cumulative tail closed.2 tailNodup (by grind)]

theorem methodAnns_scope (scope : Scope Name Unit)
    (closed : DeftypesClosedScope (fun _ => none) scope)
    (nodup : scope.binders.Nodup)
    (apart : ∀ name ∈ scope.innerBinders,
      name ∉ (freshScope (fun _ => none) scope).ann)
    (collects : Collects Name) :
    (collectScope scope collects).1.methodAnns =
      (freshScope (fun _ => none) scope).methodAnns.map some := by
  match scope with
  | .body node => exact methodAnns_node node closed nodup apart collects
  | .bind _ name init rest =>
      obtain ⟨nameFresh, innerNodup⟩ := List.nodup_cons.mp nodup
      obtain ⟨initNodup, restNodup, -⟩ := List.nodup_append.mp innerNodup
      have apart : ∀ binder ∈ init.binders ++ rest.innerBinders,
          binder ∉ (freshScope (fun _ => none) rest).ann.erase name ∪
            (freshVars (fun _ => none) init).ann := apart
      have innerOfRest := fun binder => (rest.mem_binders_iff binder).mpr
      simp only [List.mem_append, Finset.mem_union, Finset.mem_erase, not_or,
        not_and]
        at apart nameFresh
      simp only [collectScope, freshScope, Scope.methodAnns, List.map_append,
        methodAnns_node init closed.1 initNodup (by grind),
        methodAnns_scope rest closed.2 restNodup (by grind)]

theorem methodAnns_methods (methods : Methods Name Unit)
    (closed : DeftypesClosedMethods (fun _ => none) methods)
    (nodup : methods.binders.Nodup)
    (apart : ∀ name ∈ methods.binders,
      name ∉ (freshMethods (fun _ => none) methods).fresh)
    (collects : Collects Name) :
    (collectFnMethods methods collects).1.methodAnns =
      (freshMethods (fun _ => none) methods).methodAnns.map some := by
  match methods with
  | .nil => rfl
  | .cons _ none params loopId body rest =>
      obtain ⟨-, othersNodup, -⟩ := List.nodup_append.mp nodup
      obtain ⟨-, innerNodup, -⟩ := List.nodup_append.mp othersNodup
      obtain ⟨bodyNodup, restNodup, -⟩ := List.nodup_append.mp innerNodup
      have closedBody : DeftypesClosed (fun _ => none) body := closed.1
      have bodyApart : ∀ name ∈ body.binders,
          name ∉ (freshVars (fun _ => none) body).ann :=
        methodBody_apart nodup apart Finset.subset_union_left
      have restApart : ∀ name ∈ rest.binders,
          name ∉ (freshMethods (fun _ => none) rest).fresh :=
            fun name member free =>
        apart name (by simp [Methods.binders, member])
          (Finset.mem_union_right _ free)
      simp only [collectFnMethods, freshMethods, Methods.methodAnns,
        Option.isSome_none, Bool.false_eq_true, if_false, List.map_cons,
        List.map_append,
        closedOvers_fnMethod params body closedBody bodyNodup bodyApart,
        methodAnns_node body closedBody bodyNodup bodyApart,
        methodAnns_methods rest closed.2 restNodup restApart]
  | .cons _ (some this) params loopId body rest =>
      obtain ⟨-, othersNodup, -⟩ := List.nodup_append.mp nodup
      obtain ⟨-, innerNodup, -⟩ := List.nodup_append.mp othersNodup
      obtain ⟨-, restNodup, -⟩ := List.nodup_append.mp innerNodup
      refine methodAnns_methods rest closed.2 restNodup ?_ _
      intro name member free
      exact apart name (by simp [Methods.binders, member])
        (Finset.mem_union_right _ free)

theorem methodAnns_catches (catches : Catches Name Unit)
    (closed : DeftypesClosedCatches (fun _ => none) catches)
    (nodup : catches.binders.Nodup)
    (apart : ∀ name ∈ catches.binders,
      name ∉ (freshCatches (fun _ => none) catches).fresh)
    (collects : Collects Name) :
    (collectCatches catches collects).1.methodAnns =
      (freshCatches (fun _ => none) catches).methodAnns.map some := by
  match catches with
  | .nil => rfl
  | .cons _ name body rest =>
      obtain ⟨nameFresh, innerNodup⟩ := List.nodup_cons.mp nodup
      obtain ⟨bodyNodup, restNodup, -⟩ := List.nodup_append.mp innerNodup
      have apart : ∀ binder ∈ name :: (body.binders ++ rest.binders),
          binder ∉ (freshVars (fun _ => none) body).ann.erase name ∪
            (freshCatches (fun _ => none) rest).fresh := apart
      simp only [List.mem_cons, List.mem_append, Finset.mem_union,
        Finset.mem_erase, not_or, not_and] at apart nameFresh
      simp only [collectCatches, freshCatches, Catches.methodAnns,
        List.map_append,
        methodAnns_node body closed.1 bodyNodup (by grind),
        methodAnns_catches rest closed.2 restNodup (by grind)]

end

/-- The closed-overs of every method of a function are its fresh variables.
No name bound in the form is free in the whole form, which holds of closed
forms. -/
theorem closedOvers_eq_fresh
    (node : Node Name Unit)
    (closed : DeftypesClosed (fun _ => none) node)
    (nodup : node.binders.Nodup)
    (apart : ∀ name ∈ node.binders,
      name ∉ (freshVars (fun _ => none) node).ann) :
    (collectClosedOvers node .empty).1.methodAnns =
      (freshVars (fun _ => none) node).methodAnns.map some :=
  methodAnns_node node closed nodup apart .empty

/-- The form `(let [a 1] (fn f [x] (f a (fn [y] (f x y)))))`. -/
theorem closedOvers_eq_fresh_named :
    (collectClosedOvers
      (.letForm () .plainLet (.bind () 0 (.plain () .const .absent) (.body
        (.fn () (some 1) (.cons () none [2] 8
          (.application () .invoke
            (.cons (.localVar () 1) (.cons (.localVar () 0) (.cons
            (.fn () none (.cons () none [3] 9
              (.application () .invoke
                (.cons (.localVar () 1) (.cons (.localVar () 2)
                (.cons (.localVar () 3) .nil)))) .nil)) .nil)))) .nil)))) :
          Node Nat Unit) .empty).1.methodAnns = [some {0, 1}, some {1, 2}] :=
  (closedOvers_eq_fresh _
    (by simp [DeftypesClosed, DeftypesClosedNodes, DeftypesClosedChild,
      DeftypesClosedScope, DeftypesClosedMethods])
    (by decide) (by decide)).trans (by decide)

end Frontend
end ClojureRt
