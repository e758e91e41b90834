import ClojureRt.Frontend.FreshVars

/-!
# Trees whose annotations are right

What the later passes need to know about a tree that comes from `-fresh-vars`:
the annotation of a node is made from those of its children, no name is bound
that is already in scope, and loops have been rewritten.
-/

namespace ClojureRt
namespace Frontend

variable {Name : Type} [DecidableEq Name]

mutual

/-- The annotations inside a node agree, and its binders shadow no name of the
scope.  The free variables of the node itself are given apart from its
annotation, which has more of them on a statement of a `:do`. -/
def Node.Scoped : Node Name (Finset Name) → (free scope : Finset Name) → Prop
  | .localVar _ name, free, _ => free = {name}
  | .plain _ _ child, free, scope => free = child.fresh ∧ child.Scoped scope
  | .application _ _ children, free, scope =>
      free = children.fresh ∧ children.Scoped scope
  | .fn _ self methods, free, _ =>
      free = withoutSelf self methods.fresh ∧ methods.Scoped ∅
  | .reify _ methods, free, _ => free = methods.fresh ∧ methods.Scoped ∅
  | .deftype _ fields methods, free, _ =>
      free = ∅ ∧ methods.Scoped fields.toFinset
  | .letForm _ .letfn bindings, free, scope =>
      free = bindings.ann \ bindings.names.toFinset ∧
        (∀ name ∈ bindings.names, name ∉ scope) ∧
        bindings.LetfnScoped (scope ∪ bindings.names.toFinset)
  | .letForm _ .loopLet bindings, free, scope =>
      free = bindings.ann ∧ bindings.IsLoopLet ∧ bindings.Scoped scope
  | .letForm _ .plainLet bindings, free, scope =>
      free = bindings.ann ∧ bindings.Scoped scope
  | .loop _ bindings, free, scope => free = bindings.ann ∧ bindings.Scoped scope
  | .tryForm _ body catches finalizer, free, scope =>
      free = body.ann ∪ catches.fresh ∪ finalizer.fresh ∧
        body.Scoped body.ann scope ∧ catches.Scoped scope ∧
          finalizer.Scoped scope
  | .ifForm _ test thenBranch elseBranch, free, scope =>
      free = test.ann ∪ thenBranch.ann ∪ elseBranch.ann ∧
        test.Scoped test.ann scope ∧ thenBranch.Scoped thenBranch.ann scope ∧
        elseBranch.Scoped elseBranch.ann scope
  | .caseForm _ test thens default, free, scope =>
      free = default.fresh ∪ {test} ∪ thens.fresh ∧
        thens.BranchesScoped scope ∧ default.Scoped scope

/-- The nodes of an application: what an annotation has beyond the free
variables of its node belongs to the nodes after it. -/
def Nodes.Scoped : Nodes Name (Finset Name) → (scope : Finset Name) → Prop
  | .nil, _ => True
  | .cons head tail, scope =>
      (∃ free, head.Scoped free scope ∧ free ⊆ head.ann ∧
        head.ann ⊆ free ∪ tail.fresh) ∧
        tail.Scoped scope

/-- The branches of a `:case`. -/
def Nodes.BranchesScoped : Nodes Name (Finset Name) →
    (scope : Finset Name) → Prop
  | .nil, _ => True
  | .cons head tail, scope =>
      head.Scoped head.ann scope ∧ tail.BranchesScoped scope

/-- An optional child. -/
def Child.Scoped : Child Name (Finset Name) → (scope : Finset Name) → Prop
  | .absent, _ => True
  | .present node, scope => node.Scoped node.ann scope

/-- The bindings of a `:let` or `:loop`: a name is in scope after its value. -/
def Scope.Scoped : Scope Name (Finset Name) → (scope : Finset Name) → Prop
  | .body node, scope => node.Scoped node.ann scope
  | .bind fresh name init rest, scope =>
      fresh = rest.ann.erase name ∪ init.ann ∧ name ∉ scope ∧
        init.Scoped init.ann scope ∧
        rest.Scoped (insert name scope)

/-- The bindings of a `:letfn`: all names are in scope from the start. -/
def Scope.LetfnScoped : Scope Name (Finset Name) → (scope : Finset Name) → Prop
  | .body node, scope => node.Scoped node.ann scope
  | .bind fresh name init rest, scope =>
      fresh = rest.ann.erase name ∪ init.ann ∧ name ∉ rest.names ∧
        init.Scoped init.ann scope ∧ rest.LetfnScoped scope

/-- The methods of a function or of a type. -/
def Methods.Scoped : Methods Name (Finset Name) →
    (recordFields : Finset Name) → Prop
  | .nil, _ => True
  | .cons fresh this params _ body rest, recordFields =>
      fresh = (body.ann \ methodArgs this params) \ recordFields ∧
        body.Scoped body.ann body.ann ∧ rest.Scoped recordFields

/-- The catch clauses of a `:try`. -/
def Catches.Scoped : Catches Name (Finset Name) → (scope : Finset Name) → Prop
  | .nil, _ => True
  | .cons fresh name body rest, scope =>
      fresh = body.ann.erase name ∧ name ∉ scope ∧
        body.Scoped body.ann (insert name scope) ∧ rest.Scoped scope

end

/-- The annotation of the node itself does not matter. -/
theorem Node.scoped_modify (change : Finset Name → Finset Name)
    (node : Node Name (Finset Name)) (free scope : Finset Name) :
    (node.modify change).Scoped free scope ↔ node.Scoped free scope := by
  cases node with
  | letForm ann kind bindings => cases kind <;> exact Iff.rfl
  | _ => exact Iff.rfl

theorem Methods.modify_sdiff_empty (methods : Methods Name (Finset Name)) :
    methods.modify (· \ ∅) = methods := by
  match methods with
  | .nil => rfl
  | .cons fresh this params loopId body rest =>
      rw [Methods.modify, Methods.modify_sdiff_empty rest, Finset.sdiff_empty]

/-- What the body of a method binds is not free in it. -/
theorem methodBody_unshadowed
    {this : Option Name}
    {params : List Name}
    {body : Node Name Unit}
    {rest : List Name}
    {free scope : Finset Name}
    (nodup : (this.toList ++ (params ++ (body.binders ++ rest))).Nodup)
    (unshadowed : ∀ name ∈ this.toList ++ (params ++ (body.binders ++ rest)),
      name ∉ scope)
    (within : free \ methodArgs this params ⊆ scope) :
    ∀ name ∈ body.binders, name ∉ free := by
  intro name member isFree
  obtain ⟨-, othersNodup, thisApart⟩ := List.nodup_append.mp nodup
  obtain ⟨-, -, paramsApart⟩ := List.nodup_append.mp othersNodup
  by_cases isArg : name ∈ methodArgs this params
  · rcases Finset.mem_union.mp isArg with isThis | isParam
    · exact thisApart name (by simpa using isThis) name (by simp [member]) rfl
    · exact paramsApart name (List.mem_toFinset.mp isParam) name
        (by simp [member]) rfl
  · exact unshadowed name (by simp [member])
      (within (Finset.mem_sdiff.mpr ⟨isFree, isArg⟩))

/-- Binders under a new name shadow neither it nor the scope. -/
theorem unshadowed_insert
    {name : Name}
    {binders : List Name}
    {scope : Finset Name}
    (nameFresh : name ∉ binders)
    (unshadowed : ∀ binder ∈ binders, binder ∉ scope) :
    ∀ binder ∈ binders, binder ∉ insert name scope := by
  intro binder member inScope
  rcases Finset.mem_insert.mp inScope with rfl | outer
  · exact nameFresh member
  · exact unshadowed binder member outer

mutual

/-- `-fresh-vars` annotates a tree with distinct binders rightly. -/
theorem scoped_freshVars (alone : Bool) (recurThis : Name → Option Name)
    (scope : Finset Name)
    (node : Node Name Unit)
    (closed : DeftypesClosed recurThis node)
    (rewritten : node.LoopsRewritten alone)
    (nodup : node.binders.Nodup)
    (unshadowed : ∀ name ∈ node.binders, name ∉ scope)
    (within : (freshVars recurThis node).ann ⊆ scope) :
    (freshVars recurThis node).Scoped (freshVars recurThis node).ann scope := by
  match node with
  | .localVar _ _ => exact rfl
  | .plain _ op child =>
      exact ⟨rfl,
        scoped_freshChild alone recurThis scope child closed rewritten nodup
          unshadowed within⟩
  | .application _ op children =>
      refine ⟨rfl, ?_⟩
      cases this : op.recurThis recurThis with
      | none =>
          simp only [freshVars, this, Nodes.consThis] at within
          exact scoped_freshNodes op.cumulative alone recurThis scope children
            closed rewritten nodup unshadowed within
      | some name =>
          simp only [freshVars, this, Nodes.consThis] at within
          obtain ⟨-, childrenWithin⟩ := Finset.union_subset_iff.mp within
          exact ⟨⟨{name}, rfl, subset_rfl, Finset.subset_union_left⟩,
            scoped_freshNodes op.cumulative alone recurThis scope children
              closed rewritten nodup unshadowed childrenWithin⟩
  | .fn _ self methods =>
      obtain ⟨-, methodsNodup, apart⟩ := List.nodup_append.mp nodup
      have freshWithin : (freshMethods recurThis methods).fresh ⊆
          self.toFinset ∪ scope :=
        sdiff_le_iff.mp within
      have methodsScoped := scoped_freshMethods alone recurThis
        (self.toFinset ∪ scope) ∅ methods closed rewritten methodsNodup (by
          intro name member inScope
          rcases Finset.mem_union.mp inScope with isSelf | outer
          · exact apart name (by simpa using isSelf) name member rfl
          · exact unshadowed name (List.mem_append_right _ member) outer)
        freshWithin
      rw [Methods.modify_sdiff_empty] at methodsScoped
      exact ⟨rfl, methodsScoped⟩
  | .reify _ methods =>
      have methodsScoped := scoped_freshMethods alone recurThis scope ∅ methods
        closed rewritten nodup unshadowed within
      rw [Methods.modify_sdiff_empty] at methodsScoped
      exact ⟨rfl, methodsScoped⟩
  | .deftype _ fields methods =>
      obtain ⟨-, methodsNodup, apart⟩ := List.nodup_append.mp nodup
      refine ⟨rfl,
        scoped_freshMethods alone recurThis fields.toFinset
          fields.toFinset methods
        closed.2 rewritten methodsNodup ?_ closed.1⟩
      intro name member isField
      exact apart name (List.mem_toFinset.mp isField) name member rfl
  | .letForm _ .plainLet bindings =>
      exact ⟨rfl,
        scoped_freshScope alone recurThis scope bindings closed rewritten nodup
          unshadowed within⟩
  | .letForm _ .loopLet
      (.bind _ name (.loop _ bindings) (.body (.localVar _ used))) =>
      obtain ⟨nameFresh, innerNodup⟩ := List.nodup_cons.mp nodup
      obtain ⟨bindingsNodup, -, -⟩ := List.nodup_append.mp innerNodup
      obtain ⟨-, bindingsWithin⟩ := Finset.union_subset_iff.mp within
      have bindingsScoped := scoped_freshScope alone recurThis scope bindings
        closed.1 rewritten.2 bindingsNodup
        (fun binder member => unshadowed binder
          (List.mem_cons_of_mem _ (List.mem_append_left _ member)))
        bindingsWithin
      exact ⟨rfl, rewritten.1, rfl, unshadowed name List.mem_cons_self,
        ⟨rfl, bindingsScoped⟩, rfl⟩
  | .letForm _ .letfn bindings =>
      have names := names_freshScope recurThis bindings
      have apart := bindings.not_mem_names_of_nodup nodup
      refine ⟨rfl, ?_,
        letfnScoped_freshScope alone recurThis _ bindings closed rewritten nodup
          ?_ ?_ ?_⟩
      · rw [names]
        exact fun name member => unshadowed name
          ((bindings.mem_binders_iff name).mpr (.inl member))
      · intro name member inScope
        rcases Finset.mem_union.mp inScope with outer | isName
        · exact unshadowed name
            ((bindings.mem_binders_iff name).mpr (.inr member)) outer
        · rw [names, List.mem_toFinset] at isName
          exact apart name member isName
      · intro name member
        rw [names]
        exact Finset.mem_union_right _ (List.mem_toFinset.mpr member)
      · rw [Finset.union_comm]
        exact sdiff_le_iff.mp within
  | .loop _ bindings =>
      exact ⟨rfl,
        scoped_freshScope alone recurThis scope bindings closed
          rewritten.2 nodup
        unshadowed within⟩
  | .tryForm _ body catches finalizer =>
      obtain ⟨bodyNodup, othersNodup, -⟩ := List.nodup_append.mp nodup
      obtain ⟨catchesNodup, finalizerNodup, -⟩ :=
        List.nodup_append.mp othersNodup
      obtain ⟨bodyCatchesWithin, finalizerWithin⟩ :=
        Finset.union_subset_iff.mp within
      obtain ⟨bodyWithin, catchesWithin⟩ :=
        Finset.union_subset_iff.mp bodyCatchesWithin
      exact ⟨rfl,
        scoped_freshVars alone recurThis scope body closed.1 rewritten.1
          bodyNodup
          (fun name member => unshadowed name (List.mem_append_left _ member))
          bodyWithin,
        scoped_freshCatches alone recurThis scope catches closed.2.1
          rewritten.2.1 catchesNodup (fun name member => unshadowed name
            (List.mem_append_right _ (List.mem_append_left _ member)))
              catchesWithin,
        scoped_freshChild alone recurThis scope finalizer closed.2.2
          rewritten.2.2 finalizerNodup (fun name member => unshadowed name
            (List.mem_append_right _ (List.mem_append_right _ member)))
              finalizerWithin⟩
  | .ifForm _ test thenBranch elseBranch =>
      obtain ⟨testNodup, branchesNodup, -⟩ := List.nodup_append.mp nodup
      obtain ⟨thenNodup, elseNodup, -⟩ := List.nodup_append.mp branchesNodup
      obtain ⟨testThenWithin, elseWithin⟩ := Finset.union_subset_iff.mp within
      obtain ⟨testWithin, thenWithin⟩ :=
        Finset.union_subset_iff.mp testThenWithin
      exact ⟨rfl,
        scoped_freshVars alone recurThis scope test closed.1 rewritten.1
          testNodup
          (fun name member => unshadowed name (List.mem_append_left _ member))
          testWithin,
        scoped_freshVars alone recurThis scope thenBranch closed.2.1
          rewritten.2.1 thenNodup (fun name member => unshadowed name
            (List.mem_append_right _ (List.mem_append_left _ member)))
              thenWithin,
        scoped_freshVars alone recurThis scope elseBranch closed.2.2
          rewritten.2.2 elseNodup (fun name member => unshadowed name
            (List.mem_append_right _ (List.mem_append_right _ member)))
              elseWithin⟩
  | .caseForm _ test thens default =>
      obtain ⟨thensNodup, defaultNodup, -⟩ := List.nodup_append.mp nodup
      obtain ⟨defaultTestWithin, thensWithin⟩ :=
        Finset.union_subset_iff.mp within
      obtain ⟨defaultWithin, -⟩ := Finset.union_subset_iff.mp defaultTestWithin
      exact ⟨rfl,
        branchesScoped_freshNodes alone recurThis scope thens closed.1
          rewritten.1 thensNodup
          (fun name member => unshadowed name (List.mem_append_left _ member))
          thensWithin,
        scoped_freshChild alone recurThis scope default closed.2 rewritten.2
          defaultNodup
          (fun name member => unshadowed name (List.mem_append_right _ member))
          defaultWithin⟩

theorem scoped_freshChild (alone : Bool) (recurThis : Name → Option Name)
    (scope : Finset Name)
    (child : Child Name Unit)
    (closed : DeftypesClosedChild recurThis child)
    (rewritten : child.LoopsRewritten alone)
    (nodup : child.binders.Nodup)
    (unshadowed : ∀ name ∈ child.binders, name ∉ scope)
    (within : (freshChild recurThis child).fresh ⊆ scope) :
    (freshChild recurThis child).Scoped scope := by
  match child with
  | .absent => trivial
  | .present node =>
      exact scoped_freshVars alone recurThis scope node closed rewritten nodup
        unshadowed within

theorem branchesScoped_freshNodes (alone : Bool)
    (recurThis : Name → Option Name) (scope : Finset Name)
    (nodes : Nodes Name Unit)
    (closed : DeftypesClosedNodes recurThis nodes)
    (rewritten : nodes.LoopsRewritten alone)
    (nodup : nodes.binders.Nodup)
    (unshadowed : ∀ name ∈ nodes.binders, name ∉ scope)
    (within : (freshNodes false recurThis nodes).fresh ⊆ scope) :
    (freshNodes false recurThis nodes).BranchesScoped scope := by
  match nodes with
  | .nil => trivial
  | .cons head tail =>
      rw [freshNodes_false_cons] at within ⊢
      obtain ⟨headNodup, tailNodup, -⟩ := List.nodup_append.mp nodup
      obtain ⟨headWithin, tailWithin⟩ := Finset.union_subset_iff.mp within
      exact ⟨scoped_freshVars alone recurThis scope head closed.1 rewritten.1
          headNodup
          (fun name member => unshadowed name (List.mem_append_left _ member))
          headWithin,
        branchesScoped_freshNodes alone recurThis scope tail closed.2
          rewritten.2 tailNodup
          (fun name member => unshadowed name (List.mem_append_right _ member))
          tailWithin⟩

theorem scoped_freshNodes (cumulative alone : Bool)
    (recurThis : Name → Option Name)
    (scope : Finset Name)
    (nodes : Nodes Name Unit)
    (closed : DeftypesClosedNodes recurThis nodes)
    (rewritten : nodes.LoopsRewritten alone)
    (nodup : nodes.binders.Nodup)
    (unshadowed : ∀ name ∈ nodes.binders, name ∉ scope)
    (within : (freshNodes cumulative recurThis nodes).fresh ⊆ scope) :
    (freshNodes cumulative recurThis nodes).Scoped scope := by
  match nodes with
  | .nil => trivial
  | .cons head tail =>
      rw [fresh_freshNodes_cons] at within
      obtain ⟨headNodup, tailNodup, -⟩ := List.nodup_append.mp nodup
      obtain ⟨headWithin, tailWithin⟩ := Finset.union_subset_iff.mp within
      have headScoped := scoped_freshVars alone recurThis scope head closed.1
        rewritten.1 headNodup
        (fun name member => unshadowed name (List.mem_append_left _ member))
        headWithin
      have tailScoped := scoped_freshNodes cumulative alone recurThis scope tail
        closed.2 rewritten.2 tailNodup
        (fun name member => unshadowed name (List.mem_append_right _ member))
        tailWithin
      refine ⟨⟨_, (Node.scoped_modify _ _ _ _).mpr headScoped, ?_, ?_⟩,
        tailScoped⟩
      · rw [Node.ann_modify]
        cases cumulative with
        | false => exact subset_rfl
        | true => exact Finset.subset_union_right
      · rw [Node.ann_modify]
        cases cumulative with
        | false => exact Finset.subset_union_left
        | true => exact (Finset.union_comm _ _).subset

theorem scoped_freshScope (alone : Bool) (recurThis : Name → Option Name)
    (scope : Finset Name)
    (bindings : Scope Name Unit)
    (closed : DeftypesClosedScope recurThis bindings)
    (rewritten : bindings.LoopsRewritten alone)
    (nodup : bindings.binders.Nodup)
    (unshadowed : ∀ name ∈ bindings.binders, name ∉ scope)
    (within : (freshScope recurThis bindings).ann ⊆ scope) :
    (freshScope recurThis bindings).Scoped scope := by
  match bindings with
  | .body node =>
      exact scoped_freshVars alone recurThis scope node closed rewritten nodup
        unshadowed within
  | .bind _ name init rest =>
      obtain ⟨nameFresh, innerNodup⟩ := List.nodup_cons.mp nodup
      obtain ⟨initNodup, restNodup, -⟩ := List.nodup_append.mp innerNodup
      obtain ⟨restWithin, initWithin⟩ := Finset.union_subset_iff.mp within
      refine ⟨rfl, unshadowed name List.mem_cons_self, ?_, ?_⟩
      · exact scoped_freshVars alone recurThis scope init closed.1 rewritten.1
          initNodup (fun binder member => unshadowed binder
            (List.mem_cons_of_mem _ (List.mem_append_left _ member))) initWithin
      · exact scoped_freshScope alone recurThis (insert name scope) rest
          closed.2 rewritten.2 restNodup (unshadowed_insert
            (fun member => nameFresh (List.mem_append_right _ member))
            fun binder member => unshadowed binder
              (List.mem_cons_of_mem _ (List.mem_append_right _ member)))
          (Finset.subset_insert_iff.mpr restWithin)

theorem letfnScoped_freshScope (alone : Bool) (recurThis : Name → Option Name)
    (scope : Finset Name)
    (bindings : Scope Name Unit)
    (closed : DeftypesClosedScope recurThis bindings)
    (rewritten : bindings.LoopsRewritten alone)
    (nodup : bindings.binders.Nodup)
    (unshadowed : ∀ name ∈ bindings.innerBinders, name ∉ scope)
    (namesWithin : ∀ name ∈ bindings.names, name ∈ scope)
    (within : (freshScope recurThis bindings).ann ⊆ scope) :
    (freshScope recurThis bindings).LetfnScoped scope := by
  match bindings with
  | .body node =>
      exact scoped_freshVars alone recurThis scope node closed rewritten nodup
        unshadowed within
  | .bind _ name init rest =>
      obtain ⟨nameFresh, innerNodup⟩ := List.nodup_cons.mp nodup
      obtain ⟨initNodup, restNodup, -⟩ := List.nodup_append.mp innerNodup
      obtain ⟨restWithin, initWithin⟩ := Finset.union_subset_iff.mp within
      have nameWithin := namesWithin name List.mem_cons_self
      refine ⟨rfl, ?_, ?_, ?_⟩
      · rw [names_freshScope]
        intro isName
        exact nameFresh
          (List.mem_append_right _
          ((rest.mem_binders_iff name).mpr (.inl isName)))
      · exact scoped_freshVars alone recurThis scope init closed.1 rewritten.1
          initNodup (fun binder member =>
            unshadowed binder (List.mem_append_left _ member)) initWithin
      · exact letfnScoped_freshScope alone recurThis scope rest closed.2
          rewritten.2 restNodup (fun binder member =>
            unshadowed binder (List.mem_append_right _ member))
          (fun binder member =>
            namesWithin binder (List.mem_cons_of_mem _ member))
          ((Finset.subset_insert_iff.mpr restWithin).trans
            (Finset.insert_subset nameWithin subset_rfl))

theorem scoped_freshMethods (alone : Bool) (recurThis : Name → Option Name)
    (scope fields : Finset Name)
    (methods : Methods Name Unit)
    (closed : DeftypesClosedMethods recurThis methods)
    (rewritten : methods.LoopsRewritten alone)
    (nodup : methods.binders.Nodup)
    (unshadowed : ∀ name ∈ methods.binders, name ∉ scope)
    (within : (freshMethods recurThis methods).fresh ⊆ scope) :
    ((freshMethods recurThis methods).modify (· \ fields)).Scoped fields := by
  match methods with
  | .nil => trivial
  | .cons _ this params loopId body rest =>
      obtain ⟨-, othersNodup, -⟩ := List.nodup_append.mp nodup
      obtain ⟨-, innerNodup, -⟩ := List.nodup_append.mp othersNodup
      obtain ⟨bodyNodup, restNodup, -⟩ := List.nodup_append.mp innerNodup
      obtain ⟨freshWithin, restWithin⟩ := Finset.union_subset_iff.mp within
      exact ⟨rfl,
        scoped_freshVars alone _ _ body closed.1 rewritten.1 bodyNodup
          (methodBody_unshadowed nodup unshadowed freshWithin) subset_rfl,
        scoped_freshMethods alone recurThis scope fields rest closed.2
          rewritten.2 restNodup (fun name member =>
            unshadowed name (by simp [Methods.binders, member])) restWithin⟩

theorem scoped_freshCatches (alone : Bool) (recurThis : Name → Option Name)
    (scope : Finset Name)
    (catches : Catches Name Unit)
    (closed : DeftypesClosedCatches recurThis catches)
    (rewritten : catches.LoopsRewritten alone)
    (nodup : catches.binders.Nodup)
    (unshadowed : ∀ name ∈ catches.binders, name ∉ scope)
    (within : (freshCatches recurThis catches).fresh ⊆ scope) :
    (freshCatches recurThis catches).Scoped scope := by
  match catches with
  | .nil => trivial
  | .cons _ name body rest =>
      obtain ⟨nameFresh, innerNodup⟩ := List.nodup_cons.mp nodup
      obtain ⟨bodyNodup, restNodup, -⟩ := List.nodup_append.mp innerNodup
      obtain ⟨bodyWithin, restWithin⟩ := Finset.union_subset_iff.mp within
      refine ⟨rfl, unshadowed name List.mem_cons_self, ?_, ?_⟩
      · exact scoped_freshVars alone recurThis (insert name scope) body closed.1
          rewritten.1 bodyNodup (unshadowed_insert
            (fun member => nameFresh (List.mem_append_left _ member))
            fun binder member => unshadowed binder
              (List.mem_cons_of_mem _ (List.mem_append_left _ member)))
          (Finset.subset_insert_iff.mpr bodyWithin)
      · exact scoped_freshCatches alone recurThis scope rest closed.2
          rewritten.2 restNodup (fun binder member => unshadowed binder
            (List.mem_cons_of_mem _ (List.mem_append_right _ member)))
              restWithin

end

end Frontend
end ClojureRt
