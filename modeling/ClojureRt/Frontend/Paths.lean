import ClojureRt.Frontend.Linearity

/-!
# Normal and exceptional paths

On a normal path a node takes one token of each variable it owns, except that a
loop leaks tokens when it recurs: a binding that only the first entry of the
loop takes is bound again.  On an exceptional path a method releases everything,
except for what its nodes do not unwind: captured variables, and whatever was
bound outside of the body of a `:try`.
-/

namespace ClojureRt
namespace Frontend

open TokenTrace

variable {Name : Type} [DecidableEq Name]

/-! ## Normal paths -/

/-- A path on which no exception is raised. -/
def Normal (out : Outcome Name) (trace : List (Event Name)) : Prop :=
  (∀ inside unwind, out ≠ .raised inside unwind) ∧
    ∀ condition, Event.expect condition ∉ trace

/-- A path takes one token of each variable it owns, never takes one that is not
there, and leaves the tokens of all other variables as they were. -/
def Linear (owned : Finset Name) (trace : List (Event Name)) : Prop :=
  (∀ name, gain trace name = amounts (-1) owned name) ∧
    ∀ front, front <+: trace → ∀ name, amounts (-1) owned name ≤ gain front name

/-- The path never recurs to a loop with a binding, other than its last one,
that the body of the loop does not mention. -/
def RecursCleanly (trace : List (Event Name)) : Prop :=
  ∀ amount, Event.leak amount ∈ trace → ∀ name, amount name = 0

/-- A normal path with the effect of owning some variables is linear exactly
when it leaks nothing. -/
theorem Effect.linear_iff
    {scope bound owned unwindOwned : Finset Name}
    {tokens : Name → Int}
    {out : Outcome Name}
    {trace : List (Event Name)}
    (effect : Effect scope bound owned unwindOwned tokens out trace)
    (normal : Normal out trace) :
    Linear owned trace ↔ RecursCleanly trace := by
  have balance := effect.audited_eq normal.1
  rw [RecursCleanly, ← leaked_eq_zero_iff]
  constructor
  · intro linear name
    have total := gain_eq trace name
    rw [linear.1 name, balance name] at total
    omega
  · intro noLeak
    refine ⟨fun name => ?_, fun front isPrefix name => ?_⟩
    · rw [gain_eq, balance, noLeak]
      simp
    · have bounded := effect.floor front isPrefix name
      rw [gain_eq]
      omega

/-- Tokens with which a node can be entered. -/
theorem ready_amounts
    {scope owned unwindOwned : Finset Name}
    (within : owned ∪ unwindOwned ⊆ scope) :
    Ready scope owned unwindOwned (amounts 1 (owned ∪ unwindOwned)) :=
  ⟨fun _ member => amounts_of_mem member,
    fun _ notInScope => amounts_of_not_mem fun member =>
      notInScope (within member), within⟩

/-! ## Methods -/

/-- What is run of each method: its arguments and its body. -/
def Methods.entries {Ann : Type} :
    Methods Name Ann → List (Option Name × List Name × Node Name Ann)
  | .nil => []
  | .cons _ this params _ body rest => (this, params, body) :: rest.entries

/-- One execution of the body of a method, which starts with its arguments
only. -/
theorem Has.methodBody
    {captured args : Finset Name}
    {amount : Name → Int}
    {run : Run Name}
    {free : Finset Name}
    (capturedEqual : captured = free \ args)
    (has : Has free args (captured ∪ (args ∩ free)) (args ∩ free)
      (.prepend (.change amount) run)) :
    Has args args args args (.prepend (.change fun name =>
      amount name + amounts (-1) (args \ (args ∩ free)) name +
        amounts 1 captured name) run) := by
  intro tokens ready out trace ran sound
  obtain ⟨rest, ran, rfl⟩ := ran
  let unused := args \ (args ∩ free)
  -- What the head of the body drops and duplicates.
  let head : Name → Int :=
    fun name => amounts (-1) unused name + amounts 1 captured name
  have started : ∀ name, tokens name = amounts 1 args name := by
    intro name
    by_cases isArg : name ∈ args
    · rw [ready.held name (by grind), amounts_of_mem isArg]
    · rw [ready.unbound name isArg, amounts_of_not_mem isArg]
  have entered : ∀ name, tokens name + head name = amounts 1 free name := by
    intro name
    rw [started]
    simp only [head, unused, capturedEqual, amounts, Finset.mem_sdiff,
      Finset.mem_inter]
    grind
  have taken : ∀ name,
    amounts (-1) (captured ∪ (args ∩ free)) name + head name =
      amounts (-1) args name := by
    intro name
    simp only [head, unused, capturedEqual, amounts, Finset.mem_sdiff,
      Finset.mem_inter, Finset.mem_union]
    grind
  have ownedEqual : (captured ∪ (args ∩ free)) ∪ (args ∩ free) = free := by
    rw [capturedEqual]
    grind
  have innerReady : Ready free (captured ∪ (args ∩ free)) (args ∩ free)
      (fun name => tokens name + head name) := by
    refine ⟨?_, ?_, ?_⟩
    · intro name member
      rw [ownedEqual] at member
      rw [entered, amounts_of_mem member]
    · intro name notFree
      rw [entered, amounts_of_not_mem notFree]
    · rw [ownedEqual]
  have shifted : ∀ name, tokens name + (amount name + amounts (-1) unused name +
      amounts 1 captured name) = tokens name + head name + amount name := by
    intro name
    simp only [head]
    omega
  have innerSound :
      Sound (fun name => tokens name + head name) (.change amount :: rest) := by
    refine ⟨trivial, ?_⟩
    have inner := sound.2
    simp only [Event.audited_change, unused] at inner shifted ⊢
    simpa only [shifted] using inner
  have effect := has _ innerReady out _ ⟨rest, ran, rfl⟩ innerSound
  have floor := effect.floor.tail
  have whole : ∀ name, audited (Event.change (fun name =>
      amount name + amounts (-1) (args \ (args ∩ free)) name +
        amounts 1 captured name) ::
        rest) name = audited (.change amount :: rest) name + head name := by
    intro name
    simp only [audited_cons, Event.audited_change, head, unused]
    omega
  refine ⟨Floor.cons (amounts_neg_nonpos _) (floor.mono fun name => ?_), ?_⟩
  · have equal := taken name
    simp only [Event.audited_change, head, unused] at equal ⊢
    omega
  · have settled := effect.settled
    cases out with
    | completed => exact fun name => by rw [whole, settled name, taken]
    | recurred => exact fun name => by rw [whole, settled name, taken]
    | raised inside unwind =>
        obtain ⟨support, fresh, kept, released⟩ := settled
        refine ⟨support, fun name _ => em _, fun name isArg notMember => ?_, ?_⟩
        · exact absurd (Finset.mem_union_left _ isArg) notMember
        · intro name inInside _
          -- Captured variables are not unwound, so they are not among these.
          have notCaptured : name ∉ captured := by
            have known := fresh name inInside
            grind
          have zero := released name inInside (by grind)
          rw [whole]
          omega

/-- One method, run from its arguments. -/
theorem methodRuns_has
    {fnFresh : Finset Name}
    {this : Option Name}
    {params : List Name}
    {body : Node Name (Finset Name)}
    {annotated : Node Name (Memory Name)}
    (freshEqual : fnFresh = body.ann \ methodArgs this params)
    (wellScoped : body.Scoped body.ann body.ann)
    (pass : memoryManagementPass body ∅
      (fnFresh ∪ (methodArgs this params ∩ body.ann) ∪ ∅)
      (methodArgs this params ∩ body.ann) = .ok annotated) :
    Has (methodArgs this params) (methodArgs this params)
      (methodArgs this params)
      (methodArgs this params)
      (methodRuns this params (annotated.modify fun memory =>
        ((memory.dropVars
          (methodArgs this params \
          (methodArgs this params ∩ body.ann))).dropVars
          ∅).dupVars fnFresh)) := by
  rw [Finset.union_empty] at pass
  have within : fnFresh ∪ (methodArgs this params ∩ body.ann) ⊆ body.ann := by
    rw [freshEqual]
    grind
  have has := nodeBalanced_of_scoped body body.ann body.ann wellScoped _ _ _ _
    pass within (by rwa [Finset.empty_union]) (methodArgs this params)
    Finset.inter_subset_left
  have bodyHas := Has.methodBody freshEqual has
  have headEqual : (annotated.modify fun memory =>
      ((memory.dropVars
        (methodArgs this params \ (methodArgs this params ∩ body.ann))).dropVars
        ∅).dupVars fnFresh) = annotated.modify (Memory.addDrop fun name =>
          amounts (-1)
            (methodArgs this params \ (methodArgs this params ∩ body.ann))
            name +
            amounts 1 fnFresh name) := by
    congr 1
    funext memory
    rw [Memory.dropVars_empty]
    simp only [Memory.dropVars, Memory.dupVars, Memory.addDrop, add_assoc]
  refine Has.iterates ?_
    (Floor.cons (fun _ => le_rfl) (Floor.nil fun name => ?_)) fun name => ?_
  · rw [headEqual, Node.runs_addDrop, entering, Node.ann_modify]
    have freshKept := fresh_of_pass pass
    simp only [Memory.addDrop, freshKept, ← add_assoc]
    exact bodyHas
  · simp only [create, Event.audited_change, amounts]
    split <;> omega
  · simp [create]

/-- The methods of a function, run from their arguments. -/
theorem methodRuns_balanced
    {methods : Methods Name (Finset Name)}
    {annotated : Methods Name (Memory Name)}
    (wellScoped : methods.Scoped ∅)
    (pass : fnMethodMemoryManagementPass ∅ methods = .ok annotated) :
    ∀ entry ∈ annotated.entries,
      Has (methodArgs entry.1 entry.2.1) (methodArgs entry.1 entry.2.1)
        (methodArgs entry.1 entry.2.1) (methodArgs entry.1 entry.2.1)
        (methodRuns entry.1 entry.2.1 entry.2.2) := by
  match methods with
  | .nil =>
      cases pass
      simp [Methods.entries]
  | .cons fresh this params loopId body rest =>
      obtain ⟨freshEqual, bodyScoped, restScoped⟩ := wellScoped
      rw [Finset.sdiff_empty] at freshEqual
      rw [fnMethodMemoryManagementPass] at pass
      obtain ⟨annotatedBody, bodyPass, pass⟩ := bind_eq_ok pass
      obtain ⟨annotatedRest, restPass, pass⟩ := bind_eq_ok pass
      cases pass
      rw [Finset.empty_inter] at bodyPass
      intro entry member
      rcases List.mem_cons.mp member with rfl | inRest
      · exact methodRuns_has freshEqual bodyScoped bodyPass
      · exact methodRuns_balanced restScoped restPass entry inRest

/-! ## Normal paths, of a call of the pass and of a method -/

/-- A call of the pass that returns. -/
theorem call_balanced
    {recurThis : Name → Option Name}
    {node : Node Name Unit}
    {borrowed owned unwindOwned : Finset Name}
    {annotated : Node Name (Memory Name)}
    (deftypesClosed : DeftypesClosed recurThis node)
    (rewritten : node.LoopsRewritten true)
    (distinct : node.binders.Nodup)
    (unshadowed : ∀ name ∈ node.binders, name ∉ borrowed ∪ owned)
    (pass : memoryManagementPass (freshVars recurThis node) borrowed owned
      unwindOwned =
      .ok annotated) :
    Has (borrowed ∪ owned) unwindOwned owned unwindOwned
      (entering annotated (annotated.runs (borrowed ∪ owned) unwindOwned)) := by
  have checked := checked_of_pass pass
  have wellScoped := scoped_freshVars true recurThis (borrowed ∪ owned) node
    deftypesClosed rewritten distinct unshadowed checked.fresh_subset
  exact nodeBalanced_of_scoped _ _ _ wellScoped _ _ _ _ pass
    checked.owned_subset subset_rfl _ subset_rfl

/-- The methods of a function that the pass returns. -/
theorem method_balanced
    {recurThis : Name → Option Name}
    {methods : Methods Name Unit}
    {annotated : Methods Name (Memory Name)}
    (deftypesClosed : DeftypesClosedMethods recurThis methods)
    (rewritten : methods.LoopsRewritten true)
    (distinct : methods.binders.Nodup)
    (unshadowed : ∀ name ∈ methods.binders,
      name ∉ (freshMethods recurThis methods).fresh)
    (pass : fnMethodMemoryManagementPass ∅ (freshMethods recurThis methods) =
      .ok annotated) :
    ∀ entry ∈ annotated.entries,
      Has (methodArgs entry.1 entry.2.1) (methodArgs entry.1 entry.2.1)
        (methodArgs entry.1 entry.2.1) (methodArgs entry.1 entry.2.1)
        (methodRuns entry.1 entry.2.1 entry.2.2) := by
  have wellScoped := scoped_freshMethods true recurThis _ ∅ methods
    deftypesClosed rewritten distinct unshadowed subset_rfl
  rw [Methods.modify_sdiff_empty] at wellScoped
  exact methodRuns_balanced wellScoped pass

/-- The normal paths of what the pass returns are linear, for a node and for the
methods of a function, exactly when they do not recur to a loop with an unused
binding other than its last one. -/
theorem linear_iff_recursCleanly :
    (∀ (recurThis : Name → Option Name)
      (node : Node Name Unit)
      (borrowed owned unwindOwned : Finset Name)
      (annotated : Node Name (Memory Name)),
      DeftypesClosed recurThis node →
      node.LoopsRewritten true →
      node.binders.Nodup →
      (∀ name ∈ node.binders, name ∉ borrowed ∪ owned) →
      memoryManagementPass (freshVars recurThis node) borrowed owned
        unwindOwned =
        .ok annotated →
      ∀ out trace,
        entering annotated (annotated.runs (borrowed ∪ owned) unwindOwned)
          out trace →
        Normal out trace → (Linear owned trace ↔ RecursCleanly trace)) ∧
    ∀ (recurThis : Name → Option Name)
      (methods : Methods Name Unit)
      (annotated : Methods Name (Memory Name)),
      DeftypesClosedMethods recurThis methods →
      methods.LoopsRewritten true →
      methods.binders.Nodup →
      (∀ name ∈ methods.binders,
        name ∉ (freshMethods recurThis methods).fresh) →
      fnMethodMemoryManagementPass ∅ (freshMethods recurThis methods) =
        .ok annotated →
      ∀ this params body, (this, params, body) ∈ annotated.entries →
        ∀ out trace, methodRuns this params body out trace →
          Normal out trace →
            (Linear (methodArgs this params) trace ↔ RecursCleanly trace) := by
  constructor
  · intro recurThis node borrowed owned unwindOwned annotated deftypesClosed rewritten distinct
      unshadowed pass out trace ran normal
    have within : owned ∪ unwindOwned ⊆ borrowed ∪ owned :=
      Finset.union_subset Finset.subset_union_right
        (checked_of_pass pass).unwind_subset
    exact (call_balanced deftypesClosed rewritten distinct unshadowed pass _
      (ready_amounts within) out trace ran
      (sound_of_no_expect _ trace normal.2)).linear_iff normal
  · intro recurThis methods annotated deftypesClosed rewritten distinct unshadowed pass this
      params body member out trace ran normal
    exact (method_balanced deftypesClosed rewritten distinct unshadowed pass _
      member _ (ready_amounts (Finset.union_self _).subset) out trace ran
      (sound_of_no_expect _ trace normal.2)).linear_iff normal

/-- The loop `(loop [a 1 b 2] (if t (recur 3 4) b))`, whose body does not
mention `a`. -/
def unusedBindingLoop : Node Nat Unit :=
  .loop () (.bind () 0 (.plain () .const .absent)
    (.bind () 1 (.plain () .const .absent)
    (.body (.ifForm () (.localVar () 2)
      (.application () (.recur 9) (.cons (.plain () .const .absent)
        (.cons (.plain () .const .absent) .nil)))
      (.localVar () 1)))))

/-- The loop above without recurring, and the method of `(fn [a] a)`. -/
theorem linear_iff_recursCleanly_once :
    (∃ annotated out trace,
      memoryManagementPass (freshVars (fun _ => none) unusedBindingLoop)
        {2} ∅ ∅ =
        .ok annotated ∧
      entering annotated (annotated.runs ({2} ∪ ∅) ∅) out trace ∧
        Linear ∅ trace) ∧
    ∃ annotated this params body out trace,
      fnMethodMemoryManagementPass ∅ (freshMethods (fun _ => none)
        (.cons () none [0] 9 (.localVar () 0) .nil : Methods Nat Unit)) =
          .ok annotated ∧
      (this, params, body) ∈ annotated.entries ∧
      methodRuns this params body out trace ∧ Linear {0} trace := by
  constructor
  · have path : ∃ annotated trace,
        memoryManagementPass (freshVars (fun _ => none) unusedBindingLoop)
          {2} ∅ ∅ =
          .ok annotated ∧
        entering annotated (annotated.runs ({2} ∪ ∅) ∅) .completed trace ∧
        Normal .completed trace ∧ RecursCleanly trace := by
      refine ⟨_, _, rfl,
        ⟨_, ⟨_, .inr ⟨_, _, ⟨by simp, _, ⟨by simp, rfl, rfl⟩, rfl⟩,
        ⟨_, ⟨_, .inr ⟨_, _, ⟨by simp, _, ⟨by simp, rfl, rfl⟩, rfl⟩,
          ⟨_, .last ⟨_, .inr ⟨_, _, ⟨by simp, _, ⟨rfl, rfl⟩, rfl⟩,
            .inr ⟨_, ⟨rfl, rfl⟩, rfl⟩, rfl⟩, rfl⟩ (by simp), rfl⟩, rfl⟩, rfl⟩,
              rfl⟩, rfl⟩,
        rfl⟩, rfl⟩, ⟨by simp, fun condition => ?_⟩, fun amount => ?_⟩
      · simp [create, consume]
      · simp [create, consume]
    obtain ⟨annotated, trace, pass, ran, normal, recursCleanly⟩ := path
    refine ⟨annotated, .completed, trace, pass, ran, ?_⟩
    exact (linear_iff_recursCleanly.1 (fun _ => none) unusedBindingLoop {2} ∅ ∅
      annotated
      (by simp [unusedBindingLoop, DeftypesClosed, DeftypesClosedScope,
        DeftypesClosedNodes, DeftypesClosedChild])
      (by simp [unusedBindingLoop, Node.LoopsRewritten, Scope.LoopsRewritten,
        Nodes.LoopsRewritten, Child.LoopsRewritten])
      (by decide) (by decide) pass _ trace ran normal).mpr recursCleanly
  · have path : ∃ annotated body trace,
        fnMethodMemoryManagementPass ∅ (freshMethods (fun _ => none)
          (.cons () none [0] 9 (.localVar () 0) .nil : Methods Nat Unit)) =
            .ok annotated ∧
        (none, [0], body) ∈ annotated.entries ∧
        methodRuns none [0] body .completed trace ∧
        Normal .completed trace ∧ RecursCleanly trace := by
      refine ⟨_, _, _, rfl, .head _, .last ⟨_, ⟨rfl, rfl⟩, rfl⟩ (by simp),
        ⟨by simp, fun condition => ?_⟩, fun amount => ?_⟩
      · simp [consume]
      · simp [consume]
    obtain ⟨annotated, body, trace, pass, member, ran, normal, recursCleanly⟩ :=
      path
    refine ⟨annotated, none, [0], body, .completed, trace, pass, member,
      ran, ?_⟩
    exact (linear_iff_recursCleanly.2 (fun _ => none) _ annotated
      (by simp [DeftypesClosedMethods, DeftypesClosed])
      (by simp [Methods.LoopsRewritten, Node.LoopsRewritten])
      (by decide) (by decide) pass none [0] body member _ trace ran normal).mpr
        recursCleanly

/-- Recurring once leaves a token of the unused binding. -/
theorem unusedBindingLoop_not_linear :
    ∃ annotated out trace,
      memoryManagementPass (freshVars (fun _ => none) unusedBindingLoop)
        {2} ∅ ∅ =
        .ok annotated ∧
      entering annotated (annotated.runs ({2} ∪ ∅) ∅) out trace ∧
        Normal out trace ∧
      gain trace 0 = 1 ∧ ¬ Linear ∅ trace := by
  refine ⟨_, .completed, _, rfl,
    ⟨_, ⟨_, .inr ⟨_, _, ⟨by simp, _, ⟨by simp, rfl, rfl⟩, rfl⟩,
      ⟨_, ⟨_, .inr ⟨_, _, ⟨by simp, _, ⟨by simp, rfl, rfl⟩, rfl⟩,
        ⟨_, .again
          -- The first entry takes the test and recurs.
          ⟨_, .inr ⟨_, _, ⟨by simp, _, ⟨rfl, rfl⟩, rfl⟩,
            .inl ⟨_, .inr ⟨_, _, ⟨by simp, .inr ⟨_, _,
              ⟨by simp, ⟨_, ⟨by simp, rfl, rfl⟩, rfl⟩⟩,
              ⟨_, ⟨by simp, rfl, rfl⟩, rfl⟩, rfl⟩⟩, ⟨rfl, rfl⟩, rfl⟩, rfl⟩,
                rfl⟩, rfl⟩
          -- The second entry leaves the loop with `b`.
          (.last ⟨_, .inr ⟨_, _, ⟨by simp, _, ⟨rfl, rfl⟩, rfl⟩,
            .inr ⟨_, ⟨rfl, rfl⟩, rfl⟩, rfl⟩, rfl⟩ (by simp)), rfl⟩, rfl⟩, rfl⟩,
              rfl⟩, rfl⟩,
      rfl⟩, rfl⟩, ⟨by simp, fun condition => ?_⟩, by decide, fun linear => ?_⟩
  · simp [create, consume, Scope.rebind]
  · exact absurd (linear.1 0) (by decide)

/-! ## Exceptional paths -/

/-- When an exception leaves a method, on a path that meets its expectations,
everything is released exactly if nothing is held that an exception from there
does not unwind. -/
theorem exceptional_exit_released_iff
    (recurThis : Name → Option Name)
    (methods : Methods Name Unit)
    (annotated : Methods Name (Memory Name))
    (deftypesClosed : DeftypesClosedMethods recurThis methods)
    (rewritten : methods.LoopsRewritten true)
    (distinct : methods.binders.Nodup)
    (unshadowed : ∀ name ∈ methods.binders,
      name ∉ (freshMethods recurThis methods).fresh)
    (pass : fnMethodMemoryManagementPass ∅ (freshMethods recurThis methods) =
      .ok annotated)
    (this : Option Name)
    (params : List Name)
    (body : Node Name (Memory Name))
    (member : (this, params, body) ∈ annotated.entries)
    (inside : Finset Name)
    (unwind : Name → Int)
    (trace : List (Event Name))
    (ran : methodRuns this params body (.raised inside unwind) trace)
    (sound : Sound (amounts 1 (methodArgs this params)) trace)
    (recursCleanly : RecursCleanly trace) :
    (∀ name, amounts 1 (methodArgs this params) name + gain trace name +
      unwind name = 0) ↔
      ∀ name ∉ inside,
        amounts 1 (methodArgs this params) name + gain trace name = 0 := by
  have ready :=
    ready_amounts (Finset.union_self (methodArgs this params)).subset
  rw [Finset.union_self] at ready
  have effect := method_balanced deftypesClosed rewritten distinct unshadowed
    pass _ member _ ready _ trace ran sound
  obtain ⟨support, -, -, released⟩ := effect.settled
  have noLeak := (leaked_eq_zero_iff trace).mpr recursCleanly
  have same : ∀ name, gain trace name = audited trace name := by
    intro name
    rw [gain_eq, noLeak]
    simp
  constructor
  · intro nothing name notInside
    have zero := nothing name
    rw [support name notInside] at zero
    omega
  · intro nothingElse name
    by_cases inInside : name ∈ inside
    · rw [same]
      exact released name inInside (em _)
    · rw [nothingElse name inInside, support name inInside, add_zero]

/-- An exception from the call in `(fn [a] (do (g) a))`. -/
theorem exceptional_exit_released_iff_call :
    ∃ annotated body inside unwind trace,
      fnMethodMemoryManagementPass ∅ (freshMethods (fun _ => none)
        (.cons () none [0] 1 (.application () .doBlock
          (.cons (.application () .invoke (.cons (.plain () .var .absent) .nil))
            (.cons (.localVar () 0) .nil))) .nil : Methods (Fin 2) Unit)) =
              .ok annotated ∧
      (none, [0], body) ∈ annotated.entries ∧
      methodRuns none [0] body (.raised inside unwind) trace ∧
      ∀ name, amounts 1 (methodArgs none [0]) name + gain trace name +
        unwind name = 0 := by
  have path : ∃ annotated body inside unwind trace,
      fnMethodMemoryManagementPass ∅ (freshMethods (fun _ => none)
        (.cons () none [0] 1 (.application () .doBlock
          (.cons (.application () .invoke (.cons (.plain () .var .absent) .nil))
            (.cons (.localVar () 0) .nil))) .nil : Methods (Fin 2) Unit)) =
              .ok annotated ∧
      (none, [0], body) ∈ annotated.entries ∧
      methodRuns none [0] body (.raised inside unwind) trace ∧
      Sound (amounts 1 (methodArgs none [0])) trace ∧ RecursCleanly trace ∧
      ∀ name ∉ inside,
        amounts 1 (methodArgs none [0]) name + gain trace name = 0 := by
    refine ⟨_, _, _, _, _, rfl, .head _,
      .last ⟨_, .inl
        ⟨by simp, by simp, _, .inr ⟨_, _,
        ⟨by simp, _, ⟨by simp, rfl, rfl⟩, rfl⟩,
        ⟨rfl, .inr ⟨rfl, rfl⟩⟩, rfl⟩, rfl⟩, rfl⟩ (by simp), ?_,
          fun amount => ?_,
        fun name notInside => ?_⟩
    · refine sound_of_no_expect _ _ fun condition => ?_
      simp
    · simp
    · revert name
      decide
  obtain ⟨annotated, body, inside, unwind, trace, pass, member, ran, sound,
    recursCleanly,
    nothingElse⟩ := path
  refine ⟨annotated, body, inside, unwind, trace, pass, member, ran, ?_⟩
  exact (exceptional_exit_released_iff (fun _ => none) _ annotated
    (by simp [DeftypesClosedMethods, DeftypesClosed, DeftypesClosedNodes,
      DeftypesClosedChild])
    (by simp [Methods.LoopsRewritten, Node.LoopsRewritten, Nodes.LoopsRewritten,
      Child.LoopsRewritten])
    (by decide) (by decide) pass none [0] body member inside unwind trace
    ran sound
    recursCleanly).mpr nothingElse

/-- In `(fn [e] (throw e))` the parameter is released twice. -/
theorem throw_parameter_released_twice :
    ∃ annotated body inside unwind trace,
      fnMethodMemoryManagementPass ∅ (freshMethods (fun _ => none)
        (.cons () none [0] 9
          (.plain () .throw (.present (.localVar () 0))) .nil :
          Methods Nat Unit)) = .ok annotated ∧
      (none, [0], body) ∈ annotated.entries ∧
      methodRuns none [0] body (.raised inside unwind) trace ∧
      amounts 1 (methodArgs none [0]) 0 + gain trace 0 + unwind 0 = -1 := by
  refine ⟨_, _, _, _, _, rfl, .head _,
    .last ⟨_, .inr ⟨_, _, ⟨by simp, _, ⟨rfl, rfl⟩, rfl⟩, ⟨rfl, rfl⟩, rfl⟩, rfl⟩
      (by simp), ?_⟩
  decide

end Frontend
end ClojureRt
