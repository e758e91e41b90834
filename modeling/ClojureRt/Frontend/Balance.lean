import ClojureRt.Frontend.TokenSemantics

/-!
# What a run does to the tokens

A run that owns some variables takes one token of each of them, and nothing
else, unless an exception leaves it.  Then the tokens it has to unwind are gone,
provided that nothing is held which an exception from there does not unwind.
The rules of this module say how such effects compose along the control paths of
a tree.
-/

namespace ClojureRt
namespace Frontend

open TokenTrace

variable {Name : Type} [DecidableEq Name]

theorem amounts_of_mem {amount : Int} {names : Finset Name} {name : Name}
    (member : name ∈ names) :
    amounts amount names name = amount :=
  if_pos member

theorem amounts_of_not_mem {amount : Int} {names : Finset Name} {name : Name}
    (notMember : name ∉ names) :
    amounts amount names name = 0 :=
  if_neg notMember

theorem amounts_union {first second : Finset Name}
    (apart : Disjoint first second)
    (amount : Int) (name : Name) :
    amounts amount (first ∪ second) name =
      amounts amount first name + amounts amount second name := by
  have notBoth := @Finset.disjoint_left _ first second
  unfold amounts
  grind

/-- Tokens before a run: one of everything owned or to be unwound, and none of
what is not in scope. -/
structure Ready
    (scope owned unwindOwned : Finset Name)
    (tokens : Name → Int) : Prop where
  held : ∀ name ∈ owned ∪ unwindOwned, tokens name = 1
  unbound : ∀ name ∉ scope, tokens name = 0
  within : owned ∪ unwindOwned ⊆ scope

/-- What is known when an exception has left a run. -/
structure Raised
    (scope bound owned unwindOwned : Finset Name)
    (tokens : Name → Int)
    (trace : List (Event Name))
    (inside : Finset Name)
    (unwind : Name → Int) : Prop where
  support : ∀ name ∉ inside, unwind name = 0
  fresh : ∀ name ∈ inside, name ∈ bound ∨ name ∉ scope
  kept : ∀ name ∈ scope, name ∉ owned ∪ unwindOwned →
    audited trace name + unwind name = 0
  released : ∀ name ∈ inside, name ∈ unwindOwned ∨ name ∉ scope →
    tokens name + audited trace name + unwind name = 0

/-- The balance of a run by its outcome. -/
def Settled
    (scope bound owned unwindOwned : Finset Name)
    (tokens : Name → Int)
    (trace : List (Event Name)) : Outcome Name → Prop
  | .raised inside unwind =>
      Raised scope bound owned unwindOwned tokens trace inside unwind
  | _ => ∀ name, audited trace name = amounts (-1) owned name

/-- The effect of a run on the tokens. -/
structure Effect
    (scope bound owned unwindOwned : Finset Name)
    (tokens : Name → Int)
    (out : Outcome Name)
    (trace : List (Event Name)) : Prop where
  floor : Floor (amounts (-1) owned) trace
  settled : Settled scope bound owned unwindOwned tokens trace out

/-- Every run has the effect of owning some variables and unwinding others. -/
def Has
    (scope bound owned unwindOwned : Finset Name)
    (run : Run Name) : Prop :=
  ∀ tokens, Ready scope owned unwindOwned tokens →
    ∀ out trace, run out trace → Sound tokens trace →
      Effect scope bound owned unwindOwned tokens out trace

theorem amounts_neg_nonpos (names : Finset Name) (name : Name) :
    amounts (-1) names name ≤ 0 := by
  unfold amounts
  split <;> omega

namespace Effect

variable {scope bound owned unwindOwned : Finset Name} {tokens : Name → Int}
  {out : Outcome Name} {trace : List (Event Name)}

theorem audited_eq
    (effect : Effect scope bound owned unwindOwned tokens out trace)
    (notRaised : ∀ inside unwind, out ≠ .raised inside unwind)
    (name : Name) :
    audited trace name = amounts (-1) owned name := by
  have settled := effect.settled
  cases out with
  | completed => exact settled name
  | recurred => exact settled name
  | raised inside unwind => exact absurd rfl (notRaised inside unwind)

theorem of_audited
    (floor : Floor (amounts (-1) owned) trace)
    (balance : ∀ name, audited trace name = amounts (-1) owned name)
    (notRaised : ∀ inside unwind, out ≠ .raised inside unwind) :
    Effect scope bound owned unwindOwned tokens out trace := by
  refine ⟨floor, ?_⟩
  cases out with
  | completed => exact balance
  | recurred => exact balance
  | raised inside unwind => exact absurd rfl (notRaised inside unwind)

/-- An exception leaves a part of a run. -/
theorem raised_part
    {part : Finset Name}
    {inside : Finset Name}
    {unwind : Name → Int}
    (effect : Effect scope bound part unwindOwned tokens
      (.raised inside unwind) trace)
    (subset : part ⊆ owned) :
    Effect scope bound owned unwindOwned tokens (.raised inside unwind)
      trace := by
  obtain ⟨support, fresh, kept, released⟩ := effect.settled
  refine ⟨effect.floor.mono ?_, ⟨support, fresh, ?_, released⟩⟩
  · intro name
    unfold amounts
    have inOwned := @subset name
    split <;> split <;> grind
  · intro name inScope notMember
    exact kept name inScope (by grind)

end Effect

namespace Has

variable {scope bound owned unwindOwned : Finset Name} {run : Run Name}

/-- Variables owned anyway may be listed among those to unwind or not. -/
theorem unwind_mono
    {larger : Finset Name}
    (has : Has scope bound owned larger run)
    (subset : unwindOwned ⊆ larger)
    (covered : larger ⊆ unwindOwned ∪ owned) :
    Has scope bound owned unwindOwned run := by
  have same : owned ∪ larger = owned ∪ unwindOwned := by grind
  intro tokens ready out trace ran sound
  have effect := has tokens
    ⟨by rw [same]; exact ready.held, ready.unbound, by
      rw [same]; exact ready.within⟩
    out trace ran sound
  refine ⟨effect.floor, ?_⟩
  have settled := effect.settled
  cases out with
  | completed => exact settled
  | recurred => exact settled
  | raised inside unwind =>
      obtain ⟨support, fresh, kept, released⟩ := settled
      refine ⟨support, fresh, by rwa [same] at kept, ?_⟩
      intro name inInside member
      exact released name inInside (member.imp_left (@subset name))

/-- Fewer runs. -/
theorem mono
    {larger : Run Name}
    (has : Has scope bound owned unwindOwned larger)
    (runs : ∀ out trace, run out trace → larger out trace) :
    Has scope bound owned unwindOwned run :=
  fun tokens ready out trace ran sound =>
    has tokens ready out trace (runs out trace ran) sound

theorem either
    {first second : Run Name}
    (firstHas : Has scope bound owned unwindOwned first)
    (secondHas : Has scope bound owned unwindOwned second) :
    Has scope bound owned unwindOwned (first.either second) := by
  intro tokens ready out trace ran sound
  rcases ran with ran | ran
  · exact firstHas tokens ready out trace ran sound
  · exact secondHas tokens ready out trace ran sound

theorem noRecur (has : Has scope bound owned unwindOwned run) :
    Has scope bound owned unwindOwned run.noRecur :=
  has.mono fun _ _ ran => ran.2

theorem never : Has scope bound owned unwindOwned fun _ _ => False :=
  fun _ _ _ _ ran => ran.elim

/-- Nothing is done where nothing is owned. -/
theorem nothing {outcome : Outcome Name}
    (notRaised : ∀ inside unwind, outcome ≠ .raised inside unwind) :
    Has scope bound ∅ unwindOwned (.finish outcome []) := by
  intro tokens ready out trace ran sound
  obtain ⟨rfl, rfl⟩ := ran
  refine Effect.of_audited (Floor.nil (amounts_neg_nonpos ∅)) ?_ notRaised
  intro name
  simp [amounts]

end Has

/-- After part of what is owned has been taken. -/
theorem Ready.after
    {scope owned unwindOwned first second later : Finset Name}
    {tokens : Name → Int}
    {trace : List (Event Name)}
    (ready : Ready scope owned unwindOwned tokens)
    (balance : ∀ name, audited trace name = amounts (-1) first name)
    (firstSubset : first ⊆ owned)
    (subset : second ∪ later ⊆ (owned ∪ unwindOwned) \ first) :
    Ready scope second later
      (fun name => tokens name + audited trace name) := by
  obtain ⟨held, unbound, within⟩ := ready
  refine ⟨?_, ?_, ?_⟩
  · intro name member
    have known := Finset.mem_sdiff.mp (subset member)
    rw [balance, held name known.1, amounts_of_not_mem known.2, add_zero]
  · intro name notInScope
    have notFirst : name ∉ first := fun member =>
      notInScope (within (Finset.mem_union_left _ (firstSubset member)))
    rw [balance, unbound name notInScope, amounts_of_not_mem notFirst, add_zero]
  · exact fun name member => within (Finset.mem_sdiff.mp (subset member)).1

/-- One run after the other: the first takes its share, the second the rest. -/
theorem Has.andThen
    {scope bound owned unwindOwned first second later : Finset Name}
    {run next : Run Name}
    (runHas : Has scope bound first unwindOwned run)
    (nextHas : Has scope bound second later next)
    (noRecur : ∀ trace, ¬ run .recurred trace)
    (shares : first ∪ second = owned)
    (apart : Disjoint first second)
    (laterEqual : later = unwindOwned \ first) :
    Has scope bound owned unwindOwned (run.andThen next) := by
  subst shares laterEqual
  intro tokens ready out trace ran sound
  have firstReady : Ready scope first unwindOwned tokens :=
    ⟨fun name member => ready.held name (by grind), ready.unbound,
      fun name member => ready.within (by grind)⟩
  rcases ran with ⟨notCompleted, ran⟩ |
    ⟨before, after, ranFirst, ranSecond, rfl⟩
  · have effect := runHas tokens firstReady out trace ran sound
    cases out with
    | completed => exact absurd rfl notCompleted
    | recurred => exact absurd ran (noRecur trace)
    | raised inside unwind => exact effect.raised_part Finset.subset_union_left
  · obtain ⟨soundFirst, soundSecond⟩ :=
      (sound_append tokens before after).mp sound
    have firstEffect := runHas tokens firstReady _ before ranFirst soundFirst
    have balance := firstEffect.audited_eq (by simp)
    have secondEffect := nextHas _
      (ready.after balance Finset.subset_union_left
        (by
          rw [Finset.disjoint_left] at apart
          grind))
      out after ranSecond soundSecond
    refine ⟨Floor.append ?_ ?_, ?_⟩
    · refine firstEffect.floor.mono fun name => ?_
      have nonpos := amounts_neg_nonpos second name
      rw [amounts_union apart]
      omega
    · refine secondEffect.floor.mono fun name => ?_
      rw [balance, amounts_union apart]
      omega
    · have settled := secondEffect.settled
      cases out with
      | completed =>
          intro name
          rw [audited_append, balance, settled name, amounts_union apart]
      | recurred =>
          intro name
          rw [audited_append, balance, settled name, amounts_union apart]
      | raised inside unwind =>
          obtain ⟨support, fresh, kept, released⟩ := settled
          refine ⟨support, fresh, ?_, ?_⟩
          · intro name inScope notMember
            have nothing := kept name inScope (by grind)
            have notFirst : name ∉ first := by grind
            rw [audited_append, balance, amounts_of_not_mem notFirst]
            omega
          · intro name inInside member
            have fromSecond := released name inInside
            rw [audited_append, ← add_assoc]
            rcases member with unwound | unbound
            · by_cases inFirst : name ∈ first
              · have inScope : name ∈ scope := ready.within (by grind)
                have notSecond := Finset.disjoint_left.mp apart inFirst
                have nothing := kept name inScope (by grind)
                rw [ready.held name (by grind), balance, amounts_of_mem inFirst]
                omega
              · exact fromSecond (.inl (by grind))
            · exact fromSecond (.inr unbound)

/-- Taking tokens before a run, merged into its first change. -/
theorem Has.drop
    {scope bound owned unwindOwned dropped : Finset Name}
    {amount : Name → Int}
    {run : Run Name}
    (has : Has scope bound owned unwindOwned (.prepend (.change amount) run))
    (apart : Disjoint dropped (owned ∪ unwindOwned)) :
    Has scope bound (owned ∪ dropped) (unwindOwned ∪ dropped)
      (.prepend (.change fun name => amount name + amounts (-1) dropped name)
        run) := by
  intro tokens ready out trace ran sound
  obtain ⟨rest, ran, rfl⟩ := ran
  have ownedApart : Disjoint owned dropped := by
    rw [Finset.disjoint_left] at apart ⊢
    grind
  have notDropped : ∀ name ∈ owned ∪ unwindOwned, name ∉ dropped := by
    rw [Finset.disjoint_left] at apart
    grind
  have shifted : ∀ name,
    tokens name + (amount name + amounts (-1) dropped name) =
      (tokens name + amounts (-1) dropped name) + amount name := by
    intro name
    omega
  have innerReady : Ready scope owned unwindOwned
      (fun name => tokens name + amounts (-1) dropped name) := by
    refine ⟨?_, ?_, fun name member => ready.within (by grind)⟩
    · intro name member
      rw [ready.held name (by grind),
        amounts_of_not_mem (notDropped name member), add_zero]
    · intro name notInScope
      have outside : name ∉ dropped :=
        fun member => notInScope (ready.within (by grind))
      rw [ready.unbound name notInScope, amounts_of_not_mem outside, add_zero]
  have innerSound : Sound (fun name => tokens name + amounts (-1) dropped name)
      (.change amount :: rest) := by
    refine ⟨trivial, ?_⟩
    have inner := sound.2
    simp only [Event.audited_change, shifted] at inner ⊢
    exact inner
  have effect := has _ innerReady out _ ⟨rest, ran, rfl⟩ innerSound
  have floor := effect.floor.tail
  refine ⟨Floor.cons (amounts_neg_nonpos _) (floor.mono fun name => ?_), ?_⟩
  · rw [amounts_union ownedApart]
    simp only [Event.audited_change]
    omega
  · have settled := effect.settled
    cases out with
    | completed =>
        intro name
        have inner := settled name
        simp only [audited_cons, Event.audited_change] at inner ⊢
        rw [amounts_union ownedApart]
        omega
    | recurred =>
        intro name
        have inner := settled name
        simp only [audited_cons, Event.audited_change] at inner ⊢
        rw [amounts_union ownedApart]
        omega
    | raised inside unwind =>
        obtain ⟨support, fresh, kept, released⟩ := settled
        simp only [audited_cons, Event.audited_change] at kept released
        refine ⟨support, fresh, ?_, ?_⟩
        · intro name inScope notMember
          have nothing := kept name inScope (by grind)
          have outside : name ∉ dropped := by grind
          simp only [audited_cons, Event.audited_change,
            amounts_of_not_mem outside]
          omega
        · intro name inInside member
          simp only [audited_cons, Event.audited_change]
          by_cases isDropped : name ∈ dropped
          · have inScope : name ∈ scope := ready.within (by grind)
            have nothing :=
              kept name inScope (fun inside => notDropped name inside isDropped)
            rw [ready.held name (by grind), amounts_of_mem isDropped]
            omega
          · have zero := released name inInside (by grind)
            omega

/-- An empty change before a run. -/
theorem Has.prepend_zero
    {scope bound owned unwindOwned : Finset Name}
    {run : Run Name}
    (has : Has scope bound owned unwindOwned run) :
    Has scope bound owned unwindOwned (.prepend (.change fun _ => 0) run) := by
  intro tokens ready out trace ran sound
  obtain ⟨rest, ran, rfl⟩ := ran
  have innerSound := sound.2
  simp only [Event.audited_change, add_zero] at innerSound
  have effect := has tokens ready out rest ran innerSound
  have same : ∀ name,
      audited (.change (fun _ => 0) :: rest) name = audited rest name := by
    intro name
    simp
  refine ⟨Floor.cons (amounts_neg_nonpos _)
    (effect.floor.mono fun name => by simp), ?_⟩
  have settled := effect.settled
  cases out with
  | completed => exact fun name => (same name).trans (settled name)
  | recurred => exact fun name => (same name).trans (settled name)
  | raised inside unwind =>
      obtain ⟨support, fresh, kept, released⟩ := settled
      refine ⟨support, fresh, ?_, ?_⟩
      · simpa only [same] using kept
      · simpa only [same] using released

/-- Taking tokens before a run. -/
theorem Has.consume
    {scope bound owned unwindOwned taken : Finset Name}
    {run : Run Name}
    (has : Has scope bound owned unwindOwned run)
    (apart : Disjoint taken (owned ∪ unwindOwned)) :
    Has scope bound (owned ∪ taken) (unwindOwned ∪ taken)
      (.prepend (Frontend.consume taken) run) := by
  have dropped := has.prepend_zero.drop apart
  simp only [zero_add] at dropped
  exact dropped

/-- Binding a variable that the rest of the run owns. -/
theorem Has.bind
    {scope bound owned unwindOwned : Finset Name}
    {name : Name}
    {run : Run Name}
    (has : Has (insert name scope) (insert name bound) (insert name owned)
      (insert name unwindOwned) run)
    (unshadowed : name ∉ scope) :
    Has scope bound owned unwindOwned (.prepend (create {name}) run) := by
  intro tokens ready out trace ran sound
  obtain ⟨rest, ran, rfl⟩ := ran
  have notOwned : name ∉ owned ∪ unwindOwned :=
    fun member => unshadowed (ready.within member)
  have created : ∀ other,
      amounts 1 {name} other = if other = name then 1 else 0 := by
    intro other
    simp [amounts]
  have innerReady : Ready (insert name scope) (insert name owned)
      (insert name unwindOwned)
      (fun other => tokens other + amounts 1 {name} other) := by
    refine ⟨?_, ?_, ?_⟩
    · intro other member
      rw [created]
      by_cases isName : other = name
      · rw [if_pos isName, isName, ready.unbound name unshadowed]
        rfl
      · rw [if_neg isName, ready.held other (by grind), add_zero]
    · intro other notInScope
      have isOther : other ≠ name := by grind
      rw [created, if_neg isOther, ready.unbound other (by grind), add_zero]
    · intro other member
      have known := @ready.within other
      grind
  have effect := has _ innerReady out rest ran sound.2
  have balance : ∀ other,
    amounts 1 {name} other + amounts (-1) (insert name owned) other =
      amounts (-1) owned other := by
    intro other
    rw [created]
    unfold amounts
    grind
  refine ⟨Floor.cons (amounts_neg_nonpos _) (effect.floor.mono fun other => ?_),
    ?_⟩
  · have equal := balance other
    simp only [create, Event.audited_change]
    omega
  · have settled := effect.settled
    cases out with
    | completed =>
        intro other
        rw [audited_cons, settled other]
        exact balance other
    | recurred =>
        intro other
        rw [audited_cons, settled other]
        exact balance other
    | raised inside unwind =>
        obtain ⟨support, fresh, kept, released⟩ := settled
        refine ⟨support, ?_, ?_, ?_⟩
        · intro other inInside
          have known := fresh other inInside
          grind
        · intro other inScope notMember
          have isOther : other ≠ name :=
            fun isName => unshadowed (isName ▸ inScope)
          have nothing := kept other (by grind) (by grind)
          simp only [audited_cons, create, Event.audited_change, created,
            if_neg isOther]
          omega
        · intro other inInside member
          simp only [audited_cons, create, Event.audited_change, ← add_assoc]
          exact released other inInside (by grind)

/-- An exception thrown by the node itself, once its children have run. -/
theorem Raised.here
    {scope bound unwindOwned : Finset Name}
    {tokens unwind : Name → Int}
    {trace : List (Event Name)}
    (ready : Ready scope ∅ unwindOwned tokens)
    (unwindEqual : ∀ name, unwind name = amounts (-1) unwindOwned name)
    (subset : unwindOwned ⊆ bound)
    (balance : ∀ name, audited trace name = 0) :
    Raised scope bound ∅ unwindOwned tokens trace bound unwind := by
  refine ⟨?_, fun name member => .inl member, ?_, ?_⟩
  · intro name notBound
    rw [unwindEqual, amounts_of_not_mem fun member => notBound (subset member)]
  · intro name _ notMember
    rw [unwindEqual, amounts_of_not_mem (by grind), balance, add_zero]
  · intro name _ member
    rw [balance, add_zero, unwindEqual]
    rcases member with unwound | unbound
    · rw [ready.held name (by grind), amounts_of_mem unwound]
      rfl
    · have notUnwound : name ∉ unwindOwned := fun member =>
        unbound (ready.within (by grind))
      rw [ready.unbound name unbound, amounts_of_not_mem notUnwound, add_zero]

/-- A node that may throw once its children have run. -/
theorem Has.mayThrow
    {scope bound unwindOwned : Finset Name}
    {unwind : Name → Int}
    {throws : Prop}
    (unwindEqual : ∀ name, unwind name = amounts (-1) unwindOwned name)
    (subset : unwindOwned ⊆ bound) :
    Has scope bound ∅ unwindOwned fun out trace =>
      trace = [] ∧
        (out = .completed ∨ throws ∧ out = .raised bound unwind) := by
  intro tokens ready out trace ran sound
  obtain ⟨rfl, rfl | ⟨-, rfl⟩⟩ := ran
  · refine ⟨Floor.nil (amounts_neg_nonpos ∅), ?_⟩
    intro name
    simp [amounts]
  · exact ⟨Floor.nil (amounts_neg_nonpos ∅),
      Raised.here ready unwindEqual subset audited_nil⟩

/-- A `:throw`, whose operand is expected not to take what the `:throw`
unwinds. -/
theorem Has.throw
    {scope bound owned unwindOwned mentioned : Finset Name}
    {unwind : Name → Int}
    {run : Run Name}
    (has : Has scope bound owned unwindOwned run)
    (noRecur : ∀ trace, ¬ run .recurred trace)
    (unwindEqual : ∀ name, unwind name = amounts (-1) unwindOwned name)
    (subset : unwindOwned ⊆ bound)
    (ownedSubset : owned ⊆ mentioned) :
    Has scope bound owned unwindOwned
      (run.andThen
        (.finish (.raised bound unwind)
        [operandHeld (bound ∩ mentioned)])) := by
  intro tokens ready out trace ran sound
  rcases ran with ⟨notCompleted, ran⟩ |
    ⟨before, after, ranFirst, ⟨rfl, rfl⟩, rfl⟩
  · exact has tokens ready out trace ran sound
  · obtain ⟨soundFirst, expected, -⟩ := (sound_append _ _ _).mp sound
    have effect := has tokens ready _ before ranFirst soundFirst
    have balance := effect.audited_eq (by simp)
    -- A variable owned here and unwound would no longer be held.
    have apart : Disjoint owned unwindOwned := by
      rw [Finset.disjoint_left]
      intro name isOwned unwound
      refine expected name
        (Finset.mem_inter.mpr ⟨subset unwound, ownedSubset isOwned⟩) ?_
      show tokens name + audited before name = 0
      rw [balance, ready.held name (Finset.mem_union_left _ isOwned),
        amounts_of_mem isOwned]
      rfl
    have later : unwindOwned = unwindOwned \ owned :=
      (Finset.sdiff_eq_self_of_disjoint apart.symm).symm
    have thrown : Has scope bound ∅ unwindOwned
        (.finish (.raised bound unwind) [operandHeld (bound ∩ mentioned)]) := by
      intro tokens ready out trace ran sound
      obtain ⟨rfl, rfl⟩ := ran
      refine ⟨Floor.cons (amounts_neg_nonpos ∅) (Floor.nil fun name => ?_), ?_⟩
      · simpa [operandHeld] using amounts_neg_nonpos ∅ name
      · exact Raised.here ready unwindEqual subset fun name => by
          simp [operandHeld]
    exact has.andThen thrown noRecur (Finset.union_empty owned)
      (Finset.disjoint_empty_right owned) later tokens ready _ _
      (.inr ⟨before, _, ranFirst, ⟨rfl, rfl⟩, rfl⟩) sound

/-- A loop whose variables are bound again whenever it recurs. -/
theorem Has.iterates
    {scope bound owned unwindOwned : Finset Name}
    {again : List (Event Name)}
    {run : Run Name}
    (has : Has scope bound owned unwindOwned run)
    (againFloor : Floor (fun _ => 0) again)
    (balance : ∀ name, audited again name = amounts 1 owned name) :
    Has scope bound owned unwindOwned (.Iterates again run) := by
  intro tokens ready out trace ran
  induction ran with
  | last ran ended => exact fun sound => has tokens ready _ _ ran sound
  | again ran rest inductionHypothesis =>
      rename_i out before after
      intro sound
      obtain ⟨soundBefore, soundRest⟩ := (sound_append _ _ _).mp sound
      obtain ⟨-, soundAfter⟩ := (sound_append _ _ _).mp soundRest
      have effect := has tokens ready _ before ran soundBefore
      have taken := effect.audited_eq (by simp)
      have restored : ∀ name, audited before name + audited again name = 0 := by
        intro name
        rw [taken, balance]
        unfold amounts
        split <;> omega
      have same :
        (fun name => tokens name + audited before name + audited again name) =
          tokens := by
        funext name
        have zero := restored name
        omega
      rw [same] at soundAfter
      have later := inductionHypothesis soundAfter
      have total : ∀ name,
          audited (before ++ (again ++ after)) name = audited after name := by
        intro name
        have zero := restored name
        rw [audited_append, audited_append]
        omega
      refine ⟨Floor.append effect.floor (Floor.append ?_ ?_), ?_⟩
      · refine againFloor.mono fun name => ?_
        rw [taken]
        omega
      · refine later.floor.mono fun name => ?_
        have zero := restored name
        omega
      · have settled := later.settled
        cases out with
        | completed => exact fun name => (total name).trans (settled name)
        | recurred => exact fun name => (total name).trans (settled name)
        | raised inside unwind =>
            obtain ⟨support, fresh, kept, released⟩ := settled
            refine ⟨support, fresh, ?_, ?_⟩
            · simpa only [total] using kept
            · simpa only [total] using released

/-! ## Exceptions and the body of a `:try` -/

section Try

variable {scope bound owned unwindOwned tryOwned : Finset Name} {run : Run Name}

/-- Part of what is owned, with nothing to unwind. -/
theorem Ready.part
    {tokens : Name → Int}
    (ready : Ready scope owned unwindOwned tokens)
    (subset : tryOwned ⊆ owned) :
    Ready scope tryOwned ∅ tokens :=
  ⟨fun name member => ready.held name (by grind), ready.unbound,
    fun name member => ready.within (by grind)⟩

/-- A run that completes unwinds nothing, and may see more names. -/
theorem Has.of_completes
    {larger inner fewer : Finset Name}
    (has : Has larger inner owned fewer run)
    (scopeSubset : scope ⊆ larger)
    (unwindSubset : fewer ⊆ unwindOwned) :
    Has scope bound owned unwindOwned run.completes := by
  intro tokens ready out trace ran sound
  obtain ⟨rfl, ran⟩ := ran
  have innerReady : Ready larger owned fewer tokens :=
    ⟨fun name member => ready.held name (by grind),
      fun name notInScope => ready.unbound name fun member =>
        notInScope (scopeSubset member),
      fun name member => scopeSubset (ready.within (by grind))⟩
  have effect := has tokens innerReady _ trace ran sound
  exact ⟨effect.floor, effect.audited_eq (by simp)⟩

/-- An exception that leaves the body of a `:try` and is not caught: nothing
from outside of the body can still be held. -/
theorem Has.uncaught
    (has : Has scope ∅ tryOwned ∅ run)
    (subset : tryOwned ⊆ owned) :
    Has scope bound owned unwindOwned fun out trace =>
      ∃ inside unwind, out = .raised inside unwind ∧ run out trace := by
  intro tokens ready out trace ran sound
  obtain ⟨inside, unwind, rfl, ran⟩ := ran
  have effect :=
    (has tokens (ready.part subset) _ trace ran sound).raised_part subset
  obtain ⟨support, fresh, kept, released⟩ := effect.settled
  refine ⟨effect.floor, ⟨support, fun name member => .inr ?_, ?_, ?_⟩⟩
  · exact (fresh name member).resolve_left (by simp)
  · intro name inScope notMember
    exact kept name inScope (by grind)
  · intro name inInside _
    exact released name inInside
      (.inr ((fresh name inInside).resolve_left (by simp)))

/-- An exception that is caught: by then the body has taken what it owns. -/
theorem Has.caught
    (has : Has scope ∅ tryOwned ∅ run) :
    Has scope bound tryOwned unwindOwned fun out trace =>
      out = .completed ∧ ∃ inside unwind before,
        run (.raised inside unwind) before ∧
        trace = before ++
          [bodyReleased scope tryOwned inside, .change unwind] := by
  intro tokens ready out trace ran sound
  obtain ⟨rfl, inside, unwind, before, ran, rfl⟩ := ran
  obtain ⟨soundBefore, expected, -⟩ := (sound_append _ _ _).mp sound
  have effect := has tokens (ready.part subset_rfl) _ before ran soundBefore
  obtain ⟨support, fresh, kept, released⟩ := effect.settled
  -- Whether or not an exception from there unwinds it, nothing of the body is left.
  have gone : ∀ name, name ∈ tryOwned ∨ name ∉ scope →
      tokens name + audited before name + unwind name = 0 := by
    intro name member
    by_cases inInside : name ∈ inside
    · exact released name inInside
        (.inr ((fresh name inInside).resolve_left (by simp)))
    · have zero : tokens name + audited before name = 0 :=
        expected name inInside member
      rw [zero, support name inInside, add_zero]
  have balance : ∀ name,
      audited before name + unwind name = amounts (-1) tryOwned name := by
    intro name
    by_cases inScope : name ∈ scope
    · by_cases isOwned : name ∈ tryOwned
      · have zero := gone name (.inl isOwned)
        rw [ready.held name (by grind)] at zero
        rw [amounts_of_mem isOwned]
        omega
      · rw [kept name inScope (by grind), amounts_of_not_mem isOwned]
    · have zero := gone name (.inr inScope)
      have notOwned : name ∉ tryOwned :=
        fun member => inScope (ready.within (by grind))
      rw [ready.unbound name inScope] at zero
      rw [amounts_of_not_mem notOwned]
      omega
  have bounded := effect.floor before List.prefix_rfl
  refine ⟨Floor.append effect.floor
    (Floor.cons (fun name => ?_) (Floor.cons (fun name => ?_)
    (Floor.nil fun name => ?_))), fun name => ?_⟩
  · have lower := bounded name
    omega
  · have lower := bounded name
    simp only [bodyReleased, Event.audited_expect]
    omega
  · have equal := balance name
    simp only [Event.audited_change, bodyReleased, Event.audited_expect]
    omega
  · simp only [audited_append, audited_cons, Event.audited_change, bodyReleased,
      Event.audited_expect, audited_nil, add_zero, zero_add]
    exact balance name

end Try

end Frontend
end ClojureRt
