import ClojureRt.Codegen.ObjectTypeSet
import Mathlib

/-!
# Landing pads

`MemoryManagement` keeps the values that are alive while a function is compiled,
and emits the code that releases them when a call unwinds.  A landing pad runs
the extra cleanup of its call and the unwind guidance, and goes on to a chain of
cleanup blocks, one for each value that needs protection.  The blocks are made
when a pad first needs them, and pads without extra cleanup are kept in a cache.

The cache goes by the number of values that a pad skips.  It is emptied with the
guidance but not when values are pushed or popped, so what it returns is right
as long as the same values survive.
-/

namespace ClojureRt
namespace Codegen
namespace LandingPads

/-- `TypedValue`, with the address of the `llvm::Value`. -/
structure TypedValue where
  type : ObjectTypeSet
  value : Nat

/-- `MemoryManagementGuidance`. -/
structure Guidance where
  variablename : String
  requiredrefcountchange : Int

/-- A call that an unwinding exception runs. -/
inductive Action
  | retain (target : TypedValue)
  | release (target : TypedValue)

/-- A basic block on the way of an exception.  Without a next one it goes on to
`terminal_resume`. -/
structure Block where
  actions : List Action
  next : Option Nat

/-- `CleanupChainGuard::needsProtection`. -/
def needsProtection (type : ObjectTypeSet) : Bool :=
  !type.isScalar && !type.isBoxedScalar

/-- `dynamicRetain`. -/
def dynamicRetain (target : TypedValue) : List Action :=
  if target.type.isScalar || target.type.isBoxedScalar then []
  else [.retain target]

/-- `dynamicRelease`. -/
def dynamicRelease (target : TypedValue) : List Action :=
  if target.type.isScalar || target.type.isBoxedScalar then []
  else [.release target]

/-- The state of one function.  The blocks are those of the function, in the
order in which they were created; `variableBindingStack` and the number of
pushed resources, which only names blocks, are not part of it. -/
structure MemoryManagement where
  blocks : List Block
  cleanupStack : List Nat
  activeResources : List TypedValue
  resourcesWithCleanup : Nat
  lpadCache : Nat → Option Nat
  activeUnwindGuidance : Option (List Guidance)

namespace MemoryManagement

/-- `clear`, in a function without blocks. -/
def clear : MemoryManagement :=
  ⟨[], [], [], 0, fun _ => none, none⟩

variable (state : MemoryManagement)

/-- `pushResource`. -/
def pushResource (val : TypedValue) : MemoryManagement :=
  { state with activeResources := state.activeResources ++ [val] }

/-- `popResource`, unless the stack is empty. -/
def popResource (val : TypedValue) : MemoryManagement :=
  let processed := state.activeResources.length = state.resourcesWithCleanup
  { state with
    cleanupStack :=
      if processed ∧
        needsProtection val.type = true then state.cleanupStack.dropLast
      else state.cleanupStack
    resourcesWithCleanup :=
      if processed then state.resourcesWithCleanup - 1
      else state.resourcesWithCleanup
    activeResources := state.activeResources.dropLast }

/-- `setActiveUnwindGuidance`, and `clearActiveUnwindGuidance` for no
guidance. -/
def setActiveUnwindGuidance (guidance : Option (List Guidance)) :
    MemoryManagement :=
  { state with activeUnwindGuidance := guidance, lpadCache := fun _ => none }

/-- `(int)activeResources.size() - (int)skipCount`, from below by zero. -/
def survivorCount (skipCount : Nat) : Nat :=
  ((BitVec.ofNat 32 state.activeResources.length).toInt -
    (BitVec.ofNat 32 skipCount).toInt).toNat

/-- The loop that makes the missing cleanup blocks.  Reading past the resources
is not defined. -/
def fillCleanupStack : Nat → MemoryManagement → Option MemoryManagement
  | 0, state => some state
  | missing + 1, state => do
      let val ← state.activeResources[state.resourcesWithCleanup]?
      fillCleanupStack missing
        (if needsProtection val.type then
          { state with
            blocks := state.blocks ++
              [⟨dynamicRelease val, state.cleanupStack.getLast?⟩]
            cleanupStack := state.cleanupStack ++ [state.blocks.length]
            resourcesWithCleanup := state.resourcesWithCleanup + 1 }
        else
          { state with resourcesWithCleanup := state.resourcesWithCleanup + 1 })

/-- What the unwind guidance runs.  `find` is the innermost binding of a
name. -/
def executeGuidance
    (find : String → Option TypedValue)
    (guidance : Option (List Guidance)) : List Action :=
  (guidance.getD []).flatMap fun g =>
    match find g.variablename with
    | some val =>
        let change : Int := g.requiredrefcountchange
        (List.replicate change.natAbs
          (if 0 < change then dynamicRetain val else dynamicRelease
            val)).flatten
    | none => []

/-- A new landing pad, which the cache gets if there is no extra cleanup. -/
def createLandingPad
    (find : String → Option TypedValue)
    (skipCount : Nat)
    (extraCleanup : List TypedValue)
    (next : Option Nat) : Nat × MemoryManagement :=
  let lpad := state.blocks.length
  (lpad,
    { state with
      blocks := state.blocks ++
        [⟨extraCleanup.flatMap dynamicRelease ++
          executeGuidance find state.activeUnwindGuidance, next⟩]
      lpadCache :=
        if extraCleanup.isEmpty then Function.update state.lpadCache skipCount
          (some lpad)
        else state.lpadCache })

/-- `getLandingPad`. -/
def getLandingPad
    (find : String → Option TypedValue)
    (skipCount : Nat)
    (extraCleanup : List TypedValue) : Option (Nat × MemoryManagement) :=
  match (if extraCleanup.isEmpty then state.lpadCache skipCount else none) with
  | some lpad => some (lpad, state)
  | none => do
      let survivors :=
        state.activeResources.take (state.survivorCount skipCount)
      let neededSurvivors :=
        survivors.countP fun val => needsProtection val.type
      let filled ←
        fillCleanupStack
          (state.survivorCount skipCount - state.resourcesWithCleanup) state
      if neededSurvivors = 0 then
        some (filled.createLandingPad find skipCount extraCleanup none)
      else
        let cleanup ← filled.cleanupStack[neededSurvivors - 1]?
        some (filled.createLandingPad find skipCount extraCleanup
          (some cleanup))

end MemoryManagement

/-- The public operations, `clearActiveUnwindGuidance` being
`setActiveUnwindGuidance` without guidance. -/
inductive Operation
  | pushResource (val : TypedValue)
  | popResource
  | setActiveUnwindGuidance (guidance : Option (List Guidance))
  | getLandingPad (skipCount : Nat) (extraCleanup : List TypedValue)

/-- What an operation returns. -/
inductive Response
  | done
  | landingPad (lpad : Nat)
  /-- `popResource() called on empty stack`. -/
  | emptyStack

/-- One operation.  `none` is behaviour that the code does not define. -/
def step
    (find : String → Option TypedValue)
    (state : MemoryManagement) : Operation →
    Option (Response × MemoryManagement)
  | .pushResource val => some (.done, state.pushResource val)
  | .popResource =>
      match state.activeResources.getLast? with
      | none => some (.emptyStack, state)
      | some val => some (.done, state.popResource val)
  | .setActiveUnwindGuidance guidance =>
      some (.done, state.setActiveUnwindGuidance guidance)
  | .getLandingPad skipCount extraCleanup =>
      (state.getLandingPad find skipCount extraCleanup).map fun (lpad, after) =>
        (.landingPad lpad, after)

/-- What an exception runs from a block on, for at most `fuel` blocks. -/
def unwind (blocks : List Block) : Nat → Nat → Option (List Action)
  | 0, _ => none
  | fuel + 1, id =>
      match blocks[id]? with
      | none => none
      | some block =>
          match block.next with
          | none => some block.actions
          | some next => (unwind blocks fuel next).map (block.actions ++ ·)

/-- The operations of a function, one after the other. -/
def run
    (find : String → Option TypedValue) :
    MemoryManagement → List Operation →
      Option (List Response × MemoryManagement)
  | state, [] => some ([], state)
  | state, operation :: operations => do
      let (response, after) ← step find state operation
      let (responses, final) ← run find after operations
      some (response :: responses, final)

/-! ## What the pads are for -/

/-- What the operations say: the values that are alive, the guidance and, for
each number of skipped values, those that survived when a pad without extra
cleanup was first asked for since the guidance was last changed. -/
structure Intent where
  alive : List TypedValue
  guidance : Option (List Guidance)
  survived : Nat → Option (List TypedValue)

namespace Intent

/-- Nothing is alive. -/
def start : Intent := ⟨[], none, fun _ => none⟩

variable (intent : Intent)

/-- The values alive that a pad releases, but for the ones on top that it skips
and for scalars. -/
def surviving (skipCount : Nat) : List TypedValue :=
  (intent.alive.take (intent.alive.length - skipCount)).filter fun val =>
    needsProtection val.type

/-- The intent after an operation. -/
def after : Operation → Intent
  | .pushResource val => { intent with alive := intent.alive ++ [val] }
  | .popResource => { intent with alive := intent.alive.dropLast }
  | .setActiveUnwindGuidance guidance =>
      { intent with guidance, survived := fun _ => none }
  | .getLandingPad skipCount extraCleanup =>
      if extraCleanup.isEmpty then
        { intent with
          survived := Function.update intent.survived skipCount
            (some ((intent.survived skipCount).getD
              (intent.surviving skipCount))) }
      else
        intent

/-- What an exception should run: the extra cleanup, the guidance and the values
alive, the last one first. -/
def releases
    (find : String → Option TypedValue)
    (skipCount : Nat)
    (extraCleanup : List TypedValue) : List Action :=
  extraCleanup.flatMap dynamicRelease ++ MemoryManagement.executeGuidance find
    intent.guidance ++
    (intent.surviving skipCount).reverse.map .release

/-- The counts of `getLandingPad` are ints. -/
def Sized : Operation → Prop
  | .getLandingPad skipCount _ =>
      skipCount < 2 ^ 31 ∧ intent.alive.length < 2 ^ 31
  | _ => True

/-- The values that survive are those that survived when a pad for as many
skipped values was first asked for. -/
def Unchanged : Operation → Prop
  | .getLandingPad skipCount extraCleanup =>
      extraCleanup.isEmpty = true →
        ∀ earlier, intent.survived skipCount = some earlier →
          earlier = intent.surviving skipCount
  | _ => True

end Intent

/-- Every step of a run meets a condition. -/
def Always (condition : Intent → Operation → Prop) : Intent →
    List Operation → Prop
  | _, [] => True
  | intent, operation :: operations =>
      condition intent operation ∧
        Always condition (intent.after operation) operations

/-- The pads that a run returned, each with what it should release. -/
def issued (find : String → Option TypedValue) :
    Intent → List Operation → List Response → List (Nat × List Action)
  | intent, operation :: operations, response :: responses =>
      (match operation, response with
        | .getLandingPad skipCount extraCleanup, .landingPad lpad =>
            [(lpad, intent.releases find skipCount extraCleanup)]
        | _, _ =>
            []) ++ issued find (intent.after operation) operations responses
  | _, _, _ => []

/-- An exception that arrives at a block ends after these actions. -/
def Unwinds (blocks : List Block) (id : Nat) (actions : List Action) : Prop :=
  ∃ fuel, unwind blocks fuel id = some actions

/-- In the end every pad of the run releases what it should. -/
def ReleasesRightly
    (find : String → Option TypedValue)
    (operations : List Operation) : Prop :=
  ∃ responses final, run find .clear operations = some (responses, final) ∧
    ∀ pad ∈ issued find .start operations responses,
      Unwinds final.blocks pad.1 pad.2

/-! ## Unwinding -/

theorem unwind_succ_eq_some
    {blocks : List Block}
    {fuel id : Nat}
    {actions : List Action} :
    unwind blocks (fuel + 1) id = some actions ↔
      ∃ block, blocks[id]? = some block ∧
        (block.next = none ∧ actions = block.actions ∨
          ∃ next rest, block.next = some next ∧
            unwind blocks fuel next = some rest ∧
            actions = block.actions ++ rest) := by
  rw [unwind]
  cases blocks[id]? with
  | none => simp
  | some block =>
      cases goesOn : block.next with
      | none => simp [goesOn, eq_comm]
      | some next => simp [goesOn, eq_comm]

theorem unwind_append
    {blocks : List Block}
    {fuel id : Nat}
    {actions : List Action}
    (unwound : unwind blocks fuel id = some actions)
    (more : List Block) :
    unwind (blocks ++ more) fuel id = some actions := by
  induction fuel generalizing id actions with
  | zero => cases unwound
  | succ fuel inductionHypothesis =>
      obtain ⟨block, found, ends⟩ := unwind_succ_eq_some.mp unwound
      have inside : id < blocks.length := (List.getElem?_eq_some_iff.mp found).1
      refine unwind_succ_eq_some.mpr ⟨block, ?_, ends.imp_right ?_⟩
      · rw [List.getElem?_append_left inside, found]
      · rintro ⟨next, rest, goesOn, unwoundRest, isRest⟩
        exact ⟨next, rest, goesOn, inductionHypothesis unwoundRest, isRest⟩

theorem unwind_succ
    {blocks : List Block}
    {fuel id : Nat}
    {actions : List Action}
    (unwound : unwind blocks fuel id = some actions) :
    unwind blocks (fuel + 1) id = some actions := by
  induction fuel generalizing id actions with
  | zero => cases unwound
  | succ fuel inductionHypothesis =>
      obtain ⟨block, found, ends⟩ := unwind_succ_eq_some.mp unwound
      refine unwind_succ_eq_some.mpr ⟨block, found, ends.imp_right ?_⟩
      rintro ⟨next, rest, goesOn, unwoundRest, isRest⟩
      exact ⟨next, rest, goesOn, inductionHypothesis unwoundRest, isRest⟩

theorem unwind_mono
    {blocks : List Block}
    {fuel more id : Nat}
    {actions : List Action}
    (unwound : unwind blocks fuel id = some actions)
    (within : fuel ≤ more) :
    unwind blocks more id = some actions := by
  induction within with
  | refl => exact unwound
  | step _ inductionHypothesis => exact unwind_succ inductionHypothesis

namespace Unwinds

variable {blocks : List Block} {id : Nat} {actions : List Action}

/-- New blocks do not change what an exception runs. -/
theorem append (unwinds : Unwinds blocks id actions) (more : List Block) :
    Unwinds (blocks ++ more) id actions := by
  obtain ⟨fuel, unwound⟩ := unwinds
  exact ⟨fuel, unwind_append unwound more⟩

theorem unique
    {others : List Action}
    (unwinds : Unwinds blocks id actions)
    (same : Unwinds blocks id others) :
    actions = others := by
  obtain ⟨fuel, unwound⟩ := unwinds
  obtain ⟨more, unwoundOther⟩ := same
  exact Option.some.inj
    ((unwind_mono unwound (Nat.le_max_left fuel more)).symm.trans
    (unwind_mono unwoundOther (Nat.le_max_right fuel more)))

/-- The block made last, which goes on to the end. -/
theorem last (blocks : List Block) (actions : List Action) :
    Unwinds (blocks ++ [⟨actions, none⟩]) blocks.length actions :=
  ⟨1, by simp [unwind]⟩

/-- The block made last, which goes on to an earlier one. -/
theorem link
    {next : Nat}
    {rest : List Action}
    (unwinds : Unwinds blocks next rest)
    (actions : List Action) :
    Unwinds (blocks ++ [⟨actions, some next⟩]) blocks.length
      (actions ++ rest) := by
  obtain ⟨fuel, unwound⟩ := unwinds
  refine ⟨fuel + 1, ?_⟩
  have later := unwind_append unwound [⟨actions, some next⟩]
  simp [unwind, later]

end Unwinds

/-! ## The chain of cleanup blocks -/

/-- The values that a cleanup block is made for. -/
def protectedValues (values : List TypedValue) : List TypedValue :=
  values.filter fun val => needsProtection val.type

theorem protectedValues_concat_of_protected
    {val : TypedValue}
    (needed : needsProtection val.type = true)
    (values : List TypedValue) :
    protectedValues (values ++ [val]) = protectedValues values ++ [val] := by
  simp [protectedValues, needed]

theorem protectedValues_concat_of_scalar
    {val : TypedValue}
    (scalar : needsProtection val.type = false)
    (values : List TypedValue) :
    protectedValues (values ++ [val]) = protectedValues values := by
  simp [protectedValues, scalar]

theorem dynamicRelease_of_protected
    {val : TypedValue}
    (needed : needsProtection val.type = true) :
    dynamicRelease val = [.release val] := by
  simp only [needsProtection, Bool.and_eq_true, Bool.not_eq_true'] at needed
  simp [dynamicRelease, needed]

/-- From each block of the stack an exception releases its value and those
below. -/
structure Chain (blocks : List Block) (stack : List Nat)
    (values : List TypedValue) : Prop where
  length_eq : stack.length = values.length
  unwinds : ∀ position id, stack[position]? = some id →
    Unwinds blocks id ((values.take (position + 1)).reverse.map .release)

namespace Chain

variable {blocks : List Block} {stack : List Nat} {values : List TypedValue}

theorem nil (blocks : List Block) : Chain blocks [] [] :=
  ⟨rfl, fun _ _ found => by cases found⟩

theorem append (chain : Chain blocks stack values) (more : List Block) :
    Chain (blocks ++ more) stack values :=
  ⟨chain.length_eq, fun position id found =>
    (chain.unwinds position id found).append more⟩

/-- A new block goes on to the top of the stack. -/
theorem push (chain : Chain blocks stack values) (val : TypedValue) :
    Chain (blocks ++ [⟨[.release val], stack.getLast?⟩])
      (stack ++ [blocks.length]) (values ++ [val]) := by
  have sameLength := chain.length_eq
  refine ⟨by simp [sameLength], fun position id found => ?_⟩
  rcases Nat.lt_or_ge position stack.length with below | above
  · rw [List.getElem?_append_left below] at found
    rw [List.take_append_of_le_length (by omega)]
    exact (chain.unwinds position id found).append _
  · have isTop : position = stack.length := by
      have bound := (List.getElem?_eq_some_iff.mp found).1
      rw [List.length_append, List.length_singleton] at bound
      omega
    subst isTop
    rw [List.getElem?_concat_length, Option.some.injEq] at found
    subst found
    rw [List.take_of_length_le (by simp [sameLength]), List.reverse_append,
      List.reverse_singleton, List.map_append]
    cases values using List.reverseRecOn with
    | nil =>
        rw [List.length_nil, List.length_eq_zero_iff] at sameLength
        subst sameLength
        exact Unwinds.last blocks _
    | append_singleton below top _ =>
        cases stack using List.reverseRecOn with
        | nil => simp at sameLength
        | append_singleton lower id _ =>
            have sameLower : lower.length = below.length := by
              simpa using sameLength
            have topUnwinds := chain.unwinds lower.length id (by simp)
            rw [List.take_of_length_le (by simp [sameLower])] at topUnwinds
            rw [List.getLast?_concat]
            exact topUnwinds.link _

/-- Without the top block the chain is for the values below. -/
theorem pop {val : TypedValue} (chain : Chain blocks stack (values ++ [val])) :
    Chain blocks stack.dropLast values := by
  have sameLength := chain.length_eq
  rw [List.length_append, List.length_singleton] at sameLength
  refine ⟨by simp [sameLength], fun position id found => ?_⟩
  obtain ⟨bound, isId⟩ := List.getElem?_eq_some_iff.mp found
  rw [List.length_dropLast, sameLength, Nat.add_sub_cancel] at bound
  have unwinds := chain.unwinds position id (by
    rw [← isId, List.getElem_dropLast]
    exact List.getElem?_eq_getElem (by omega))
  rwa [List.take_append_of_le_length (by omega)] at unwinds

end Chain

/-! ## The invariant -/

/-- The state of the code against what the operations said. -/
structure Tracks
    (find : String → Option TypedValue)
    (state : MemoryManagement)
    (intent : Intent) : Prop where
  alive : state.activeResources = intent.alive
  guidance : state.activeUnwindGuidance = intent.guidance
  marked : state.resourcesWithCleanup ≤ intent.alive.length
  chain : Chain state.blocks state.cleanupStack
    (protectedValues (intent.alive.take state.resourcesWithCleanup))
  cached : ∀ skipCount, Option.Rel
    (fun lpad survivors => Unwinds state.blocks lpad
      (MemoryManagement.executeGuidance find intent.guidance ++
        survivors.reverse.map .release))
    (state.lpadCache skipCount) (intent.survived skipCount)

namespace Tracks

variable {find : String → Option TypedValue} {state : MemoryManagement}
  {intent : Intent}

theorem start : Tracks find .clear .start :=
  ⟨rfl, rfl, le_rfl, Chain.nil _, fun _ => .none⟩

theorem push (tracks : Tracks find state intent) (val : TypedValue) :
    Tracks find (state.pushResource val)
      (intent.after (.pushResource val)) where
  alive := congrArg (· ++ [val]) tracks.alive
  guidance := tracks.guidance
  marked := by
    have marked := tracks.marked
    simp only [Intent.after, MemoryManagement.pushResource, List.length_append,
      List.length_singleton]
    omega
  chain := by
    have chain := tracks.chain
    simp only [Intent.after, MemoryManagement.pushResource]
    rwa [List.take_append_of_le_length tracks.marked]
  cached := tracks.cached

theorem pop
    {val : TypedValue}
    (tracks : Tracks find state intent)
    (top : state.activeResources.getLast? = some val) :
    Tracks find (state.popResource val) (intent.after .popResource) := by
  have marked := tracks.marked
  have chain := tracks.chain
  obtain ⟨below, isAlive⟩ : ∃ below, intent.alive = below ++ [val] := by
    rw [tracks.alive] at top
    exact List.getLast?_eq_some_iff.mp top
  have sameLength : state.activeResources.length = below.length + 1 := by
    simp [tracks.alive, isAlive]
  rw [isAlive, List.length_append, List.length_singleton] at marked
  refine ⟨?_, tracks.guidance, ?_, ?_, tracks.cached⟩
  · simp [MemoryManagement.popResource, Intent.after, tracks.alive]
  · simp only [MemoryManagement.popResource, Intent.after, isAlive,
      List.dropLast_concat, sameLength]
    split <;> omega
  · simp only [MemoryManagement.popResource, Intent.after, isAlive,
      List.dropLast_concat, sameLength]
    rw [isAlive] at chain
    by_cases processed : below.length + 1 = state.resourcesWithCleanup
    · rw [← processed, List.take_of_length_le (by simp)] at chain
      rw [← processed, if_pos rfl, Nat.add_sub_cancel, List.take_length]
      cases needed : needsProtection val.type with
      | true =>
          rw [if_pos ⟨rfl, rfl⟩]
          rw [protectedValues_concat_of_protected needed] at chain
          exact chain.pop
      | false =>
          rw [if_neg fun both => Bool.false_ne_true both.2]
          rwa [protectedValues_concat_of_scalar needed] at chain
    · rw [if_neg fun both => processed both.1, if_neg processed]
      rwa [List.take_append_of_le_length (by omega)] at chain

theorem setGuidance
    (tracks : Tracks find state intent)
    (guidance : Option (List Guidance)) :
    Tracks find (state.setActiveUnwindGuidance guidance)
      (intent.after (.setActiveUnwindGuidance guidance)) :=
  ⟨tracks.alive, rfl, tracks.marked, tracks.chain, fun _ => .none⟩

theorem cached_append
    (tracks : Tracks find state intent)
    (skipCount : Nat)
    (more : List Block) :
    Option.Rel
      (fun lpad survivors => Unwinds (state.blocks ++ more) lpad
        (MemoryManagement.executeGuidance find intent.guidance ++
          survivors.reverse.map .release))
      (state.lpadCache skipCount) (intent.survived skipCount) := by
  have cached := tracks.cached skipCount
  generalize state.lpadCache skipCount = cachedPad at cached
  generalize intent.survived skipCount = survived at cached
  cases cached with
  | some unwinds => exact .some (unwinds.append more)
  | none => exact .none

/-- The loop makes a block for the next value. -/
theorem link
    {val : TypedValue}
    (tracks : Tracks find state intent)
    (isNext : intent.alive[state.resourcesWithCleanup]? = some val)
    (needed : needsProtection val.type = true) :
    Tracks find
      { state with
        blocks := state.blocks ++
          [⟨dynamicRelease val, state.cleanupStack.getLast?⟩]
        cleanupStack := state.cleanupStack ++ [state.blocks.length]
        resourcesWithCleanup := state.resourcesWithCleanup + 1 } intent where
  alive := tracks.alive
  guidance := tracks.guidance
  marked := (List.getElem?_eq_some_iff.mp isNext).1
  chain := by
    rw [List.take_add_one, isNext, Option.toList_some,
      protectedValues_concat_of_protected needed,
      dynamicRelease_of_protected needed]
    exact tracks.chain.push val
  cached := fun skipCount => tracks.cached_append skipCount _

/-- The loop passes a scalar. -/
theorem pass
    {val : TypedValue}
    (tracks : Tracks find state intent)
    (isNext : intent.alive[state.resourcesWithCleanup]? = some val)
    (scalar : needsProtection val.type = false) :
    Tracks find
      { state with resourcesWithCleanup := state.resourcesWithCleanup + 1 }
      intent where
  alive := tracks.alive
  guidance := tracks.guidance
  marked := (List.getElem?_eq_some_iff.mp isNext).1
  chain := by
    rw [List.take_add_one, isNext, Option.toList_some,
      protectedValues_concat_of_scalar scalar]
    exact tracks.chain
  cached := tracks.cached

/-- The loop makes the blocks for the next values. -/
theorem fill
    (missing : Nat)
    (tracks : Tracks find state intent)
    (within : state.resourcesWithCleanup + missing ≤ intent.alive.length) :
    ∃ filled more,
      MemoryManagement.fillCleanupStack missing state = some filled ∧
      Tracks find filled intent ∧
      filled.resourcesWithCleanup = state.resourcesWithCleanup + missing ∧
      filled.lpadCache = state.lpadCache ∧
        filled.blocks = state.blocks ++ more := by
  induction missing generalizing state with
  | zero => exact ⟨state, [], rfl, tracks, rfl, rfl, (List.append_nil _).symm⟩
  | succ missing inductionHypothesis =>
      have inside : state.resourcesWithCleanup < intent.alive.length := by omega
      have isNext : intent.alive[state.resourcesWithCleanup]? =
          some intent.alive[state.resourcesWithCleanup] :=
            List.getElem?_eq_getElem inside
      have found : state.activeResources[state.resourcesWithCleanup]? =
          some intent.alive[state.resourcesWithCleanup] := by
            rw [tracks.alive, isNext]
      simp only [MemoryManagement.fillCleanupStack, found, Option.bind_eq_bind,
        Option.bind_some]
      cases needed :
        needsProtection intent.alive[state.resourcesWithCleanup].type with
      | true =>
          obtain ⟨filled, more, isFilled, filledTracks, mark, cache, blocks⟩ :=
            inductionHypothesis (tracks.link isNext needed)
              (by simp only; omega)
          rw [if_pos rfl]
          exact ⟨filled, _, isFilled, filledTracks,
            by rw [mark]; simp only; omega, cache,
            by rw [blocks, List.append_assoc]⟩
      | false =>
          obtain ⟨filled, more, isFilled, filledTracks, mark, cache, blocks⟩ :=
            inductionHypothesis (tracks.pass isNext needed)
              (by simp only; omega)
          rw [if_neg Bool.false_ne_true]
          exact ⟨filled, more, isFilled, filledTracks,
            by rw [mark]; simp only; omega, cache,
            blocks⟩

/-- A new pad that goes on to the values that survive. -/
theorem create
    {skipCount : Nat}
    {extraCleanup : List TypedValue}
    {next : Option Nat}
    (tracks : Tracks find state intent)
    (notCached : extraCleanup.isEmpty = true → state.lpadCache skipCount = none)
    (goesOn : next = none ∧ intent.surviving skipCount = [] ∨
      ∃ cleanup, next = some cleanup ∧ Unwinds state.blocks cleanup
        ((intent.surviving skipCount).reverse.map .release)) :
    Unwinds (state.createLandingPad find skipCount extraCleanup next).2.blocks
        (state.createLandingPad find skipCount extraCleanup next).1
        (intent.releases find skipCount extraCleanup) ∧
      Tracks find (state.createLandingPad find skipCount extraCleanup next).2
        (intent.after (.getLandingPad skipCount extraCleanup)) := by
  have unwinds : Unwinds
      (state.blocks ++ [⟨extraCleanup.flatMap dynamicRelease ++
        MemoryManagement.executeGuidance find state.activeUnwindGuidance,
        next⟩])
      state.blocks.length (intent.releases find skipCount extraCleanup) := by
    rw [tracks.guidance, Intent.releases]
    rcases goesOn with ⟨rfl, noneSurvive⟩ | ⟨cleanup, rfl, unwinds⟩
    · rw [noneSurvive, List.reverse_nil, List.map_nil, List.append_nil]
      exact Unwinds.last _ _
    · exact unwinds.link _
  refine ⟨unwinds, ?_⟩
  rw [Intent.after]
  cases isEmpty : extraCleanup.isEmpty with
  | false =>
      rw [if_neg Bool.false_ne_true]
      refine ⟨tracks.alive, tracks.guidance, tracks.marked,
        tracks.chain.append _,
        fun other => ?_⟩
      simp only [MemoryManagement.createLandingPad, isEmpty, Bool.false_eq_true,
        if_false]
      exact tracks.cached_append other _
  | true =>
      have noneSurvived : intent.survived skipCount = none := by
        have cached := tracks.cached skipCount
        rw [notCached isEmpty] at cached
        cases survived : intent.survived skipCount with
        | none => rfl
        | some survivors =>
            rw [survived] at cached
            cases cached
      rw [if_pos rfl, noneSurvived, Option.getD_none]
      refine ⟨tracks.alive, tracks.guidance, tracks.marked,
        tracks.chain.append _,
        fun other => ?_⟩
      simp only [MemoryManagement.createLandingPad, isEmpty, if_true]
      by_cases same : other = skipCount
      · subst same
        rw [Function.update_self, Function.update_self]
        rw [List.isEmpty_iff] at isEmpty
        subst isEmpty
        exact .some unwinds
      · rw [Function.update_of_ne same, Function.update_of_ne same]
        exact tracks.cached_append other _

theorem survivorCount_eq
    {skipCount : Nat}
    (tracks : Tracks find state intent)
    (skipFits : skipCount < 2 ^ 31)
    (aliveFits : intent.alive.length < 2 ^ 31) :
    state.survivorCount skipCount = intent.alive.length - skipCount := by
  rw [MemoryManagement.survivorCount, tracks.alive, BitVec.toInt_eq_toNat_cond,
    BitVec.toInt_eq_toNat_cond, BitVec.toNat_ofNat, BitVec.toNat_ofNat,
    Nat.mod_eq_of_lt (by omega), Nat.mod_eq_of_lt (by omega), if_pos (by omega),
    if_pos (by omega)]
  omega

/-- The blocks below the mark are those of the values that survive. -/
theorem goesOn
    {skipCount : Nat}
    (tracks : Tracks find state intent)
    (marked : intent.alive.length - skipCount ≤ state.resourcesWithCleanup)
    (someSurvive : (intent.surviving skipCount).length ≠ 0) :
    ∃ cleanup,
      state.cleanupStack[(intent.surviving skipCount).length - 1]? =
      some cleanup ∧
      Unwinds state.blocks cleanup
        ((intent.surviving skipCount).reverse.map .release) := by
  have survivorsFirst : intent.surviving skipCount <+:
      protectedValues (intent.alive.take state.resourcesWithCleanup) :=
    (List.take_prefix_take_left marked).filter _
  have within := survivorsFirst.length_le
  rw [← tracks.chain.length_eq] at within
  have found : state.cleanupStack[(intent.surviving skipCount).length - 1]? =
      some state.cleanupStack[(intent.surviving skipCount).length - 1] :=
    List.getElem?_eq_getElem (by omega)
  have unwinds := tracks.chain.unwinds _ _ found
  rw [Nat.sub_add_cancel (by omega),
    ← List.prefix_iff_eq_take.mp survivorsFirst] at unwinds
  exact ⟨_, found, unwinds⟩

/-- A pad from the cache releases what survived when it was made. -/
theorem cachedPad
    {skipCount lpad : Nat}
    (tracks : Tracks find state intent)
    (cached : state.lpadCache skipCount = some lpad) :
    Tracks find state (intent.after (.getLandingPad skipCount [])) ∧
      (∃ actions, Unwinds state.blocks lpad actions) ∧
      (Unwinds state.blocks lpad (intent.releases find skipCount []) ↔
        intent.Unchanged (.getLandingPad skipCount [])) := by
  obtain ⟨earlier, survived, unwinds⟩ : ∃ earlier,
    intent.survived skipCount = some earlier ∧
      Unwinds state.blocks lpad
        (MemoryManagement.executeGuidance find intent.guidance ++
        earlier.reverse.map .release) := by
    have related := tracks.cached skipCount
    rw [cached] at related
    cases survived : intent.survived skipCount with
    | none =>
        rw [survived] at related
        cases related
    | some earlier =>
        rw [survived] at related
        cases related with
        | some unwinds => exact ⟨earlier, rfl, unwinds⟩
  refine ⟨?_, ⟨_, unwinds⟩, ?_⟩
  · rw [Intent.after, if_pos List.isEmpty_nil, survived, Option.getD_some,
      ← survived, Function.update_eq_self]
    exact tracks
  · rw [Intent.releases, List.flatMap_nil, List.nil_append]
    constructor
    · intro releases _ other isOther
      rw [survived, Option.some.injEq] at isOther
      subst isOther
      have same := List.append_cancel_left (unwinds.unique releases)
      have injective : Function.Injective Action.release := fun _ _ equal =>
        Action.release.inj equal
      exact List.reverse_injective (injective.list_map same)
    · intro unchanged
      rwa [unchanged List.isEmpty_nil earlier survived] at unwinds

/-- A pad that is asked for releases what it should exactly if the cache has no
other values for it. -/
theorem getLandingPad
    {skipCount : Nat}
    {extraCleanup : List TypedValue}
    (tracks : Tracks find state intent)
    (sized : intent.Sized (.getLandingPad skipCount extraCleanup)) :
    ∃ lpad after more,
      state.getLandingPad find skipCount extraCleanup = some (lpad, after) ∧
        Tracks find after
          (intent.after (.getLandingPad skipCount extraCleanup)) ∧
        after.blocks = state.blocks ++ more ∧
          (∃ actions, Unwinds after.blocks lpad actions) ∧
        (Unwinds after.blocks lpad
          (intent.releases find skipCount extraCleanup) ↔
          intent.Unchanged (.getLandingPad skipCount extraCleanup)) := by
  have marked := tracks.marked
  rw [MemoryManagement.getLandingPad]
  cases isCached :
    (if extraCleanup.isEmpty then state.lpadCache skipCount else none) with
  | some lpad =>
      obtain ⟨isEmpty, cached⟩ := Option.ite_none_right_eq_some.mp isCached
      rw [List.isEmpty_iff] at isEmpty
      subst isEmpty
      obtain ⟨tracksAfter, releases⟩ := tracks.cachedPad cached
      exact ⟨lpad, state, [], rfl, tracksAfter, (List.append_nil _).symm,
        releases⟩
  | none =>
      have notCached : extraCleanup.isEmpty = true →
          state.lpadCache skipCount = none :=
        fun isEmpty => by rwa [if_pos isEmpty] at isCached
      have unchanged :
          intent.Unchanged (.getLandingPad skipCount extraCleanup) := by
        intro isEmpty earlier survived
        have related := tracks.cached skipCount
        rw [notCached isEmpty, survived] at related
        cases related
      have survivorCount := tracks.survivorCount_eq sized.1 sized.2
      obtain ⟨filled, more, isFilled, filledTracks, mark, cache, blocks⟩ :=
        tracks.fill (state.survivorCount skipCount - state.resourcesWithCleanup)
          (by
          rw [survivorCount]
          omega)
      rw [survivorCount] at mark
      have needed :
          (state.activeResources.take (state.survivorCount skipCount)).countP
          (fun val => needsProtection val.type) =
          (intent.surviving skipCount).length := by
        rw [survivorCount, tracks.alive, List.countP_eq_length_filter]
        rfl
      have created : ∀ next, next = none ∧ intent.surviving skipCount = [] ∨
          (∃ cleanup, next = some cleanup ∧ Unwinds filled.blocks cleanup
            ((intent.surviving skipCount).reverse.map .release)) →
          Tracks find
              (filled.createLandingPad find skipCount extraCleanup next).2
              (intent.after (.getLandingPad skipCount extraCleanup)) ∧
            (∃ more, (filled.createLandingPad find skipCount extraCleanup
              next).2.blocks =
              state.blocks ++ more) ∧
            (∃ actions, Unwinds
              (filled.createLandingPad find skipCount extraCleanup
                next).2.blocks
              (filled.createLandingPad find skipCount extraCleanup next).1
              actions) ∧
            (Unwinds (filled.createLandingPad find skipCount extraCleanup
                next).2.blocks
                (filled.createLandingPad find skipCount extraCleanup next).1
                (intent.releases find skipCount extraCleanup) ↔
              intent.Unchanged (.getLandingPad skipCount extraCleanup)) := by
        intro next continues
        obtain ⟨unwinds, tracksAfter⟩ :=
          filledTracks.create (cache ▸ notCached) continues
        refine ⟨tracksAfter, ⟨more ++ [⟨extraCleanup.flatMap dynamicRelease ++
          MemoryManagement.executeGuidance find filled.activeUnwindGuidance,
          next⟩], ?_⟩,
          ⟨_, unwinds⟩, iff_of_true unwinds unchanged⟩
        rw [MemoryManagement.createLandingPad, blocks, List.append_assoc]
      simp only [isFilled, needed, Option.bind_eq_bind, Option.bind_some]
      by_cases noneSurvive : (intent.surviving skipCount).length = 0
      · obtain ⟨tracksAfter, ⟨moreAfter, blocksAfter⟩, releases⟩ :=
          created none (Or.inl ⟨rfl, List.length_eq_zero_iff.mp noneSurvive⟩)
        rw [if_pos noneSurvive]
        exact ⟨_, _, moreAfter, rfl, tracksAfter, blocksAfter, releases⟩
      · obtain ⟨cleanup, isTop, unwinds⟩ :=
          filledTracks.goesOn (by omega) noneSurvive
        obtain ⟨tracksAfter, ⟨moreAfter, blocksAfter⟩, releases⟩ :=
          created (some cleanup) (Or.inr ⟨cleanup, rfl, unwinds⟩)
        rw [if_neg noneSurvive, isTop, Option.bind_some]
        exact ⟨_, _, moreAfter, rfl, tracksAfter, blocksAfter, releases⟩

end Tracks

/-! ## Runs -/

variable {find : String → Option TypedValue}

/-- One operation keeps the invariant and the blocks, and a pad that it returns
is right exactly if the same values survive. -/
theorem Tracks.step
    {state : MemoryManagement}
    {intent : Intent}
    {operation : Operation}
    (tracks : Tracks find state intent)
    (sized : intent.Sized operation) :
    ∃ response after more,
      LandingPads.step find state operation = some (response, after) ∧
      Tracks find after (intent.after operation) ∧
        after.blocks = state.blocks ++ more ∧
      (∀ pad ∈ issued find intent [operation] [response],
        ∃ actions, Unwinds after.blocks pad.1 actions) ∧
      ((∀ pad ∈ issued find intent [operation] [response],
          Unwinds after.blocks pad.1 pad.2) ↔ intent.Unchanged operation) := by
  cases operation with
  | pushResource val =>
      exact ⟨_, _, [], rfl, tracks.push val, (List.append_nil _).symm,
        by simp [issued], iff_of_true (by simp [issued]) trivial⟩
  | popResource =>
      cases top : state.activeResources.getLast? with
      | none =>
          have noneAlive : intent.alive = [] := by
            rw [← tracks.alive]
            exact List.getLast?_eq_none_iff.mp top
          refine ⟨.emptyStack, state, [], by rw [LandingPads.step, top], ?_,
            (List.append_nil _).symm,
            by simp [issued], iff_of_true (by simp [issued]) trivial⟩
          have same : intent.after .popResource = intent := by
            rw [Intent.after, noneAlive, List.dropLast_nil, ← noneAlive]
          rw [same]
          exact tracks
      | some val =>
          exact ⟨_, _, [], by rw [LandingPads.step, top], tracks.pop top,
            (List.append_nil _).symm,
            by simp [issued], iff_of_true (by simp [issued]) trivial⟩
  | setActiveUnwindGuidance guidance =>
      exact ⟨_, _, [], rfl, tracks.setGuidance guidance,
        (List.append_nil _).symm,
        by simp [issued], iff_of_true (by simp [issued]) trivial⟩
  | getLandingPad skipCount extraCleanup =>
      obtain ⟨lpad, after, more, returned, tracksAfter, blocks, unwinds,
          releases⟩ :=
        tracks.getLandingPad sized
      refine ⟨.landingPad lpad, after, more,
        by rw [LandingPads.step, returned]; rfl,
        tracksAfter, blocks,
        by simpa [issued] using unwinds, by simpa [issued] using releases⟩

/-- The run of any operations is defined, keeps the blocks, and its pads are
right exactly if the same values survive each time. -/
theorem Tracks.run
    (operations : List Operation)
    {state : MemoryManagement}
    {intent : Intent}
    (tracks : Tracks find state intent)
    (sized : Always Intent.Sized intent operations) :
    ∃ responses final more,
      LandingPads.run find state operations = some (responses, final) ∧
      final.blocks = state.blocks ++ more ∧
      ((∀ pad ∈ issued find intent operations responses,
        Unwinds final.blocks pad.1 pad.2) ↔
        Always Intent.Unchanged intent operations) := by
  induction operations generalizing state intent with
  | nil =>
      exact ⟨[], state, [], rfl, (List.append_nil _).symm,
        by simp [issued, Always]⟩
  | cons operation operations inductionHypothesis =>
      obtain ⟨response, after, more, stepped, tracksAfter, blocks, unwinds,
          right⟩ :=
        tracks.step sized.1
      obtain ⟨responses, final, moreAfter, ran, blocksAfter, rightAfter⟩ :=
        inductionHypothesis tracksAfter sized.2
      refine ⟨response :: responses, final, more ++ moreAfter, ?_,
        by rw [blocksAfter, blocks, List.append_assoc], ?_⟩
      · simp only [LandingPads.run, stepped, ran, Option.bind_eq_bind,
          Option.bind_some]
      · -- Later blocks do not change what a pad releases, whether that is right or not.
        have lasting : ∀ pad ∈ issued find intent [operation] [response],
            Unwinds after.blocks pad.1 pad.2 ↔
              Unwinds final.blocks pad.1 pad.2 := by
          intro pad member
          obtain ⟨actions, unwindsNow⟩ := unwinds pad member
          have unwindsThen := unwindsNow.append moreAfter
          rw [← blocksAfter] at unwindsThen
          constructor
          · intro isRight
            rw [blocksAfter]
            exact isRight.append moreAfter
          · intro isRight
            rwa [unwindsThen.unique isRight] at unwindsNow
        have split : issued find intent (operation :: operations)
          (response :: responses) =
            issued find intent [operation] [response] ++
              issued find (intent.after operation) operations responses := by
          simp [issued]
        rw [split, List.forall_mem_append, Always, ← right, ← rightAfter]
        exact and_congr_left' (forall₂_congr lasting).symm

/-- If the counts are ints, all pads of a run release what they should exactly
if, each time that a pad without extra cleanup is asked for, the values that
survive are those that survived when one for as many skipped values was first
asked for. -/
theorem pads_release
    (find : String → Option TypedValue)
    (operations : List Operation)
    (sized : Always Intent.Sized .start operations) :
    ReleasesRightly find operations ↔
      Always Intent.Unchanged .start operations := by
  obtain ⟨responses, final, more, ran, -, right⟩ :=
    (Tracks.start : Tracks find _ _).run operations sized
  rw [← right, ReleasesRightly, ran]
  simp

/-- A string of the compiled function. -/
def someString : TypedValue := ⟨.ofType .stringType true none, 0⟩

theorem pads_release_pushed :
    ReleasesRightly (fun _ => none)
      [.pushResource someString, .getLandingPad 0 []] ↔
      Always Intent.Unchanged .start
        [.pushResource someString, .getLandingPad 0 []] :=
  pads_release _ _ ⟨trivial, ⟨by decide, by decide⟩, trivial⟩

/-- A value that is pushed after a pad was made is missed by the pad from the
cache. -/
theorem pads_miss_pushed :
    ¬ ∀ (find : String → Option TypedValue) (operations : List Operation),
      ReleasesRightly find operations := by
  intro allRight
  obtain ⟨responses, final, ran, right⟩ := allRight (fun _ => none)
    [.getLandingPad 0 [], .pushResource someString, .getLandingPad 0 []]
  obtain ⟨rfl, rfl⟩ := Prod.mk.inj (Option.some.inj ran)
  have missed : Unwinds [⟨[], none⟩] 0 [] := Unwinds.last [] []
  have released := right (0, [.release someString]) (by
    simp [issued, Intent.after, Intent.start, Intent.releases, Intent.surviving,
      MemoryManagement.executeGuidance, MemoryManagement.clear,
      show needsProtection someString.type = true by decide])
  cases missed.unique released

end LandingPads
end Codegen
end ClojureRt
