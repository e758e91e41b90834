import ClojureRt.Runtime.ArrayMap.Entries
import Mathlib.Logic.Function.Basic

/-!
# Mappings of a namespace

The mappings are a persistent map behind one atomic pointer, which
`Namespace_intern`, `Namespace_reference` and `Namespace_unmap` replace by
compare and exchange.  A step is one access of one thread to that pointer,
together with the thread's local work up to its next access; the load behind a
successful exchange whose result nobody looks at is left out.

A map is never changed once it is published, and its address is not used again
while a thread holds it, so maps stay where they are stored here.
-/

namespace ClojureRt
namespace Runtime
namespace Namespace

open ArrayMap

/-- Threads are numbered. -/
abbrev Thread := Nat

/-- A symbol with its namespace, as far as interning looks at it. -/
structure Symbol where
  ns : Option String
  name : String
  deriving DecidableEq

/-- A Var, with the namespace that it is interned in.  Vars are told apart by
their addresses. -/
structure Var where
  address : Nat
  ns : Option Nat
  sym : Symbol
  deriving DecidableEq

/-- What a symbol can be mapped to. -/
inductive Mapping
  | nil
  | var (var : Var)
  | other (value : Nat)
  deriving DecidableEq

/-- The entries of a map of mappings, the newest first. -/
abbrev Entries := List (Symbol × Mapping)

/-- `Symbol_equals` -/
def symbolEquals (self other : Symbol) : Bool :=
  decide (self = other)

/-- `PersistentArrayMap_get` -/
def Entries.get (entries : Entries) (sym : Symbol) : Mapping :=
  (AssocList.get symbolEquals sym entries).getD .nil

/-- `Namespace_isInternedMapping` -/
def isInternedMapping (self : Nat) (sym : Symbol) : Mapping → Bool
  | .var v => decide (v.ns = some self) && symbolEquals v.sym sym
  | _ => false

/-- `Namespace_checkReplacement`.  An interned Var is never replaced, whether or
not the new value comes from `clojure.core`. -/
def checkReplacement (self : Nat) (sym : Symbol) (old : Mapping) : Bool :=
  !isInternedMapping self sym old

/-- Where a thread stands: before which access, and what it holds. -/
inductive Activity
  | idle
  -- Namespace_intern
  | internLoad (sym : Symbol) (v : Option Var)
  | internExchange (sym : Symbol) (v : Var) (map : Nat)
  | replaceExchange (sym : Symbol) (v : Var) (map : Nat)
  | replaceReload (sym : Symbol) (v : Var)
  -- Namespace_reference
  | referenceLoad (sym : Symbol) (val : Mapping)
  | referenceExchange (sym : Symbol) (val : Mapping) (map : Nat)
  -- Namespace_unmap
  | unmapLoad (sym : Symbol)
  | unmapExchange (sym : Symbol) (map : Nat)

/-- The mappings, and what each thread is doing. -/
structure State where
  mappings : Nat
  maps : Nat → Entries
  nextMap : Nat
  nextVar : Nat
  threads : Thread → Activity

/-- The calls that threads make. -/
inductive Call
  | intern (sym : Symbol)
  | reference (sym : Symbol) (val : Mapping)
  | unmap (sym : Symbol)

/-- A thread calls one of the functions, or goes on with its call. -/
inductive Action
  | call (thread : Thread) (call : Call)
  | advance (thread : Thread)

/-- What a step ends. -/
inductive Label
  | silent
  | interned (sym : Symbol) (result : Mapping)
  | referenced (sym : Symbol) (result : Mapping)
  | unmapped (sym : Symbol)
  | notMapped (sym : Symbol)
  | threw
  deriving DecidableEq

namespace State

/-- A namespace whose mappings have the given entries, and idle threads. -/
def initial (entries : Entries) : State where
  mappings := 0
  maps := fun _ => entries
  nextMap := 1
  nextVar := 0
  threads := fun _ => .idle

/-- What the mappings say about a symbol. -/
def mapping (state : State) (sym : Symbol) : Mapping :=
  (state.maps state.mappings).get sym

/-- The state with a thread that does something else. -/
def setThread (state : State) (thread : Thread) (activity : Activity) : State :=
  { state with threads := Function.update state.threads thread activity }

/-- A new map becomes the mappings. -/
def publish (state : State) (entries : Entries) : State :=
  { state with
    mappings := state.nextMap
    maps := Function.update state.maps state.nextMap entries
    nextMap := state.nextMap + 1 }

/-- `Var_create_interned`, unless there is a Var already. -/
def createInterned (state : State) (self : Nat) (sym : Symbol) : Option Var →
    Var × State
  | some v => (v, state)
  | none =>
      (⟨state.nextVar, some self, sym⟩,
        { state with nextVar := state.nextVar + 1 })

/-- The step ends the call. -/
def finish (state : State) (thread : Thread) (label : Label) : State × Label :=
  (state.setThread thread .idle, label)

/-- The step leads to the next access. -/
def goto (state : State) (thread : Thread) (activity : Activity) :
    State × Label :=
  (state.setThread thread activity, .silent)

/-- `Namespace_intern` after it has loaded the mappings. -/
def internDecide
    (state : State)
    (self : Nat)
    (thread : Thread)
    (sym : Symbol)
    (v : Option Var) : State × Label :=
  let o := state.mapping sym
  let (created, withVar) := state.createInterned self sym v
  if o = .nil then
    withVar.goto thread (.internExchange sym created state.mappings)
  else if isInternedMapping self sym o then
    state.finish thread (.interned sym o)
  else if checkReplacement self sym o then
    withVar.goto thread (.replaceExchange sym created state.mappings)
  else
    withVar.finish thread (.interned sym o)

/-- `Namespace_reference` after it has loaded the mappings. -/
def referenceDecide
    (state : State)
    (self : Nat)
    (equals : Mapping → Mapping → Bool)
    (thread : Thread)
    (sym : Symbol)
    (val : Mapping) : State × Label :=
  let o := state.mapping sym
  if o = .nil then
    state.goto thread (.referenceExchange sym val state.mappings)
  else if equals o val then
    state.finish thread (.referenced sym o)
  else if checkReplacement self sym o then
    state.goto thread (.referenceExchange sym val state.mappings)
  else
    state.finish thread .threw

/-- `PersistentArrayMap_assoc` on the map a thread holds and the exchange behind
it. -/
def exchangeAssoc
    (state : State)
    (thread : Thread)
    (map : Nat)
    (sym : Symbol)
    (value : Mapping)
    (replaced failed : State → State × Label) : State × Label :=
  match assocEntries symbolEquals sym value (state.maps map) with
  | none => state.finish thread .threw
  | some entries =>
      if state.mappings = map then
        replaced (state.publish entries)
      else
        failed state

/-- The next access of a thread that is not idle. -/
def advance
    (self : Nat)
    (equals : Mapping → Mapping → Bool)
    (state : State)
    (thread : Thread) : Activity → Option (State × Label)
  | .idle => none
  | .internLoad sym v => some (state.internDecide self thread sym v)
  | .internExchange sym v map =>
      -- both ways around, the loop loads the mappings again
      some (state.exchangeAssoc thread map sym (.var v)
        (fun after => after.goto thread (.internLoad sym (some v)))
        (fun after => after.goto thread (.internLoad sym (some v))))
  | .replaceExchange sym v map =>
      some (state.exchangeAssoc thread map sym (.var v)
        (fun after => after.finish thread (.interned sym (.var v)))
        (fun after => after.goto thread (.replaceReload sym v)))
  | .replaceReload sym v =>
      -- the mapping is not looked at again
      some (state.goto thread (.replaceExchange sym v state.mappings))
  | .referenceLoad sym val =>
      some (state.referenceDecide self equals thread sym val)
  | .referenceExchange sym val map =>
      some (state.exchangeAssoc thread map sym val
        (fun after => after.finish thread (.referenced sym val))
        (fun after => after.goto thread (.referenceLoad sym val)))
  | .unmapLoad sym =>
      if state.mapping sym = .nil then
        some (state.finish thread (.notMapped sym))
      else
        some (state.goto thread (.unmapExchange sym state.mappings))
  | .unmapExchange sym map =>
      if state.mappings = map then
        some ((state.publish
          (AssocList.dissoc symbolEquals sym (state.maps map))).finish
          thread (.unmapped sym))
      else
        some (state.goto thread (.unmapLoad sym))

/-- A call by an idle thread.  Symbols with a namespace are refused. -/
def start (state : State) (thread : Thread) : Call → State × Label
  | .intern sym =>
      if sym.ns = none then state.goto thread (.internLoad sym none)
      else state.finish thread .threw
  | .reference sym val =>
      if sym.ns = none then state.goto thread (.referenceLoad sym val)
      else state.finish thread .threw
  | .unmap sym =>
      if sym.ns = none then state.goto thread (.unmapLoad sym)
      else state.finish thread .threw

/-- One action of a thread, with what an observer sees of it. -/
def step
    (self : Nat)
    (equals : Mapping → Mapping → Bool)
    (state : State) : Action → Option (State × Label)
  | .call thread call =>
      match state.threads thread with
      | .idle => some (state.start thread call)
      | _ => none
  | .advance thread => advance self equals state thread (state.threads thread)

end State

/-! ## Runs -/

section Runs

variable (self : Nat) (equals : Mapping → Mapping → Bool)

/-- A run whose steps all meet a condition, with what its steps end. -/
inductive Run (condition : State → Action → Prop) : State → List Label →
    State → Prop
  | refl (state : State) : Run condition state [] state
  | step {before after last : State} {action : Action} {label : Label}
      {labels : List Label}
      (meets : condition before action)
      (stepped : before.step self equals action = some (after, label))
      (rest : Run condition after labels last) :
      Run condition before (label :: labels) last

/-- The run that takes the given actions. -/
def perform : List Action → State → Option (State × List Label)
  | [], state => some (state, [])
  | action :: actions, state =>
      (state.step self equals action).bind fun stepped =>
        (perform actions stepped.1).map fun rest =>
          (rest.1, stepped.2 :: rest.2)

variable {self equals}

theorem Run.perform
    {actions : List Action}
    {before after : State}
    {labels : List Label}
    (performed : perform self equals actions before = some (after, labels)) :
    Run self equals (fun _ _ => True) before labels after := by
  induction actions generalizing before labels with
  | nil =>
      cases performed
      exact .refl _
  | cons action actions inductionHypothesis =>
      obtain ⟨⟨between, label⟩, stepped, rest⟩ :=
        Option.bind_eq_some_iff.mp performed
      obtain ⟨⟨last, others⟩, later, equal⟩ := Option.map_eq_some_iff.mp rest
      cases equal
      exact .step trivial stepped (inductionHypothesis later)

/-- The Var is interned by the namespace under the symbol. -/
def Owns (self : Nat) (sym : Symbol) (v : Var) : Prop :=
  isInternedMapping self sym (.var v) = true

/-- A stretch of a run without an unmap of the symbol keeps the interned Var
that the symbol is mapped to, and what `Namespace_intern` returns on it is that
Var. -/
structure Canonical
    (ns : Nat)
    (sym : Symbol)
    (before : State)
    (labels : List Label)
    (after : State) : Prop where
  kept : ∀ v, Owns ns sym v → before.mapping sym = .var v →
    after.mapping sym = .var v
  returned : ∀ result, .interned sym result ∈ labels →
    ∃ v, result = .var v ∧ Owns ns sym v ∧ after.mapping sym = .var v

/-- Where the replacement loop of `Namespace_intern` loads the mappings again,
the symbol is not mapped to an interned Var. -/
def ReloadsForeign (self : Nat) (state : State) : Action → Prop
  | .advance thread =>
      ∀ sym v, state.threads thread = .replaceReload sym v →
        isInternedMapping self sym (state.mapping sym) = false
  | .call _ _ => True

end Runs

/-! ## Maps -/

theorem symbolEquals_isEquivalence : AssocList.IsEquivalence symbolEquals :=
  AssocList.IsEquivalence.of_decidableEq

theorem Entries.get_assoc (sym other : Symbol) (value : Mapping)
    (entries : Entries) :
    Entries.get (AssocList.assoc symbolEquals sym value entries) other =
      if other = sym then value else entries.get other := by
  unfold Entries.get
  rw [AssocList.get_assoc symbolEquals_isEquivalence]
  by_cases same : other = sym
  · simp [symbolEquals, same]
  · simp [symbolEquals, same]

theorem Entries.get_dissoc
    {sym other : Symbol}
    (different : other ≠ sym)
    (entries : Entries) :
    Entries.get (AssocList.dissoc symbolEquals sym entries) other =
      entries.get other := by
  unfold Entries.get
  rw [AssocList.get_dissoc_of_ne symbolEquals_isEquivalence
    (by simpa [symbolEquals])]

theorem owns_iff {self : Nat} {sym : Symbol} {v : Var} :
    Owns self sym v ↔ v.ns = some self ∧ v.sym = sym := by
  simp [Owns, isInternedMapping, symbolEquals]

theorem exists_var_of_isInternedMapping
    {self : Nat}
    {sym : Symbol}
    {mapping : Mapping}
    (interned : isInternedMapping self sym mapping = true) :
    ∃ v, mapping = .var v ∧ Owns self sym v := by
  cases mapping with
  | nil => cases interned
  | var v => exact ⟨v, rfl, interned⟩
  | other value => cases interned

/-! ## The invariant -/

namespace State

@[simp]
theorem mapping_setThread
    (state : State)
    (thread : Thread)
    (activity : Activity)
    (sym : Symbol) :
    (state.setThread thread activity).mapping sym = state.mapping sym := rfl

@[simp]
theorem mapping_publish (state : State) (entries : Entries) (sym : Symbol) :
    (state.publish entries).mapping sym = entries.get sym := by
  simp [mapping, publish]

end State

/-- A map that a thread holds was published. -/
def Published (state : State) (map : Nat) : Prop :=
  map < state.nextMap

/-- What a thread knows about the map that it is about to replace, and about its
Var. -/
def Consistent (self : Nat) (state : State) : Activity → Prop
  | .idle => True
  | .internLoad sym v => ∀ created, v = some created → Owns self sym created
  | .internExchange sym v map =>
      Owns self sym v ∧ Published state map ∧ (state.maps map).get sym = .nil
  | .replaceExchange sym v map =>
      Owns self sym v ∧ Published state map ∧
        isInternedMapping self sym ((state.maps map).get sym) = false
  | .replaceReload sym v => Owns self sym v
  | .referenceLoad _ _ => True
  | .referenceExchange sym _ map =>
      Published state map ∧
        isInternedMapping self sym ((state.maps map).get sym) = false
  | .unmapLoad _ => True
  | .unmapExchange _ map => Published state map

/-- What holds in every state that can be reached. -/
structure Invariant (ns : Nat) (state : State) : Prop where
  published : Published state state.mappings
  consistent : ∀ thread, Consistent ns state (state.threads thread)

/-- The maps published before are still there. -/
structure Extends (before after : State) : Prop where
  nextMap : before.nextMap ≤ after.nextMap
  maps : ∀ map, map < before.nextMap → after.maps map = before.maps map

theorem Extends.refl (state : State) : Extends state state where
  nextMap := Nat.le_refl _
  maps := fun _ _ => rfl

theorem Extends.publish (state : State) (entries : Entries) :
    Extends state (state.publish entries) where
  nextMap := Nat.le_succ _
  maps := by
    intro map below
    have distinct : map ≠ state.nextMap := by omega
    simp [State.publish, distinct]

theorem Consistent.mono
    {self : Nat}
    {before after : State}
    (extends_ : Extends before after)
    {activity : Activity}
    (consistent : Consistent self before activity) :
    Consistent self after activity := by
  have published {map : Nat} (earlier : Published before map) :
      Published after map :=
    Nat.lt_of_lt_of_le earlier extends_.nextMap
  cases activity with
  | internExchange sym v map =>
      obtain ⟨owns, earlier, unmapped⟩ := consistent
      refine ⟨owns, published earlier, ?_⟩
      rw [extends_.maps map earlier]
      exact unmapped
  | replaceExchange sym v map =>
      obtain ⟨owns, earlier, foreign⟩ := consistent
      refine ⟨owns, published earlier, ?_⟩
      rw [extends_.maps map earlier]
      exact foreign
  | referenceExchange sym val map =>
      obtain ⟨earlier, foreign⟩ := consistent
      refine ⟨published earlier, ?_⟩
      rw [extends_.maps map earlier]
      exact foreign
  | unmapExchange sym map => exact published consistent
  | _ => exact consistent

/-- What a step does: the invariant holds again, an interned Var stays mapped
unless the step unmaps its symbol, and an intern that the step ends returns the
mapping. -/
structure Kept (ns : Nat) (before : State) (stepped : State × Label) :
    Prop where
  invariant : Invariant ns stepped.1
  canonical : ∀ sym, stepped.2 ≠ .unmapped sym →
    Canonical ns sym before [stepped.2] stepped.1

theorem invariant_initial (self : Nat) (entries : Entries) :
    Invariant self (State.initial entries) where
  published := Nat.zero_lt_one
  consistent := fun _ => trivial

/-- One thread moves on, and the mappings stay or are replaced. -/
theorem Invariant.setThread
    {self : Nat}
    {before after : State}
    (invariant : Invariant self before)
    (extends_ : Extends before after)
    (published : Published after after.mappings)
    (sameThreads : after.threads = before.threads)
    (thread : Thread)
    (activity : Activity)
    (consistent : Consistent self after activity) :
    Invariant self (after.setThread thread activity) where
  published := published
  consistent := by
    intro other
    have carried {held : Activity} (isHeld : Consistent self after held) :
        Consistent self (after.setThread thread activity) held :=
      isHeld.mono ⟨Nat.le_refl _, fun _ _ => rfl⟩
    by_cases same : other = thread
    · subst same
      simp only [State.setThread, Function.update_self]
      exact carried consistent
    · simp only [State.setThread, Function.update_of_ne same, sameThreads]
      exact carried ((invariant.consistent other).mono extends_)

/-! ## Steps -/

section Steps

variable {ns : Nat} {before : State}

/-- The mappings stay, and an intern that ends returns the mapping. -/
theorem Kept.stay
    (invariant : Invariant ns before)
    (thread : Thread)
    (activity : Activity)
    {label : Label}
    (consistent : Consistent ns before activity)
    (returned : ∀ sym result, label = .interned sym result →
      ∃ v, result = .var v ∧ Owns ns sym v ∧ before.mapping sym = .var v) :
    Kept ns before (before.setThread thread activity, label) where
  invariant :=
    invariant.setThread (.refl before) invariant.published rfl thread activity
      consistent
  canonical := by
    intro sym _
    constructor
    · intro v _ mapped
      exact mapped
    · intro result member
      exact returned sym result (List.mem_singleton.mp member).symm

theorem Kept.goto
    (invariant : Invariant ns before)
    (thread : Thread)
    (activity : Activity)
    (consistent : Consistent ns before activity) :
    Kept ns before (before.goto thread activity) :=
  Kept.stay invariant thread activity consistent
    (by intro _ _ impossible; cases impossible)

/-- A call ends that is not an intern. -/
theorem Kept.finish
    (invariant : Invariant ns before)
    (thread : Thread)
    {label : Label}
    (notInterned : ∀ sym result, label ≠ .interned sym result) :
    Kept ns before (before.finish thread label) :=
  Kept.stay invariant thread .idle trivial
    (fun sym result ends => absurd ends (notInterned sym result))

/-- A map with one more or one changed entry is published for a symbol that is
not mapped to an interned Var. -/
theorem Kept.assoc
    (invariant : Invariant ns before)
    {sym : Symbol}
    {value : Mapping}
    {entries : Entries}
    (associated :
      entries = AssocList.assoc symbolEquals sym value
        (before.maps before.mappings))
    (foreign : isInternedMapping ns sym (before.mapping sym) = false)
    (thread : Thread)
    (activity : Activity)
    {label : Label}
    (consistent : Consistent ns (before.publish entries) activity)
    (returned : ∀ other result, label = .interned other result →
      other = sym ∧ result = value ∧ ∃ v, value = .var v ∧ Owns ns sym v) :
    Kept ns before ((before.publish entries).setThread thread activity,
      label) where
  invariant :=
    invariant.setThread (.publish before entries) (Nat.lt_succ_self _) rfl
      thread activity consistent
  canonical := by
    intro other _
    constructor
    · intro v owns mapped
      rw [State.mapping_setThread, State.mapping_publish, associated,
        Entries.get_assoc]
      have different : other ≠ sym := by
        intro same
        rw [← same, mapped] at foreign
        rw [Owns, foreign] at owns
        cases owns
      rw [if_neg different]
      exact mapped
    · intro result member
      obtain ⟨same, isValue, v, isVar, owns⟩ :=
        returned other result (List.mem_singleton.mp member).symm
      subst same
      refine ⟨v, isValue.trans isVar, owns, ?_⟩
      rw [State.mapping_setThread, State.mapping_publish, associated,
        Entries.get_assoc, if_pos rfl, isVar]

/-- A map without the entry of a symbol is published. -/
theorem Kept.dissoc
    (invariant : Invariant ns before)
    (sym : Symbol)
    (thread : Thread) :
    Kept ns before
      ((before.publish
        (AssocList.dissoc symbolEquals sym
          (before.maps before.mappings))).finish
          thread (.unmapped sym)) where
  invariant :=
    invariant.setThread (.publish before _) (Nat.lt_succ_self _) rfl
      thread .idle trivial
  canonical := by
    intro other notUnmapped
    have different : other ≠ sym := by
      intro same
      exact notUnmapped (by rw [same]; rfl)
    constructor
    · intro v _ mapped
      unfold State.finish
      rw [State.mapping_setThread, State.mapping_publish,
        Entries.get_dissoc different]
      exact mapped
    · intro result member
      cases List.mem_singleton.mp member

/-- A fresh Var, or the one there is, is interned by the namespace. -/
theorem createInterned_spec
    (state : State)
    (sym : Symbol)
    {v : Option Var}
    (consistent : Consistent ns state (.internLoad sym v)) :
    Owns ns sym (state.createInterned ns sym v).1 ∧
      ∃ nextVar,
        (state.createInterned ns sym v).2 =
        { state with nextVar := nextVar } := by
  cases v with
  | none => exact ⟨owns_iff.mpr ⟨rfl, rfl⟩, _, rfl⟩
  | some created => exact ⟨consistent created rfl, state.nextVar, rfl⟩

/-- Numbering Vars changes nothing else. -/
theorem Kept.withNextVar
    {nextVar : Nat}
    {thread : Thread}
    {activity : Activity}
    (kept : Kept ns before (before.goto thread activity)) :
    Kept ns before
      (State.goto { before with nextVar := nextVar } thread activity) where
  invariant := ⟨kept.invariant.published, fun other =>
    (kept.invariant.consistent other).mono ⟨Nat.le_refl _, fun _ _ => rfl⟩⟩
  canonical := fun sym notUnmapped =>
    ⟨(kept.canonical sym notUnmapped).kept,
      (kept.canonical sym notUnmapped).returned⟩

theorem kept_internDecide
    (invariant : Invariant ns before)
    (thread : Thread)
    {sym : Symbol}
    {v : Option Var}
    (consistent : Consistent ns before (.internLoad sym v)) :
    Kept ns before (before.internDecide ns thread sym v) := by
  obtain ⟨owns, nextVar, numbered⟩ := createInterned_spec before sym consistent
  unfold State.internDecide
  simp only [numbered]
  split
  next unmapped =>
      apply Kept.withNextVar
      apply Kept.goto invariant thread
      exact And.intro owns ⟨invariant.published, unmapped⟩
  next =>
      cases interned : isInternedMapping ns sym (before.mapping sym) with
      | true =>
          apply Kept.stay invariant thread .idle trivial
          intro other result ends
          cases ends
          obtain ⟨v, isVar, isOwn⟩ := exists_var_of_isInternedMapping interned
          exact ⟨v, isVar, isOwn, isVar⟩
      | false =>
          simp only [checkReplacement, interned, Bool.not_false, if_true,
            Bool.false_eq_true, if_false]
          apply Kept.withNextVar
          apply Kept.goto invariant thread
          exact And.intro owns ⟨invariant.published, interned⟩

theorem kept_referenceDecide
    (invariant : Invariant ns before)
    (equals : Mapping → Mapping → Bool)
    (thread : Thread)
    (sym : Symbol)
    (val : Mapping) :
    Kept ns before (before.referenceDecide ns equals thread sym val) := by
  unfold State.referenceDecide
  simp only
  split
  next unmapped =>
      apply Kept.goto invariant thread
      refine And.intro invariant.published ?_
      rw [State.mapping] at unmapped
      rw [unmapped]
      rfl
  next =>
      split
      · exact Kept.finish invariant thread
          (by intro _ _ impossible; cases impossible)
      · cases interned : isInternedMapping ns sym (before.mapping sym) with
        | true =>
            simp only [checkReplacement, interned, Bool.not_true,
              Bool.false_eq_true, if_false]
            exact Kept.finish invariant thread
              (by intro _ _ impossible; cases impossible)
        | false =>
            simp only [checkReplacement, interned, Bool.not_false, if_true]
            apply Kept.goto invariant thread
            exact And.intro invariant.published interned

/-- A compare and exchange with a new entry. -/
theorem kept_exchangeAssoc
    (invariant : Invariant ns before)
    (thread : Thread)
    {map : Nat}
    {sym : Symbol}
    {value : Mapping}
    {replaced failed : State → State × Label}
    (whenReplaced : ∀ entries,
      entries = AssocList.assoc symbolEquals sym value
        (before.maps before.mappings) →
      before.mappings = map →
        Kept ns before (replaced (before.publish entries)))
    (whenFailed : Kept ns before (failed before)) :
    Kept ns before
      (before.exchangeAssoc thread map sym value replaced failed) := by
  unfold State.exchangeAssoc
  cases associated : assocEntries symbolEquals sym value (before.maps map) with
  | none =>
      exact Kept.finish invariant thread
        (by intro _ _ impossible; cases impossible)
  | some entries =>
      simp only
      split
      next current =>
          have isAssoc := eq_assoc_of_assocEntries associated
          rw [← current] at isAssoc
          exact whenReplaced entries isAssoc current
      next => exact whenFailed

theorem kept_start
    (invariant : Invariant ns before)
    (thread : Thread)
    (call : Call) :
    Kept ns before (before.start thread call) := by
  have refused : Kept ns before (before.finish thread .threw) :=
    Kept.finish invariant thread (by intro _ _ impossible; cases impossible)
  cases call with
  | intern sym =>
      simp only [State.start]
      split
      · apply Kept.goto invariant thread
        intro created isCreated
        cases isCreated
      · exact refused
  | reference sym val =>
      simp only [State.start]
      split
      · exact Kept.goto invariant thread (.referenceLoad sym val) trivial
      · exact refused
  | unmap sym =>
      simp only [State.start]
      split
      · exact Kept.goto invariant thread (.unmapLoad sym) trivial
      · exact refused

/-- The next access of a thread. -/
theorem kept_advance
    (invariant : Invariant ns before)
    (equals : Mapping → Mapping → Bool)
    (thread : Thread)
    {activity : Activity}
    (consistent : Consistent ns before activity)
    (reloadsForeign : ∀ sym v, activity = .replaceReload sym v →
      isInternedMapping ns sym (before.mapping sym) = false)
    {stepped : State × Label}
    (advanced : before.advance ns equals thread activity = some stepped) :
    Kept ns before stepped := by
  have silent (sym : Symbol) (value : Mapping) : ∀ other result,
      Label.silent = .interned other result →
        other = sym ∧ result = value ∧ ∃ v, value = .var v ∧ Owns ns sym v := by
    intro _ _ impossible
    cases impossible
  cases activity with
  | idle => cases advanced
  | internLoad sym v =>
      cases advanced
      exact kept_internDecide invariant thread consistent
  | internExchange sym v map =>
      cases advanced
      obtain ⟨owns, _, unmapped⟩ := consistent
      have reload (state : State) :
          Consistent ns state (.internLoad sym (some v)) := by
        intro created isCreated
        cases isCreated
        exact owns
      apply kept_exchangeAssoc invariant thread
      · intro entries associated current
        subst current
        have foreign : isInternedMapping ns sym (before.mapping sym) =
            false := by
          rw [State.mapping, unmapped]
          rfl
        exact Kept.assoc invariant associated foreign thread _ (reload _)
          (silent sym (.var v))
      · exact Kept.goto invariant thread _ (reload before)
  | replaceExchange sym v map =>
      cases advanced
      obtain ⟨owns, _, foreign⟩ := consistent
      apply kept_exchangeAssoc invariant thread
      · intro entries associated current
        subst current
        apply Kept.assoc invariant associated foreign thread .idle trivial
        intro other result ends
        cases ends
        exact ⟨rfl, rfl, v, rfl, owns⟩
      · exact Kept.goto invariant thread (.replaceReload sym v) owns
  | replaceReload sym v =>
      cases advanced
      apply Kept.goto invariant thread
      exact And.intro consistent ⟨invariant.published, reloadsForeign sym v rfl⟩
  | referenceLoad sym val =>
      cases advanced
      exact kept_referenceDecide invariant equals thread sym val
  | referenceExchange sym val map =>
      cases advanced
      obtain ⟨_, foreign⟩ := consistent
      apply kept_exchangeAssoc invariant thread
      · intro entries associated current
        subst current
        apply Kept.assoc invariant associated foreign thread .idle trivial
        intro _ _ impossible
        cases impossible
      · exact Kept.goto invariant thread (.referenceLoad sym val) trivial
  | unmapLoad sym =>
      simp only [State.advance] at advanced
      split at advanced
      · cases advanced
        exact Kept.finish invariant thread
          (by intro _ _ impossible; cases impossible)
      · cases advanced
        apply Kept.goto invariant thread
        exact invariant.published
  | unmapExchange sym map =>
      simp only [State.advance] at advanced
      split at advanced
      next current =>
          cases advanced
          subst current
          exact Kept.dissoc invariant sym thread
      next =>
          cases advanced
          exact Kept.goto invariant thread (.unmapLoad sym) trivial

theorem kept_step
    (invariant : Invariant ns before)
    {equals : Mapping → Mapping → Bool}
    {action : Action}
    (reloadsForeign : ReloadsForeign ns before action)
    {stepped : State × Label}
    (isStep : before.step ns equals action = some stepped) :
    Kept ns before stepped := by
  cases action with
  | call thread call =>
      simp only [State.step] at isStep
      split at isStep
      · cases isStep
        exact kept_start invariant thread call
      · cases isStep
  | advance thread =>
      exact kept_advance invariant equals thread (invariant.consistent thread)
        reloadsForeign isStep

end Steps

/-! ## Runs keep interned Vars -/

section Main

variable {ns : Nat} (equals : Mapping → Mapping → Bool)

theorem Run.kept
    {before after : State}
    {labels : List Label}
    (run : Run ns equals (ReloadsForeign ns) before labels after)
    (invariant : Invariant ns before) :
    Invariant ns after ∧
      ∀ sym, Label.unmapped sym ∉ labels →
        Canonical ns sym before labels after := by
  induction run with
  | refl state =>
      refine ⟨invariant, fun sym _ => ?_⟩
      constructor
      · intro v _ mapped
        exact mapped
      · intro result member
        cases member
  | step meets stepped rest inductionHypothesis =>
      have first := kept_step invariant meets stepped
      obtain ⟨holds, later⟩ := inductionHypothesis first.invariant
      refine ⟨holds, fun sym notUnmapped => ?_⟩
      rw [List.mem_cons, not_or] at notUnmapped
      have now := first.canonical sym (Ne.symm notUnmapped.1)
      have onwards := later sym notUnmapped.2
      constructor
      · intro v owns mapped
        exact onwards.kept v owns (now.kept v owns mapped)
      · intro result member
        rcases List.mem_cons.mp member with isNow | isLater
        · obtain ⟨v, isVar, owns, mapped⟩ :=
            now.returned result (by simp [isNow])
          exact ⟨v, isVar, owns, onwards.kept v owns mapped⟩
        · exact onwards.returned result isLater

/-- Between two unmaps of a symbol, the interned Var that it is mapped to stays,
and all interns of the symbol return it, provided that no retry of a replacement
finds the symbol mapped to an interned Var. -/
theorem canonical_of_reloadsForeign
    (entries : Entries)
    {between after : State}
    {earlier labels : List Label}
    (start : Run ns equals (ReloadsForeign ns) (State.initial entries) earlier
      between)
    (stretch : Run ns equals (ReloadsForeign ns) between labels after)
    (sym : Symbol)
    (notUnmapped : Label.unmapped sym ∉ labels) :
    Canonical ns sym between labels after := by
  have invariant := (start.kept equals (invariant_initial ns entries)).1
  exact (stretch.kept equals invariant).2 sym notUnmapped

/-- The first intern of a symbol. -/
theorem canonical_of_reloadsForeign_intern :
    ∃ after, Canonical 7 ⟨none, "x"⟩ (State.initial [])
      [.silent, .silent, .silent, .interned ⟨none, "x"⟩ (.var ⟨0, some 7, ⟨none, "x"⟩⟩)]
      after := by
  let call : Action := .call 0 (.intern ⟨none, "x"⟩)
  let advance : Action := .advance 0
  have goesOn (state : State)
      (notReloading : ∀ sym v, state.threads 0 ≠ .replaceReload sym v) :
      ReloadsForeign 7 state advance :=
    fun sym v reloading => absurd reloading (notReloading sym v)
  refine ⟨_, canonical_of_reloadsForeign (fun _ _ => false) [] (.refl _)
    (.step (show ReloadsForeign 7 _ call from trivial) rfl
      (.step (goesOn _ ?_) rfl
        (.step (goesOn _ ?_) rfl (.step (goesOn _ ?_) rfl (.refl _)))))
    ⟨none, "x"⟩ (by decide)⟩
  all_goals
    intro sym v reloading
    cases reloading

/-- Two threads intern a symbol that refers to a Var of another namespace.  Both
come to the replacement loop before either replaces the mapping; the one that is
late replaces the Var of the other. -/
theorem racing_interns_not_canonical :
    ¬ ∀ (ns : Nat) (equals : Mapping → Mapping → Bool) (entries : Entries)
        (between after : State) (earlier labels : List Label),
      Run ns equals (fun _ _ => True) (State.initial entries) earlier between →
      Run ns equals (fun _ _ => True) between labels after →
      ∀ sym, Label.unmapped sym ∉ labels →
        Canonical ns sym between labels after := by
  intro canonical
  let sym : Symbol := ⟨none, "x"⟩
  let entries : Entries := [(sym, .var ⟨100, some 8, sym⟩)]
  let race : List Action :=
    [.call 0 (.intern sym), .call 1 (.intern sym), .advance 0, .advance 1,
      .advance 0,
      .advance 1, .advance 1, .advance 1]
  have raced : (perform 7 (fun _ _ => false) race (State.initial entries)).map
    Prod.snd =
      some [.silent, .silent, .silent, .silent,
        .interned sym (.var ⟨0, some 7, sym⟩),
        .silent, .silent, .interned sym (.var ⟨1, some 7, sym⟩)] := by
    decide
  obtain ⟨⟨after, labels⟩, performed, isLabels⟩ :=
    Option.map_eq_some_iff.mp raced
  have stretch := canonical 7 (fun _ _ => false) entries _ after [] labels
    (.refl _) (Run.perform performed) sym
    (by simp only at isLabels; rw [isLabels]; decide)
  simp only at isLabels
  obtain ⟨first, isFirst, _, mappedFirst⟩ :=
    stretch.returned (.var ⟨0, some 7, sym⟩) (by rw [isLabels]; decide)
  obtain ⟨second, isSecond, _, mappedSecond⟩ :=
    stretch.returned (.var ⟨1, some 7, sym⟩) (by rw [isLabels]; decide)
  rw [mappedFirst, ← isFirst, ← isSecond] at mappedSecond
  exact absurd mappedSecond (by decide)

end Main

end Namespace
end Runtime
end ClojureRt
