import ClojureRt.Runtime.NamespaceCalls.Failures
import ClojureRt.Runtime.PersistentArrayMap.Conservation

/-!
# The counts around namespaces

Callers hold references, and any number of calls are under way on any
namespaces.  As long as no step meets a map without room for its symbol or
rejects a new mapping, every count is that of the references to the object: a
call takes those of its arguments, gives that of its result, and leaves nothing
behind.
-/

namespace ClojureRt
namespace Runtime
namespace NamespaceCalls

open RefCount RefCount.Program
open ClojureRt.Runtime.PersistentArrayMap
  (Address RTValue ArrayMap Object MapHeap Code addresses emptyArrayMap Framed)

/-! ## Callers and calls -/

/-- A call under way, and whether it has put a map into a field. -/
structure Pending where
  activity : Activity
  written : Bool
  deriving DecidableEq

/-- The heap, the references of the callers, and the calls under way. -/
structure State where
  heap : MapHeap
  held : Multiset Address
  calls : Multiset Pending

/-- The references that a caller gets. -/
def Progress.given : Progress → Multiset Address
  | .returns value => valueRefs value
  | _ => 0

/-- What remains of a call. -/
def Progress.pending (written : Bool) : Progress → Multiset Pending
  | .goto activity => {⟨activity, written⟩}
  | _ => 0

/-- What is still there has not changed. -/
def Kept (before after : MapHeap) : Prop :=
  ∀ address object now, before.object? address = some object →
    after.object? address = some now → now = object

namespace State

/-- The references that are held on the heap from outside. -/
def owned (state : State) : Multiset Address :=
  state.held + (state.calls.map fun pending => pending.activity.held).sum

/-- Every count is that of the references. -/
def Conserved (state : State) : Prop :=
  PersistentArrayMap.Holdings.Conserved ⟨state.heap, state.owned⟩

/-- The state after a step of a call among others. -/
def resolved
    (state : State)
    (others : Multiset Pending)
    (written : Bool)
    (progress : Progress)
    (after : MapHeap) : State where
  heap := after
  held := state.held + progress.given
  calls := progress.pending written + others

/-- No call is under way, and every count is that of the references. -/
structure Initial (state : State) : Prop where
  conserved : state.Conserved
  typed : Typed state.heap
  calls : state.calls = 0

end State

/-- A step of a caller, or of a call that meets a condition. -/
inductive Step
    (equals : MapHeap → RTValue → RTValue → Bool)
    (condition : MapHeap → Activity → Prop) : State → State → Prop
  | call
      (before : State)
      (call : Call)
      (isHeld : call.consumed ≤ before.held)
      (typed : (Activity.called call).Typed before.heap) :
      Step equals condition before
        ⟨before.heap, before.held - call.consumed,
          ⟨.called call, false⟩ ::ₘ before.calls⟩
  | advance
      (before : State)
      (pending : Pending)
      (others : Multiset Pending)
      (progress : Progress)
      (after : MapHeap)
      (written : Bool)
      (isPending : before.calls = pending ::ₘ others)
      (meets : condition before.heap pending.activity)
      (result : advance equals pending.activity before.heap =
        some (progress, after))
      (isWritten : written = true ↔ pending.written = true ∨
        ¬ Kept before.heap after) :
      Step equals condition before
        (before.resolved others written progress after)
  | retain
      (before : State)
      (address : Address)
      (after : MapHeap)
      (isHeld : address ∈ before.held)
      (result : RefCount.Program.retain address before.heap =
        some ((), after)) :
      Step equals condition before ⟨after, {address} + before.held,
        before.calls⟩
  | release
      (before : State)
      (address : Address)
      (after : MapHeap)
      (isHeld : address ∈ before.held)
      (result : RefCount.Program.release address before.heap =
        some ((), after)) :
      Step equals condition before ⟨after, before.held - {address},
        before.calls⟩
  | create
      (before : State)
      (kind : Kind)
      (references : List Address)
      (address : Address)
      (after : MapHeap)
      (noNamespace : kind ≠ .namespaceType)
      (isHeld : (references : Multiset Address) ≤ before.held)
      (result : allocate (kind.object references) before.heap =
        some (address, after)) :
      Step equals condition before
        ⟨after, {address} + (before.held - references), before.calls⟩

/-- The states that steps which meet a condition lead to. -/
abbrev Reaches
    (equals : MapHeap → RTValue → RTValue → Bool)
    (condition : MapHeap → Activity → Prop) : State → Prop :=
  TransitionSystem.Reachable State.Initial (Step equals condition)

/-! ## The invariant -/

theorem Progress.held_eq (progress : Progress) (written : Bool) :
    progress.held =
      progress.given +
        ((progress.pending written).map fun pending =>
        pending.activity.held).sum := by
  cases progress <;> simp [held, given, pending]

theorem kept_of_holding
    {before after : MapHeap}
    {consumed held : Multiset Address}
    (holding : Holding before consumed (fun _ => False) after held) :
    Kept before after :=
  fun _ _ _ found isNow => holding.effect.object_eq found id isNow

namespace State

variable {state : State}

theorem conserved_iff :
    state.Conserved ↔ ∀ address,
      state.heap.excess address = counts state.owned address +
        own emptyArrayMap address := by
  apply forall_congr'
  intro address
  unfold Heap.excess counts
  dsimp only
  omega

theorem Conserved.covers
    (conserved : state.Conserved)
    {held : Multiset Address}
    (isOwned : held ≤ state.owned) : Covers state.heap held := by
  have all : Covers state.heap state.owned := by
    intro address
    rw [conserved_iff.mp conserved address]
  exact all.mono isOwned

theorem le_owned {pending : Pending} (isPending : pending ∈ state.calls) :
    pending.activity.held ≤ state.owned := by
  obtain ⟨others, isCalls⟩ := Multiset.exists_cons_of_mem isPending
  rw [owned, isCalls, Multiset.map_cons, Multiset.sum_cons, add_left_comm]
  exact Multiset.le_add_right _ _

/-- What a call holds, and the rest. -/
theorem owned_eq
    {pending : Pending}
    {others : Multiset Pending}
    (isPending : state.calls = pending ::ₘ others) :
    state.owned = pending.activity.held +
      (state.held + (others.map fun pending => pending.activity.held).sum) := by
  rw [owned, isPending, Multiset.map_cons, Multiset.sum_cons, add_left_comm]

theorem owned_resolved
    {others : Multiset Pending}
    {written : Bool}
    {progress : Progress}
    {after : MapHeap} :
    (state.resolved others written progress after).owned = progress.held +
      (state.held + (others.map fun pending => pending.activity.held).sum) := by
  rw [owned, resolved, Multiset.map_add, Multiset.sum_add,
    progress.held_eq written]
  dsimp only
  abel

/-- The counts are right after a step if and only if it turns what the call held
into what is behind the step. -/
theorem Conserved.resolved_iff
    (conserved : state.Conserved)
    {pending : Pending}
    {others : Multiset Pending}
    {written : Bool}
    {progress : Progress}
    {after : MapHeap}
    (isPending : state.calls = pending ::ₘ others) :
    (state.resolved others written progress after).Conserved ↔ ∀ address,
      after.excess address = state.heap.excess address +
        (counts progress.held - counts pending.activity.held) address := by
  rw [conserved_iff, owned_resolved]
  apply forall_congr'
  intro address
  rw [conserved_iff.mp conserved address, owned_eq isPending]
  simp only [counts_add, Pi.add_apply, Pi.sub_apply, State.resolved]
  omega

/-- The counts are right, and what is under way has the types that it needs. -/
structure Invariant (state : State) : Prop where
  conserved : state.Conserved
  heapTyped : Typed state.heap
  typed : ∀ pending ∈ state.calls, pending.activity.Typed state.heap
  interns : ∀ pending ∈ state.calls, pending.written = true →
    pending.activity.Interns

end State

theorem Activity.Typed.kept
    {before after : MapHeap}
    {consumed held : Multiset Address}
    {changed : Address → Prop}
    {activity : Activity}
    (typed : activity.Typed before)
    (holding : Holding before consumed changed after held) :
    activity.Typed after where
  ns := holding.isNamespace typed.ns
  newMap := by
    intro newMap isNew
    apply holding.is_kept _ (typed.newMap newMap isNew)
    rintro object ⟨map, rfl, _⟩ ⟨ns, isNamespace⟩
    cases isNamespace
  sym := by
    intro sym isSym
    apply holding.is_kept _ (typed.sym sym isSym)
    rintro object ⟨qualified, text, isSymbol⟩ ⟨ns, isNamespace⟩
    rw [eq_of_ofObject isNamespace] at isSymbol
    cases isSymbol

namespace State

variable
  {equals : MapHeap → RTValue → RTValue → Bool}
  {state : State}

/-- The invariant after something that leaves the calls alone. -/
theorem Invariant.of_holding
    (invariant : state.Invariant)
    {taken given : Multiset Address}
    {after : MapHeap}
    (isHeld : taken ≤ state.held)
    (holding : Holding state.heap taken (fun _ => False) after given) :
    Invariant ⟨after, given + (state.held - taken), state.calls⟩ where
  conserved := by
    rw [conserved_iff]
    intro address
    have before := conserved_iff.mp invariant.conserved address
    have effect := holding.effect.excess address
    have split : state.held = taken + (state.held - taken) :=
      (add_tsub_cancel_of_le isHeld).symm
    have ownedBefore : state.owned = taken + (state.held - taken +
        (state.calls.map fun pending => pending.activity.held).sum) := by
      rw [owned, ← add_assoc, ← split]
    have ownedAfter : owned ⟨after, given + (state.held - taken), state.calls⟩ =
        given + (state.held - taken +
          (state.calls.map fun pending => pending.activity.held).sum) :=
      add_assoc _ _ _
    rw [ownedBefore, counts_add, Pi.add_apply] at before
    rw [Pi.sub_apply] at effect
    rw [ownedAfter, counts_add, Pi.add_apply]
    dsimp only
    omega
  heapTyped := holding.typed
  typed := fun pending isPending =>
    (invariant.typed pending isPending).kept holding
  interns := invariant.interns

theorem Invariant.begins
    (framed : Framed equals)
    (invariant : state.Invariant)
    {pending : Pending}
    (isPending : pending ∈ state.calls) :
    Begins equals state.heap pending.activity where
  framed := framed
  covers := invariant.conserved.covers (le_owned isPending)
  heapTyped := invariant.heapTyped
  typed := invariant.typed pending isPending

/-- The invariant after a step that accounts for its references. -/
theorem Invariant.of_advances
    (invariant : state.Invariant)
    {pending : Pending}
    {others : Multiset Pending}
    {written : Bool}
    {progress : Progress}
    {after : MapHeap}
    (isPending : state.calls = pending ::ₘ others)
    (isWritten : written = true → pending.written = true ∨
      ¬ Kept state.heap after)
    (advances : Advances state.heap pending.activity progress after) :
    (state.resolved others written progress after).Invariant := by
  obtain ⟨changed, holding, quiet⟩ := advances.exists_changed
  have inCalls : pending ∈ state.calls := by simp [isPending]
  have others_typed (other : Pending) (isOther : other ∈ others) :
      other ∈ state.calls := by
    simp [isPending, isOther]
  have ofCalls (other : Pending)
      (isIn : other ∈ (state.resolved others written progress after).calls) :
      (progress = .goto other.activity ∧ other.written = written) ∨
      other ∈ others := by
    cases Multiset.mem_add.mp isIn with
    | inl isNext =>
        cases progress with
        | goto next =>
            rw [Multiset.mem_singleton.mp isNext]
            exact Or.inl ⟨rfl, rfl⟩
        | returns value => cases isNext
        | returnsVoid => cases isNext
        | throws exception => cases isNext
    | inr isOther => exact Or.inr isOther
  constructor
  · exact (invariant.conserved.resolved_iff isPending).mpr holding.effect.excess
  · exact holding.typed
  · intro other isIn
    cases ofCalls other isIn with
    | inl isNext => exact advances.typed other.activity isNext.1
    | inr isOther =>
        exact (invariant.typed other (others_typed other isOther)).kept holding
  · intro other isIn otherWritten
    cases ofCalls other isIn with
    | inl isNext =>
        by_contra notInterns
        have isQuiet : progress.Quiet := by
          rw [isNext.1]
          exact notInterns
        rw [quiet isQuiet] at holding
        rw [isNext.2] at otherWritten
        rcases isWritten otherWritten with before | notKept
        · exact advances.interns
            (invariant.interns pending inCalls before) isQuiet
        · exact notKept (kept_of_holding holding)
    | inr isOther =>
        exact invariant.interns other (others_typed other isOther) otherWritten

/-- Every step that accounts for its references keeps the invariant. -/
theorem invariant_step
    (framed : Framed equals)
    {before after : State}
    (invariant : before.Invariant)
    (stepped : Step equals (Accounts equals) before after) :
    after.Invariant := by
  have held_le {taken : Multiset Address} (isHeld : taken ≤ before.held) :
      taken ≤ before.owned := isHeld.trans (Multiset.le_add_right _ _)
  have holding {taken : Multiset Address} (isHeld : taken ≤ before.held) :
      Holding before.heap taken (fun _ => False) before.heap taken :=
    .start (invariant.conserved.covers (held_le isHeld)) invariant.heapTyped
  cases stepped with
  | call call isHeld typed =>
      have sameOwned : owned ⟨before.heap, before.held - call.consumed,
          ⟨.called call, false⟩ ::ₘ before.calls⟩ = before.owned := by
        rw [owned, Multiset.map_cons, Multiset.sum_cons, ← add_assoc]
        change before.held - call.consumed + call.consumed + _ = before.owned
        rw [tsub_add_cancel_of_le isHeld, owned]
      constructor
      · have conserved := conserved_iff.mp invariant.conserved
        rw [← sameOwned] at conserved
        exact conserved_iff.mpr conserved
      · exact invariant.heapTyped
      · intro pending isPending
        cases Multiset.mem_cons.mp isPending with
        | inl isCall =>
            rw [isCall]
            exact typed
        | inr isOther => exact invariant.typed pending isOther
      · intro pending isPending isWritten
        cases Multiset.mem_cons.mp isPending with
        | inl isCall =>
            rw [isCall] at isWritten
            cases isWritten
        | inr isOther => exact invariant.interns pending isOther isWritten
  | advance pending others progress after written isPending meets result
      isWritten =>
      have inCalls : pending ∈ before.calls := by simp [isPending]
      obtain ⟨_, _, isResult, advances⟩ :=
        runs_advance (invariant.begins framed inCalls) meets
      rw [result, Option.some.injEq, Prod.mk.injEq] at isResult
      rw [← isResult.1, ← isResult.2] at advances
      exact invariant.of_advances isPending isWritten.mp advances
  | retain address after isHeld result =>
      have isOne : {address} ≤ before.held := Multiset.singleton_le.mpr isHeld
      have start := holding isOne
      have runs : Runs (RefCount.Program.retain address) before.heap
        fun _ later =>
          Holding before.heap {address} (fun _ => False) later
            ({address} + {address}) := by
        apply start.runs_retain
          (start.covers.present (Multiset.mem_singleton_self address))
        exact fun later _ laterHolding => laterHolding
      have afterInvariant :=
        invariant.of_holding isOne (runs.ensures.of_result () after result)
      rwa [add_assoc, add_tsub_cancel_of_le isOne] at afterInvariant
  | release address after isHeld result =>
      have isOne : {address} ≤ before.held := Multiset.singleton_le.mpr isHeld
      have runs : Runs (RefCount.Program.release address) before.heap
        fun _ later =>
          Holding before.heap {address} (fun _ => False) later 0 := by
        apply ((holding isOne).congr (add_zero {address}).symm).runs_release
        exact fun later laterHolding => laterHolding
      have afterInvariant :=
        invariant.of_holding isOne (runs.ensures.of_result () after result)
      rwa [zero_add] at afterInvariant
  | create kind references address after noNamespace isHeld result =>
      have runs : Runs (allocate (kind.object references)) before.heap
        fun new later =>
          Holding before.heap references (fun _ => False) later {new} := by
        apply ((holding isHeld).congr (add_zero _).symm).runs_allocate
          noNamespace
        intro later _ laterHolding
        exact laterHolding.congr (add_zero _)
      exact invariant.of_holding isHeld
        (runs.ensures.of_result address after result)

theorem invariant_of_reaches
    (framed : Framed equals)
    (reaches : Reaches equals (Accounts equals) state) : state.Invariant := by
  apply reaches.invariant
  · intro start initially
    refine ⟨initially.conserved, initially.typed, ?_, ?_⟩
    · simp [initially.calls]
    · simp [initially.calls]
  · exact fun before after _ invariant stepped =>
      invariant_step framed invariant stepped

/-! ## Steps that go wrong -/

/-- A call that leaves a reference behind. -/
theorem Conserved.not_of_leaks
    (conserved : state.Conserved)
    {pending : Pending}
    {others : Multiset Pending}
    {progress : Progress}
    {after : MapHeap}
    (isPending : state.calls = pending ::ₘ others)
    (leaks : Leaks state.heap pending.activity progress after) :
    ¬ (state.resolved others pending.written progress after).Conserved := by
  obtain ⟨exception, leaked, rfl, isLeaked, holding⟩ := leaks
  rw [conserved.resolved_iff isPending]
  intro balances
  have tooHigh := holding.effect.excess pending.activity.ns
  rw [balances, Pi.sub_apply, Pi.sub_apply, Progress.held, counts_zero,
    Pi.zero_apply] at tooHigh
  have := counts_pos isLeaked
  omega

/-- A call that gives up a reference too many. -/
theorem Conserved.not_of_overreleases
    (conserved : state.Conserved)
    {pending : Pending}
    {others : Multiset Pending}
    {progress : Progress}
    {after : MapHeap}
    (isPending : state.calls = pending ::ₘ others)
    (overreleases : Overreleases state.heap pending.activity progress after) :
    ¬ (state.resolved others pending.written progress after).Conserved := by
  obtain ⟨⟨exception, rfl⟩, tooLow⟩ := overreleases
  rw [conserved.resolved_iff isPending]
  intro balances
  rw [balances, Pi.sub_apply, Progress.held, counts_zero,
    Pi.zero_apply] at tooLow
  omega

/-- A step accounts for its references exactly if the counts are right after
it. -/
theorem Invariant.accounts_iff
    (framed : Framed equals)
    (invariant : state.Invariant)
    {pending : Pending}
    {others : Multiset Pending}
    (isPending : state.calls = pending ::ₘ others) :
    Accounts equals state.heap pending.activity ↔
      ∃ progress after,
        advance equals pending.activity state.heap = some (progress, after) ∧
        (state.resolved others pending.written progress after).Conserved := by
  have begins :=
    invariant.begins framed (show pending ∈ state.calls by simp [isPending])
  constructor
  · intro accounts
    obtain ⟨progress, after, result, advances⟩ := runs_advance begins accounts
    have keeps : pending.written = true → pending.written = true ∨
        ¬ Kept state.heap after :=
      Or.inl
    exact ⟨progress, after, result,
      (invariant.of_advances isPending keeps advances).conserved⟩
  · rintro ⟨progress, after, result, conserved⟩
    constructor
    · intro crowded
      have leaks :=
        (runs_crowded begins crowded).ensures.of_result progress after result
      exact invariant.conserved.not_of_leaks isPending leaks conserved
    · intro rejects
      have overreleases :=
        (ensures_rejected begins rejects).of_result progress after result
      exact invariant.conserved.not_of_overreleases isPending overreleases
        conserved

/-- A call that throws has changed nothing. -/
theorem Invariant.kept_of_throws
    (framed : Framed equals)
    (invariant : state.Invariant)
    {pending : Pending}
    (isPending : pending ∈ state.calls)
    (accounts : Accounts equals state.heap pending.activity)
    {exception : Exception}
    {after : MapHeap}
    (result : advance equals pending.activity state.heap =
      some (.throws exception, after)) :
    pending.written = false ∧ Kept state.heap after := by
  have advances :=
    (runs_advance (invariant.begins framed isPending)
      accounts).ensures.of_result
    (.throws exception) after result
  obtain ⟨changed, holding, quiet⟩ := advances.exists_changed
  rw [quiet trivial] at holding
  refine ⟨?_, kept_of_holding holding⟩
  rw [← Bool.not_eq_true]
  intro written
  exact advances.interns (invariant.interns pending isPending written) trivial

end State

/-- As long as no step meets a map without room for its symbol or rejects a
new mapping, every count is that of the references, every call has a next
step, and a call that throws has changed no map.  After any other step a
count is wrong. -/
theorem conserved_of_accounts
    {equals : MapHeap → RTValue → RTValue → Bool}
    (framed : Framed equals)
    {state : State}
    (reaches : Reaches equals (Accounts equals) state) :
    state.Conserved ∧
      ∀ pending others, state.calls = pending ::ₘ others →
        (Accounts equals state.heap pending.activity ↔
          ∃ progress after,
            advance equals pending.activity state.heap =
            some (progress, after) ∧
            (state.resolved others pending.written progress after).Conserved) ∧
        (Accounts equals state.heap pending.activity →
          ∀ exception after,
            advance equals pending.activity state.heap =
              some (.throws exception, after) →
            pending.written = false ∧ Kept state.heap after) := by
  have invariant := State.invariant_of_reaches framed reaches
  refine ⟨invariant.conserved, ?_⟩
  intro pending others isPending
  refine ⟨invariant.accounts_iff framed isPending, ?_⟩
  intro accounts exception after result
  exact invariant.kept_of_throws framed (by simp [isPending]) accounts result

/-! ## A mapping to an interned Var -/

/-- The comparison of words and of addresses. -/
def sameWord (_ : MapHeap) (first second : RTValue) : Bool :=
  decide (first = second)

theorem framed_sameWord : Framed sameWord where
  frame := fun _ _ _ _ _ => rfl

/-- The namespace 2 has interned the Var 3 under the symbol 1.  The caller holds
two references to the symbol and the namespace, and one to the Var. -/
def internedVar : State where
  heap := ((((Heap.empty.set 0 (some ⟨2, .map ⟨[], .boxNil⟩⟩)).set 1
    (some ⟨5, (Kind.symbolType false 0).object []⟩)).set 2
    (some ⟨2, Namespace.object ⟨1, 4, 0⟩⟩)).set 3
    (some ⟨2, (Kind.varType (some 2)).object [1]⟩)).set 4
    (some ⟨1, .map ⟨[(.pointer 1, .pointer 3)], .boxNil⟩⟩)
  held := {1, 1, 2, 2, 3}
  calls := 0

/-- The state after a call has taken its references and passed its checks. -/
def afterChecks (call : Call) (next : Activity) : State where
  heap := internedVar.heap
  held := internedVar.held - call.consumed
  calls := {⟨next, false⟩}

theorem all_internedVar
    {valid : Address → Object → Prop}
    (empty : valid 0 (.map ⟨[], .boxNil⟩))
    (sym : valid 1 ((Kind.symbolType false 0).object []))
    (ns : valid 2 (Namespace.object ⟨1, 4, 0⟩))
    (var : valid 3 ((Kind.varType (some 2)).object [1]))
    (mappings : valid 4 (.map ⟨[(.pointer 1, .pointer 3)], .boxNil⟩)) :
    internedVar.heap.All valid := by
  have nothing : (Heap.empty : MapHeap).All valid := by
    intro address object found
    cases found
  exact ((((nothing.set empty).set sym).set ns).set var).set mappings

theorem typed_internedVar : Typed internedVar.heap where
  fields := by
    have all : internedVar.heap.All fun _ object => ∀ ns,
      Namespace.ofObject object = some ns →
        ∀ field, Is IsMap internedVar.heap (ns.get field) := by
      apply all_internedVar
      · rintro ns ⟨⟩
      · rintro ns ⟨⟩
      · rintro ns ⟨⟩ field
        cases field with
        | mappings =>
            refine .of_found rfl ⟨_, rfl, fun entry isEntry => ?_⟩
            rw [List.mem_singleton.mp isEntry]
            exact ⟨1, rfl⟩
        | aliases => exact .of_found rfl ⟨_, rfl, fun entry isEntry => nomatch isEntry⟩
      · rintro ns ⟨⟩
      · rintro ns ⟨⟩
    exact fun address object ns found => all address object found ns

theorem initial_internedVar : internedVar.Initial where
  conserved := PersistentArrayMap.Holdings.conserved_of_below (by decide)
    (by decide) (by decide) (by decide)
  typed := typed_internedVar
  calls := rfl

/-- The state after a call has taken its references. -/
def afterCall (call : Call) : State where
  heap := internedVar.heap
  held := internedVar.held - call.consumed
  calls := ⟨.called call, false⟩ ::ₘ 0

/-- The steps up to the first load. -/
theorem reaches_afterChecks
    {condition : MapHeap → Activity → Prop}
    (meets : ∀ heap call, condition heap (.called call))
    {call : Call}
    {next : Activity}
    (isHeld : call.consumed ≤ internedVar.held)
    (typed : (Activity.called call).Typed internedVar.heap)
    (result : called call internedVar.heap =
      some (.goto next, internedVar.heap)) :
    Reaches sameWord condition (afterChecks call next) := by
  have begin : Step sameWord condition internedVar (afterCall call) :=
    .call internedVar call isHeld typed
  have unchanged : Kept internedVar.heap internedVar.heap := by
    intro address object now found isNow
    rw [found, Option.some.injEq] at isNow
    exact isNow.symm
  have check : Step sameWord condition (afterCall call)
      ((afterCall call).resolved 0 false (.goto next) internedVar.heap) :=
    .advance (afterCall call) ⟨.called call, false⟩ 0 _ _ false rfl
      (meets internedVar.heap call) result (by simp [afterCall, unchanged])
  have isAfter : (afterCall call).resolved 0 false (.goto next)
    internedVar.heap =
      afterChecks call next := by
    simp [State.resolved, afterCall, afterChecks, Progress.given,
      Progress.pending]
  rw [isAfter] at check
  exact ((TransitionSystem.Reachable.of_initial initial_internedVar).tail
    begin).tail check

theorem typed_called
    {call : Call}
    (isNs : call.ns = 2)
    (isSym : call.sym? = some 1) :
    (Activity.called call).Typed internedVar.heap where
  ns := by
    rw [Activity.ns, isNs]
    exact .of_found rfl ⟨⟨1, 4, 0⟩, rfl⟩
  newMap := by simp [Activity.newMap?]
  sym := by
    rw [Activity.unchecked?, isSym]
    rintro sym ⟨⟩
    exact .of_found rfl ⟨false, 0, rfl⟩

theorem accounts_called
    {equals : MapHeap → RTValue → RTValue → Bool}
    (heap : MapHeap)
    (call : Call) : Accounts equals heap (.called call) := by
  refine ⟨?_, id⟩
  rintro ⟨field, self, sym, map, found, isGrowing, _⟩
  cases isGrowing

/-- A call of `Namespace_intern` that has passed its checks. -/
theorem afterChecks_conserved :
    (afterChecks (.intern 2 1) (.internLoad 2 1 none)).Conserved ∧
      ∀ pending others,
        (afterChecks (.intern 2 1) (.internLoad 2 1 none)).calls =
        pending ::ₘ others →
        (Accounts sameWord internedVar.heap pending.activity ↔
          ∃ progress after,
            advance sameWord pending.activity internedVar.heap =
              some (progress, after) ∧
            ((afterChecks (.intern 2 1) (.internLoad 2 1 none)).resolved others
              pending.written progress after).Conserved) ∧
        (Accounts sameWord internedVar.heap pending.activity →
          ∀ exception after,
            advance sameWord pending.activity internedVar.heap =
              some (.throws exception, after) →
            pending.written = false ∧ Kept internedVar.heap after) := by
  apply conserved_of_accounts framed_sameWord
  apply reaches_afterChecks
  · exact accounts_called
  · decide
  · exact typed_called rfl rfl
  · rfl

/-- What `Namespace_reference` does when it refuses to replace the Var. -/
def rejected : Option (Progress × MapHeap) :=
  advance sameWord (.referenceLoad 2 1 (.boxInt32 1)) internedVar.heap

/-- After the rejected mapping the namespace is gone, while the caller still
holds it. -/
theorem rejected_not_conserved :
    (∃ after, rejected = some (.throws (.alreadyRefers 1 (.pointer 3) 2),
      after) ∧
      after.count 2 = 0) ∧
    ¬ ∀ state, Reaches sameWord (fun _ _ => True) state → state.Conserved := by
  have isGone : (rejected.map fun result => (result.1, result.2.count 2)) =
      some (.throws (.alreadyRefers 1 (.pointer 3) 2), 0) := by decide
  obtain ⟨⟨progress, after⟩, result, isPair⟩ := Option.map_eq_some_iff.mp isGone
  obtain ⟨rfl, noCount⟩ := Prod.mk.inj isPair
  refine ⟨⟨after, result, noCount⟩, ?_⟩
  intro allConserved
  have reaches : Reaches sameWord (fun _ _ => True)
      (afterChecks (.reference 2 1 (.boxInt32 1))
        (.referenceLoad 2 1 (.boxInt32 1))) :=
    reaches_afterChecks (fun _ _ => trivial) (by decide)
      (typed_called rfl rfl) rfl
  have notConserved (written : Bool)
      (isWritten : written = true ↔ ¬ Kept internedVar.heap after) :
      False := by
    have step : Step sameWord (fun _ _ => True) _ _ :=
      .advance (afterChecks (.reference 2 1 (.boxInt32 1))
        (.referenceLoad 2 1 (.boxInt32 1)))
        ⟨.referenceLoad 2 1 (.boxInt32 1), false⟩ 0 _ after written rfl
        trivial result
        (by simp [afterChecks, isWritten])
    have atNamespace := allConserved _ (reaches.tail step) 2
    have stillHeld : (State.resolved
        (afterChecks (.reference 2 1 (.boxInt32 1))
          (.referenceLoad 2 1 (.boxInt32 1))) 0 written
        (.throws (.alreadyRefers 1 (.pointer 3) 2)) after).owned.count 2 =
          1 := rfl
    have := own_nonneg emptyArrayMap 2
    simp only [State.resolved, noCount] at atNamespace stillHeld
    omega
  by_cases kept : Kept internedVar.heap after
  · exact notConserved false (by simp [kept])
  · exact notConserved true (by simp [kept])

end NamespaceCalls
end Runtime
end ClojureRt
