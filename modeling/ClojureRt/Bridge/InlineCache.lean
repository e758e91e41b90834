import ClojureRt.Lib.TransitionSystem
import Mathlib.Data.Nat.Bitwise
import Mathlib.Logic.Function.Basic

/-!
# Inline caches of instance calls

A call site keeps one pair: a key made of an epoch and a type, and the bridge to
jump to.  Compiled code compares the key with the current epoch and the type of
the instance; when they differ, `InstanceCallSlowPath` compiles a bridge and
stores it under the epoch it reads afterwards.  Updates of the registries bump
the epoch when they are done, except for `extendInternalClasses`, and for a
`storeInternalClasses` whose validation throws after the classes have been
registered.

Every constructor of `Step` is one access of one thread to shared memory,
together with its local work up to the next one.  A bridge stands for the method
resolution at its compile time; what the registries hold is left open, and so is
what a single write of an update does to them.
-/

namespace ClojureRt
namespace Bridge

/-- Threads are numbered. -/
abbrev Thread := Nat

/-- `objectType`: a positive number of 32 bits. -/
structure ObjectType where
  id : Nat
  positive : 0 < id
  bounded : id < 2 ^ 32
  deriving DecidableEq

/-- The key `(epoch << 32) | type`, in a word of 64 bits. -/
def key (epoch : Nat) (type : ObjectType) : Nat :=
  ((epoch <<< 32) ||| type.id) % 2 ^ 64

/-- `InlineCache`.  The null pointer is `none`. -/
structure InlineCache (Method : Type*) where
  key : Nat
  value : Option Method
  deriving DecidableEq

/-- The updates of the registries.  `storeInternalClasses` validates what it has
registered and may throw then. -/
inductive Update
  | storeInternalClasses (validated : Bool)
  | storeInternalProtocols
  | extendInternalClasses
  deriving DecidableEq

/-- Whether the update ends with `atomic_fetch_add(&globalMethodICEpoch, 1)`. -/
def Update.bumps : Update → Bool
  | .storeInternalClasses validated => validated
  | .storeInternalProtocols => true
  | .extendInternalClasses => false

/-- Where a thread stands. -/
inductive Activity (Site Method : Type*)
  | idle
  | updating (update : Update)
  -- the compiled fast path, after it has loaded the slot
  | loaded (site : Site) (type : ObjectType) (pair : InlineCache Method)
  -- InstanceCallSlowPath
  | missed (site : Site) (type : ObjectType)
  | resolved (site : Site) (type : ObjectType) (bridge : Method)
  | reloaded (site : Site) (type : ObjectType) (bridge : Method)
      (currentIC : InlineCache Method)
  | checked (site : Site) (type : ObjectType) (bridge : Method)
      (currentEpoch : Nat)

/-- Shared memory and the threads. -/
structure State (Registries Site Method : Type*) where
  registries : Registries
  globalMethodICEpoch : Nat
  slots : Site → InlineCache Method
  threads : Thread → Activity Site Method

/-- A step may serve a call: the call jumps to this bridge. -/
inductive Label (Site Method : Type*)
  | silent
  | served (site : Site) (type : ObjectType) (bridge : Option Method)

variable {Registries Site Method : Type*}

/-- Slots are zero at first; nobody has called yet. -/
def State.initial (registries : Registries) : State Registries Site Method where
  registries := registries
  globalMethodICEpoch := 0
  slots := fun _ => ⟨0, none⟩
  threads := fun _ => .idle

/-- The state with one thread somewhere else. -/
def State.setThread
    (state : State Registries Site Method)
    (thread : Thread)
    (activity : Activity Site Method) : State Registries Site Method :=
  { state with threads := Function.update state.threads thread activity }

/-- The accesses to shared memory.  `resolve` is the method resolution; without
a method the slow path throws. -/
inductive Step
    [DecidableEq Site]
    (resolve : Registries → Site → ObjectType → Option Method) :
    State Registries Site Method → Label Site Method →
      State Registries Site Method → Prop
  | startUpdate (state : State Registries Site Method) (thread : Thread)
      (update : Update)
      (idle : state.threads thread = .idle) :
      Step resolve state .silent (state.setThread thread (.updating update))
  | writeRegistries (state : State Registries Site Method) (thread : Thread)
      (update : Update)
      (registries : Registries)
      (updating : state.threads thread = .updating update) :
      Step resolve state .silent { state with registries := registries }
  | endUpdate (state : State Registries Site Method) (thread : Thread)
      (update : Update)
      (updating : state.threads thread = .updating update) :
      Step resolve state .silent
        { state.setThread thread .idle with
          globalMethodICEpoch :=
            if update.bumps then (state.globalMethodICEpoch + 1) % 2 ^ 64
            else state.globalMethodICEpoch }
  | loadSlot (state : State Registries Site Method) (thread : Thread)
      (site : Site)
      (type : ObjectType) (idle : state.threads thread = .idle) :
      Step resolve state .silent
        (state.setThread thread (.loaded site type (state.slots site)))
  | hit (state : State Registries Site Method) (thread : Thread) (site : Site)
      (type : ObjectType) (pair : InlineCache Method)
      (loaded : state.threads thread = .loaded site type pair)
      (isHit : pair.key = key state.globalMethodICEpoch type) :
      Step resolve state (.served site type pair.value)
        (state.setThread thread .idle)
  | miss (state : State Registries Site Method) (thread : Thread) (site : Site)
      (type : ObjectType) (pair : InlineCache Method)
      (loaded : state.threads thread = .loaded site type pair)
      (isMiss : pair.key ≠ key state.globalMethodICEpoch type) :
      Step resolve state .silent (state.setThread thread (.missed site type))
  | compileBridge (state : State Registries Site Method) (thread : Thread)
      (site : Site)
      (type : ObjectType) (bridge : Method)
      (missed : state.threads thread = .missed site type)
      (found : resolve state.registries site type = some bridge) :
      Step resolve state .silent
        (state.setThread thread (.resolved site type bridge))
  | compileFails (state : State Registries Site Method) (thread : Thread)
      (site : Site)
      (type : ObjectType) (missed : state.threads thread = .missed site type)
      (notFound : resolve state.registries site type = none) :
      Step resolve state .silent (state.setThread thread .idle)
  | reloadSlot (state : State Registries Site Method) (thread : Thread)
      (site : Site)
      (type : ObjectType) (bridge : Method)
      (resolved : state.threads thread = .resolved site type bridge) :
      Step resolve state .silent
        (state.setThread thread (.reloaded site type bridge (state.slots site)))
  | alreadyUpdated (state : State Registries Site Method) (thread : Thread)
      (site : Site)
      (type : ObjectType) (bridge : Method) (currentIC : InlineCache Method)
      (reloaded : state.threads thread = .reloaded site type bridge currentIC)
      (isExpected : currentIC.key = key state.globalMethodICEpoch type) :
      Step resolve state (.served site type currentIC.value)
        (state.setThread thread .idle)
  | loadEpoch (state : State Registries Site Method) (thread : Thread)
      (site : Site)
      (type : ObjectType) (bridge : Method) (currentIC : InlineCache Method)
      (reloaded : state.threads thread = .reloaded site type bridge currentIC)
      (notExpected : currentIC.key ≠ key state.globalMethodICEpoch type) :
      Step resolve state .silent
        (state.setThread thread
          (.checked site type bridge state.globalMethodICEpoch))
  | storeSlot (state : State Registries Site Method) (thread : Thread)
      (site : Site)
      (type : ObjectType) (bridge : Method) (currentEpoch : Nat)
      (checked : state.threads thread = .checked site type bridge
        currentEpoch) :
      Step resolve state (.served site type (some bridge))
        { state.setThread thread .idle with
          slots := Function.update state.slots site
            ⟨key currentEpoch type, some bridge⟩ }

/-! ## Keys -/

theorem key_eq (epoch : Nat) (type : ObjectType) (small : epoch < 2 ^ 32) :
    key epoch type = epoch * 2 ^ 32 + type.id := by
  have bounded := type.bounded
  rw [key, ← Nat.shiftLeft_add_eq_or_of_lt bounded, Nat.shiftLeft_eq,
    Nat.mod_eq_of_lt]
  omega

/-- Epochs below `2 ^ 32` and types are told apart by their keys. -/
theorem key_injective
    {first second : Nat}
    {firstType secondType : ObjectType}
    (firstSmall : first < 2 ^ 32)
    (secondSmall : second < 2 ^ 32)
    (equal : key first firstType = key second secondType) :
    first = second ∧ firstType = secondType := by
  have firstBounded := firstType.bounded
  have secondBounded := secondType.bounded
  rw [key_eq first firstType firstSmall,
    key_eq second secondType secondSmall] at equal
  have sameId : firstType.id = secondType.id := by omega
  refine ⟨by omega, ?_⟩
  cases firstType
  cases secondType
  cases sameId
  rfl

/-- No key is that of an untouched slot. -/
theorem key_ne_zero
    {epoch : Nat}
    (type : ObjectType)
    (small : epoch < 2 ^ 32) :
    key epoch type ≠ 0 := by
  have positive := type.positive
  rw [key_eq epoch type small]
  omega

/-! ## Undisturbed runs -/

/-- The bridge that a slow path has resolved and not yet returned. -/
def Activity.Resolved
    (site : Site)
    (type : ObjectType)
    (bridge : Method) : Activity Site Method → Prop
  | .resolved otherSite otherType other =>
      otherSite = site ∧ otherType = type ∧ other = bridge
  | .reloaded otherSite otherType other _ =>
      otherSite = site ∧ otherType = type ∧ other = bridge
  | .checked otherSite otherType other _ =>
      otherSite = site ∧ otherType = type ∧ other = bridge
  | _ => False

/-- An update is running that will bump the epoch. -/
def State.BumpAhead (state : State Registries Site Method) : Prop :=
  ∃ thread update, state.threads thread = .updating update ∧ update.bumps = true

/-- No update of the registries is running. -/
def State.Quiet (state : State Registries Site Method) : Prop :=
  ∀ thread update, state.threads thread ≠ .updating update

variable (resolve : Registries → Site → ObjectType → Option Method)

/-- What a step must not do: change a resolution with no bump ahead, bump the
epoch under a slow path whose bridge has become another, or let the epoch
outgrow its half of the key. -/
structure Undisturbed (before after : State Registries Site Method) : Prop where
  announced : before.BumpAhead ∨ ∀ site type,
    resolve after.registries site type = resolve before.registries site type
  settled : after.globalMethodICEpoch ≠ before.globalMethodICEpoch →
    ∀ thread site type bridge,
      (before.threads thread).Resolved site type bridge →
      resolve before.registries site type = some bridge
  bounded : after.globalMethodICEpoch < 2 ^ 32

/-- A step of an undisturbed run. -/
def UndisturbedStep
    [DecidableEq Site]
    (before after : State Registries Site Method) : Prop :=
  (∃ label, Step resolve before label after) ∧ Undisturbed resolve before after

/-! ## The invariant of undisturbed runs -/

/-- A pair read from a slot: its epoch is not ahead, and if it is the current
one, the pair holds what the registries resolve, unless a bump is ahead. -/
def PairCurrent
    (state : State Registries Site Method)
    (site : Site)
    (pair : InlineCache Method) : Prop :=
  ∀ epoch type, epoch < 2 ^ 32 → pair.key = key epoch type →
    epoch ≤ state.globalMethodICEpoch ∧
      (epoch = state.globalMethodICEpoch → ¬ state.BumpAhead →
        ∃ bridge, pair.value = some bridge ∧
          resolve state.registries site type = some bridge)

/-- A bridge that a slow path holds. -/
def BridgeCurrent
    (state : State Registries Site Method)
    (site : Site)
    (type : ObjectType)
    (bridge : Method) : Prop :=
  ¬ state.BumpAhead → resolve state.registries site type = some bridge

/-- What a thread holds. -/
def ThreadCurrent (state : State Registries Site Method) :
    Activity Site Method → Prop
  | .loaded site _ pair => PairCurrent resolve state site pair
  | .resolved site type bridge => BridgeCurrent resolve state site type bridge
  | .reloaded site type bridge currentIC =>
      BridgeCurrent resolve state site type bridge ∧
        PairCurrent resolve state site currentIC
  | .checked site type bridge currentEpoch =>
      BridgeCurrent resolve state site type bridge ∧
        currentEpoch ≤ state.globalMethodICEpoch
  | _ => True

/-- Everything held in slots and threads is current. -/
structure Current (state : State Registries Site Method) : Prop where
  bounded : state.globalMethodICEpoch < 2 ^ 32
  slots : ∀ site, PairCurrent resolve state site (state.slots site)
  threads : ∀ thread, ThreadCurrent resolve state (state.threads thread)

theorem current_initial (registries : Registries) :
    Current resolve (State.initial registries : State Registries Site Method)
      where
  bounded := by simp [State.initial]
  slots := fun site epoch type small equal =>
    absurd equal.symm (key_ne_zero type small)
  threads := fun _ => trivial

/-- From one state to the other the epoch stays, and resolutions stay unless a
bump is ahead. -/
structure Carries (before after : State Registries Site Method) : Prop where
  epoch : after.globalMethodICEpoch = before.globalMethodICEpoch
  calm : ¬ after.BumpAhead → ¬ before.BumpAhead ∧ ∀ site type,
    resolve after.registries site type = resolve before.registries site type

section Carries

variable {resolve} {before after : State Registries Site Method}

theorem PairCurrent.carry
    {site : Site}
    {pair : InlineCache Method}
    (current : PairCurrent resolve before site pair)
    (carries : Carries resolve before after) :
    PairCurrent resolve after site pair := by
  intro epoch type small equal
  obtain ⟨notAhead, holds⟩ := current epoch type small equal
  rw [carries.epoch]
  refine ⟨notAhead, fun isCurrent calm => ?_⟩
  obtain ⟨calmBefore, same⟩ := carries.calm calm
  rw [same]
  exact holds isCurrent calmBefore

theorem BridgeCurrent.carry
    {site : Site}
    {type : ObjectType}
    {bridge : Method}
    (current : BridgeCurrent resolve before site type bridge)
    (carries : Carries resolve before after) :
    BridgeCurrent resolve after site type bridge := by
  intro calm
  obtain ⟨calmBefore, same⟩ := carries.calm calm
  rw [same]
  exact current calmBefore

theorem ThreadCurrent.carry
    {activity : Activity Site Method}
    (current : ThreadCurrent resolve before activity)
    (carries : Carries resolve before after) :
    ThreadCurrent resolve after activity := by
  cases activity with
  | idle => trivial
  | updating update => trivial
  | loaded site type pair => exact PairCurrent.carry current carries
  | missed site type => trivial
  | resolved site type bridge => exact BridgeCurrent.carry current carries
  | reloaded site type bridge currentIC =>
      exact ⟨current.1.carry carries, current.2.carry carries⟩
  | checked site type bridge currentEpoch =>
      exact ⟨current.1.carry carries, carries.epoch ▸ current.2⟩

/-- The bumps ahead stay ahead when a thread without one moves. -/
theorem carries_setThread
    (resolve : Registries → Site → ObjectType → Option Method)
    {thread : Thread}
    (activity : Activity Site Method)
    (notAhead : ∀ update, before.threads thread = .updating update →
      update.bumps = false) :
    Carries resolve before (before.setThread thread activity) := by
  refine ⟨rfl, fun calm => ⟨?_, fun _ _ => rfl⟩⟩
  rintro ⟨other, update, updating, bumps⟩
  refine calm ⟨other, update, ?_, bumps⟩
  have isOther : other ≠ thread := by
    rintro rfl
    rw [notAhead update updating] at bumps
    cases bumps
  simp only [State.setThread, Function.update_of_ne isOther]
  exact updating

/-- A thread moves on with something current. -/
theorem Current.setThread
    (current : Current resolve before)
    (thread : Thread)
    (activity : Activity Site Method)
    (notAhead : ∀ update, before.threads thread = .updating update →
      update.bumps = false)
    (holds : ThreadCurrent resolve before activity) :
    Current resolve (before.setThread thread activity) := by
  have carries := carries_setThread resolve activity notAhead
  refine ⟨current.bounded, fun site => (current.slots site).carry carries,
    fun other => ?_⟩
  by_cases isThread : other = thread
  · subst isThread
    simp only [State.setThread, Function.update_self]
    exact holds.carry carries
  · simp only [State.setThread, Function.update_of_ne isThread]
    exact (current.threads other).carry carries

/-- A bump leaves all pairs behind, and needs every held bridge to be right. -/
theorem Current.bump
    {thread : Thread}
    (current : Current resolve before)
    (settled : ∀ thread site type bridge,
      (before.threads thread).Resolved site type bridge →
      resolve before.registries site type = some bridge)
    (small : before.globalMethodICEpoch + 1 < 2 ^ 32) :
    Current resolve { before.setThread thread .idle with
      globalMethodICEpoch := (before.globalMethodICEpoch + 1) % 2 ^ 64 } := by
  have bumped : (before.globalMethodICEpoch + 1) % 2 ^ 64 =
      before.globalMethodICEpoch + 1 :=
    Nat.mod_eq_of_lt (by omega)
  rw [bumped]
  have pairs : ∀ site pair, PairCurrent resolve before site pair →
      PairCurrent resolve { before.setThread thread .idle with
        globalMethodICEpoch := before.globalMethodICEpoch + 1 } site pair := by
    intro site pair pairCurrent epoch type epochSmall equal
    have notAhead := (pairCurrent epoch type epochSmall equal).1
    exact ⟨Nat.le_succ_of_le notAhead, fun isCurrent => by
      simp only at isCurrent
      omega⟩
  refine ⟨small, fun site => pairs site _ (current.slots site), fun other => ?_⟩
  by_cases isThread : other = thread
  · subst isThread
    simp only [State.setThread, Function.update_self]
    trivial
  · simp only [State.setThread, Function.update_of_ne isThread]
    have holds := current.threads other
    have right := settled other
    cases activity : before.threads other with
    | idle => trivial
    | updating update => trivial
    | loaded site type pair =>
        rw [activity] at holds
        exact pairs site pair holds
    | missed site type => trivial
    | resolved site type bridge =>
        rw [activity] at right
        exact fun _ => right site type bridge ⟨rfl, rfl, rfl⟩
    | reloaded site type bridge currentIC =>
        rw [activity] at right holds
        exact ⟨fun _ => right site type bridge ⟨rfl, rfl, rfl⟩,
          pairs site _ holds.2⟩
    | checked site type bridge currentEpoch =>
        rw [activity] at right holds
        exact ⟨fun _ => right site type bridge ⟨rfl, rfl, rfl⟩,
          Nat.le_succ_of_le holds.2⟩

end Carries

/-- Undisturbed steps keep everything current. -/
theorem Current.step
    [DecidableEq Site]
    {before after : State Registries Site Method}
    {label : Label Site Method}
    (current : Current resolve before)
    (stepped : Step resolve before label after)
    (undisturbed : Undisturbed resolve before after) :
    Current resolve after := by
  cases stepped with
  | startUpdate thread update idle =>
      exact current.setThread thread _ (by simp [idle]) trivial
  | writeRegistries thread update registries updating =>
      have carries :
          Carries resolve before { before with registries := registries } := by
        refine ⟨rfl, fun calm => ⟨calm, ?_⟩⟩
        exact undisturbed.announced.resolve_left calm
      exact ⟨current.bounded, fun site => (current.slots site).carry carries,
        fun thread => (current.threads thread).carry carries⟩
  | endUpdate thread update updating =>
      cases bumps : update.bumps with
      | true =>
          have small := undisturbed.bounded
          have settled := undisturbed.settled
          have bounded := current.bounded
          have bumped : (before.globalMethodICEpoch + 1) % 2 ^ 64 =
              before.globalMethodICEpoch + 1 := Nat.mod_eq_of_lt (by omega)
          simp only [bumps, if_true] at small settled ⊢
          exact current.bump (settled (by omega)) (by omega)
      | false =>
          have moved := current.setThread thread .idle
            (fun other equal => by
              rw [updating] at equal
              cases equal
              exact bumps) trivial
          simp only [Bool.false_eq_true, if_false]
          exact moved
  | loadSlot thread site type idle =>
      exact current.setThread thread _ (by simp [idle]) (current.slots site)
  | hit thread site type pair loaded isHit =>
      exact current.setThread thread _ (by simp [loaded]) trivial
  | miss thread site type pair loaded isMiss =>
      exact current.setThread thread _ (by simp [loaded]) trivial
  | compileBridge thread site type bridge missed found =>
      exact current.setThread thread _ (by simp [missed]) fun _ => found
  | compileFails thread site type missed notFound =>
      exact current.setThread thread _ (by simp [missed]) trivial
  | reloadSlot thread site type bridge resolved =>
      have holds := current.threads thread
      rw [resolved] at holds
      exact current.setThread thread _ (by simp [resolved])
        ⟨holds, current.slots site⟩
  | alreadyUpdated thread site type bridge currentIC reloaded isExpected =>
      exact current.setThread thread _ (by simp [reloaded]) trivial
  | loadEpoch thread site type bridge currentIC reloaded notExpected =>
      have holds := current.threads thread
      rw [reloaded] at holds
      exact current.setThread thread _ (by simp [reloaded]) ⟨holds.1, le_rfl⟩
  | storeSlot thread site type bridge currentEpoch checked =>
      have holds := current.threads thread
      rw [checked] at holds
      have moved := current.setThread thread .idle (by simp [checked]) trivial
      refine ⟨moved.bounded, fun other => ?_, moved.threads⟩
      by_cases isSite : other = site
      · subst isSite
        simp only [Function.update_self]
        intro epoch otherType small equal
        obtain ⟨rfl, rfl⟩ :=
          key_injective (holds.2.trans_lt current.bounded) small equal
        refine ⟨holds.2, fun _ calm => ⟨bridge, rfl, ?_⟩⟩
        exact holds.1
          ((carries_setThread resolve .idle (by simp [checked])).calm calm).1
      · simp only [Function.update_of_ne isSite]
        exact moved.slots other

/-- Steps that leave the registries and the epoch alone disturb nothing. -/
theorem Undisturbed.of_same
    {before after : State Registries Site Method}
    (registriesEqual : after.registries = before.registries)
    (epochEqual : after.globalMethodICEpoch = before.globalMethodICEpoch)
    (bounded : before.globalMethodICEpoch < 2 ^ 32) :
    Undisturbed resolve before after where
  announced := .inr fun _ _ => by rw [registriesEqual]
  settled := fun changed => absurd epochEqual changed
  bounded := epochEqual ▸ bounded

/-- `stringType`. -/
def stringType : ObjectType := ⟨1, by decide, by decide⟩

/-- One thread and one call site, whose methods are numbers: the registries hold
the current one. -/
def oneThread
    (registries epoch : Nat)
    (slot : InlineCache Nat)
    (activity : Activity Unit Nat) : State Nat Unit Nat :=
  ⟨registries, epoch, fun _ => slot,
    fun thread => if thread = 0 then activity else .idle⟩

/-- The only thread moves. -/
theorem oneThread_setThread
    (registries epoch : Nat)
    (slot : InlineCache Nat)
    (activity next : Activity Unit Nat) :
    (oneThread registries epoch slot activity).setThread 0 next =
      oneThread registries epoch slot next := by
  simp only [oneThread, State.setThread, State.mk.injEq, true_and]
  funext thread
  by_cases isCaller : thread = 0 <;> simp [isCaller]

theorem oneThread_quiet
    (registries epoch : Nat)
    (slot : InlineCache Nat)
    {activity : Activity Unit Nat}
    (notUpdating : ∀ update, activity ≠ .updating update) :
    (oneThread registries epoch slot activity).Quiet := by
  intro thread update
  by_cases isCaller : thread = 0
  · simp [oneThread, isCaller, notUpdating]
  · simp [oneThread, isCaller]

section Example

variable (registries epoch : Nat) (slot : InlineCache Nat)

/-- The resolution of the example. -/
def currentMethod (registries : Nat) (_ : Unit) (_ : ObjectType) : Option Nat :=
  some registries

/-- A call that misses, up to the store of its bridge. -/
theorem oneThread_miss
    (bounded : epoch < 2 ^ 32)
    (isMiss : slot.key ≠ key epoch stringType) :
    Relation.ReflTransGen (UndisturbedStep currentMethod)
      (oneThread registries epoch slot .idle) (oneThread registries epoch slot
        (.checked () stringType registries epoch)) := by
  have moves : ∀ {activity next : Activity Unit Nat} {label},
      Step currentMethod (oneThread registries epoch slot activity) label
        ((oneThread registries epoch slot activity).setThread 0 next) →
      UndisturbedStep currentMethod (oneThread registries epoch slot activity)
        (oneThread registries epoch slot next) := by
    intro activity next label stepped
    rw [oneThread_setThread] at stepped
    exact ⟨⟨label, stepped⟩, .of_same _ rfl rfl bounded⟩
  exact Relation.ReflTransGen.refl
    |>.tail (moves (.loadSlot _ 0 () stringType rfl))
    |>.tail (moves (.miss _ 0 () stringType slot rfl isMiss))
    |>.tail (moves (.compileBridge _ 0 () stringType registries rfl rfl))
    |>.tail (moves (.reloadSlot _ 0 () stringType registries rfl))
    |>.tail (moves (.loadEpoch _ 0 () stringType registries slot rfl isMiss))

theorem oneThread_store :
    Step currentMethod
      (oneThread registries epoch slot
      (.checked () stringType registries epoch))
      (.served () stringType (some registries))
      (oneThread registries epoch ⟨key epoch stringType, some registries⟩
        .idle) := by
  have stored : Step currentMethod
      (oneThread registries epoch slot
        (.checked () stringType registries epoch))
      (.served () stringType (some registries)) _ :=
    .storeSlot _ 0 () stringType registries epoch rfl
  rw [oneThread_setThread] at stored
  have slotsEqual : Function.update (fun _ : Unit => slot) ()
      ⟨key epoch stringType, some registries⟩ =
        fun _ => ⟨key epoch stringType, some registries⟩ := by
    funext site
    simp
  simp only [oneThread, slotsEqual] at stored ⊢
  exact stored

end Example

end Bridge
end ClojureRt
