import ClojureRt.Lib.TransitionSystem
import Mathlib.Logic.Function.Basic

/-!
# Epoch-based reclamation as a step relation

Every constructor of `Step` is one atomic access of one thread to shared memory
(a load, a store, a compare-and-swap, taking or leaving the mutex), together
with the thread-local work up to the next one.  Any number of threads interleave
freely.  Epochs are natural numbers and memory is sequentially consistent, so
the barriers of the source have no counterpart.

The registry is the list of thread records that hang off `registry_head`: the
`next` field of a published record never changes, so a thread that walks the
registry holds a suffix of that list, and comparing two heads compares two
lists.  The retired objects are linked through real `next` fields, because the
reclaimer rewrites them.  `pending_count`, which only decides when the
reclaimer is woken, and `active_threads`, which nothing here reads, are left
out.  A release that retires further values does so by further calls of
`autorelease`, which the model lets any other thread make at that point.

The fields behind the comment `ghost` record history and are never read by a
step.
-/

namespace ClojureRt
namespace Runtime
namespace Ebr

/-- Threads are numbered. -/
abbrev Thread := Nat

/-- Addresses of thread records and of retired objects. -/
abbrev Address := Nat

/-- `ThreadState`: the published state of one thread. -/
structure ThreadState where
  localEpoch : Nat
  active : Bool
  terminated : Bool
  deriving DecidableEq

/-- One call of `autorelease`, identified by the moment it was made. -/
structure Call (Value : Type*) where
  value : Value
  calledAt : Nat
  deriving DecidableEq

/-- `RetiredObject`, with the call that allocated it.  Its `value` field is the
value of the call. -/
structure RetiredObject (Value : Type*) where
  call : Call Value
  epochRetired : Nat
  next : Option Address
  deriving DecidableEq

/-- Where a thread stands in the code, with the local variables it still
needs. -/
inductive Pc (Value : Type*)
  | idle
  -- Ebr_register_thread
  | registerScan (todo : List Address)
  | registerClaim (record : Address) (todo : List Address)
  | registerStoreActive (record : Address)
  | registerStoreEpoch (record : Address)
  | registerLoadHead (record : Address)
  | registerPush (record : Address) (oldHead : List Address)
  -- Ebr_unregister_thread
  | unregisterStoreTerminated
  -- Ebr_enter_critical, Ebr_flush_critical
  | enterStoreActive (current : Nat)
  | enterStoreEpoch (current : Nat)
  | flushStoreEpoch (current : Nat)
  -- autorelease
  | retireLoadEpoch (call : Call Value)
  | retireLoadHead (node : Address)
  | retirePush (node : Address) (oldHead : Option Address)
  -- Ebr_synchronize_and_reclaim
  | syncLoadGlobal
  | syncLoadRegistry (currentGlobal : Nat)
  | syncScan (currentGlobal : Nat) (todo : List Address)
  | syncLoadEpoch (currentGlobal : Nat) (record : Address) (todo : List Address)
  | syncAdvance (currentGlobal : Nat)
  | syncSteal (currentGlobal : Nat)
  | syncLoop (currentGlobal : Nat) (cur : Option Address)
      (toKeep : Option (Address × Address))
  | syncLoadPending (toKeepHead toKeepTail : Address)
  | syncPush (toKeepHead toKeepTail : Address) (oldHead : Option Address)
  | syncUnlock
  -- Ebr_force_reclaim
  | forceLoadPending

/-- Shared memory, the threads, and the recorded history. -/
structure State (Value : Type*) where
  globalEpoch : Nat
  registry : List Address
  record : Address → Option ThreadState
  pendingReclamation : Option Address
  retired : Address → Option (RetiredObject Value)
  synchronizationMutex : Option Thread
  threadState : Thread → Option Address
  pc : Thread → Pc Value
  -- ghost
  /-- Number of steps made so far. -/
  clock : Nat
  /-- When the current critical section of a thread was entered or last flushed,
  and the global epoch at that moment. -/
  criticalSection : Thread → Option (Nat × Nat)
  /-- The unlinks made so far, with their moments. -/
  unlinked : List (Value × Nat)
  /-- The calls of `autorelease` made so far with a pointer. -/
  called : List (Call Value)
  /-- The calls whose value was released. -/
  released : List (Call Value)

variable {Value : Type*}

/-- The state before any thread registered. -/
def State.initial : State Value where
  globalEpoch := 0
  registry := []
  record := fun _ => none
  pendingReclamation := none
  retired := fun _ => none
  synchronizationMutex := none
  threadState := fun _ => none
  pc := fun _ => .idle
  clock := 0
  criticalSection := fun _ => none
  unlinked := []
  called := []
  released := []

namespace State

/-- Move a thread on and let time pass. -/
def goto (state : State Value) (thread : Thread)
    (pc : Pc Value) : State Value :=
  { state with
    pc := Function.update state.pc thread pc
    clock := state.clock + 1 }

/-- Overwrite a thread record. -/
def setRecord
    (state : State Value)
    (address : Address)
    (threadState : ThreadState) : State Value :=
  { state with
    record := Function.update state.record address (some threadState) }

/-- Assign the thread-local `thread_state`. -/
def setThreadState
    (state : State Value)
    (thread : Thread)
    (record : Option Address) : State Value :=
  { state with threadState := Function.update state.threadState thread record }

/-- Overwrite or free a retired object. -/
def setRetired
    (state : State Value)
    (address : Address)
    (object : Option (RetiredObject Value)) : State Value :=
  { state with retired := Function.update state.retired address object }

/-- Record that a thread is in a section since now. -/
def beginSection (state : State Value) (thread : Thread) : State Value :=
  { state with
    criticalSection := Function.update state.criticalSection thread
      (some (state.clock, state.globalEpoch)) }

/-- Record that a thread is in no section. -/
def endSection (state : State Value) (thread : Thread) : State Value :=
  { state with
    criticalSection := Function.update state.criticalSection thread none }

end State

/-- Steps of `Ebr_register_thread` and `Ebr_unregister_thread`. -/
inductive RegisterStep (thread : Thread) : State Value → State Value → Prop
  | loadHead (state : State Value) :
      state.pc thread = .idle →
      state.threadState thread = none →
      RegisterStep thread state
        (state.goto thread (.registerScan state.registry))
  | loadTerminated (state : State Value) (record : Address)
      (todo : List Address)
      (found : ThreadState) :
      state.pc thread = .registerScan (record :: todo) →
      state.record record = some found →
      RegisterStep thread state
        (state.goto thread
          (if found.terminated then .registerClaim record todo
            else .registerScan todo))
  | claim (state : State Value) (record : Address) (todo : List Address)
      (found : ThreadState) :
      state.pc thread = .registerClaim record todo →
      state.record record = some found →
      found.terminated = true →
      RegisterStep thread state
        ((state.setRecord record { found with terminated := false }).goto thread
          (.registerStoreActive record))
  | claimFailed (state : State Value) (record : Address) (todo : List Address)
      (found : ThreadState) :
      state.pc thread = .registerClaim record todo →
      state.record record = some found →
      found.terminated = false →
      RegisterStep thread state (state.goto thread (.registerScan todo))
  | storeActive (state : State Value) (record : Address) (found : ThreadState) :
      state.pc thread = .registerStoreActive record →
      state.record record = some found →
      RegisterStep thread state
        ((state.setRecord record { found with active := false }).goto thread
          (.registerStoreEpoch record))
  | storeEpoch (state : State Value) (record : Address) (found : ThreadState) :
      state.pc thread = .registerStoreEpoch record →
      state.record record = some found →
      RegisterStep thread state
        (((state.setRecord record { found with localEpoch := 0 }).setThreadState
          thread (some record)).goto thread .idle)
  | allocate (state : State Value) (record : Address) :
      state.pc thread = .registerScan [] →
      state.record record = none →
      RegisterStep thread state
        ((state.setRecord record ⟨0, false, false⟩).goto thread
          (.registerLoadHead record))
  | loadOldHead (state : State Value) (record : Address) :
      state.pc thread = .registerLoadHead record →
      RegisterStep thread state
        (state.goto thread (.registerPush record state.registry))
  | push (state : State Value) (record : Address) (oldHead : List Address) :
      state.pc thread = .registerPush record oldHead →
      state.registry = oldHead →
      RegisterStep thread state
        ((({ state with registry := record :: oldHead }).setThreadState
          thread (some record)).goto thread .idle)
  | pushFailed (state : State Value) (record : Address)
      (oldHead : List Address) :
      state.pc thread = .registerPush record oldHead →
      RegisterStep thread state (state.goto thread (.registerLoadHead record))
  | unregisterStoreActive (state : State Value) (record : Address)
      (found : ThreadState) :
      state.pc thread = .idle →
      state.threadState thread = some record →
      state.record record = some found →
      RegisterStep thread state
        (((state.setRecord record { found with active := false }).endSection
          thread).goto thread .unregisterStoreTerminated)
  | unregisterStoreTerminated (state : State Value) (record : Address)
      (found : ThreadState) :
      state.pc thread = .unregisterStoreTerminated →
      state.threadState thread = some record →
      state.record record = some found →
      RegisterStep thread state
        (((state.setRecord record
          { found with terminated := true }).setThreadState
          thread none).goto thread .idle)

/-- Steps of `Ebr_enter_critical`, `Ebr_flush_critical` and
`Ebr_leave_critical`, and the unlink of a value by code outside this file.
Sections do not nest: a thread enters one only while it is in none. -/
inductive SectionStep (thread : Thread) : State Value → State Value → Prop
  | enterLoadEpoch (state : State Value) (record : Address) :
      state.pc thread = .idle →
      state.threadState thread = some record →
      state.criticalSection thread = none →
      SectionStep thread state
        (state.goto thread (.enterStoreActive state.globalEpoch))
  | enterStoreActive (state : State Value) (current : Nat) (record : Address)
      (found : ThreadState) :
      state.pc thread = .enterStoreActive current →
      state.threadState thread = some record →
      state.record record = some found →
      SectionStep thread state
        ((state.setRecord record { found with active := true }).goto thread
          (.enterStoreEpoch current))
  | enterStoreEpoch (state : State Value) (current : Nat) (record : Address)
      (found : ThreadState) :
      state.pc thread = .enterStoreEpoch current →
      state.threadState thread = some record →
      state.record record = some found →
      SectionStep thread state
        (((state.setRecord record
          { found with localEpoch := current }).beginSection
          thread).goto thread .idle)
  | flushLoadEpoch (state : State Value) (record : Address) :
      state.pc thread = .idle →
      state.threadState thread = some record →
      SectionStep thread state
        (state.goto thread (.flushStoreEpoch state.globalEpoch))
  | flushStoreEpoch (state : State Value) (current : Nat) (record : Address)
      (found : ThreadState) :
      state.pc thread = .flushStoreEpoch current →
      state.threadState thread = some record →
      state.record record = some found →
      state.criticalSection thread ≠ none →
      SectionStep thread state
        (((state.setRecord record
          { found with localEpoch := current }).beginSection
          thread).goto thread .idle)
  | flushStoreEpochOutside (state : State Value) (current : Nat)
      (record : Address)
      (found : ThreadState) :
      state.pc thread = .flushStoreEpoch current →
      state.threadState thread = some record →
      state.record record = some found →
      state.criticalSection thread = none →
      SectionStep thread state
        ((state.setRecord record { found with localEpoch := current }).goto
          thread .idle)
  | leave (state : State Value) (record : Address) (found : ThreadState) :
      state.pc thread = .idle →
      state.threadState thread = some record →
      state.record record = some found →
      SectionStep thread state
        (((state.setRecord record { found with active := false }).endSection
          thread).goto thread .idle)
  | unlink (state : State Value) (value : Value) :
      state.pc thread = .idle →
      SectionStep thread state
        (({ state with
            unlinked := (value, state.clock) :: state.unlinked }).goto
              thread .idle)

/-- Steps of `autorelease`.  A value that is no pointer is not retired. -/
inductive RetireStep
    (isPtr : Value → Bool)
    (thread : Thread) : State Value → State Value → Prop
  | callWithoutPointer (state : State Value) (value : Value) :
      state.pc thread = .idle →
      isPtr value = false →
      RetireStep isPtr thread state (state.goto thread .idle)
  | call (state : State Value) (value : Value) :
      state.pc thread = .idle →
      isPtr value = true →
      RetireStep isPtr thread state
        (({ state with called := ⟨value, state.clock⟩ :: state.called }).goto
          thread (.retireLoadEpoch ⟨value, state.clock⟩))
  | loadEpoch (state : State Value) (call : Call Value) (node : Address) :
      state.pc thread = .retireLoadEpoch call →
      state.retired node = none →
      RetireStep isPtr thread state
        ((state.setRetired node (some ⟨call, state.globalEpoch, none⟩)).goto
          thread (.retireLoadHead node))
  | loadHead (state : State Value) (node : Address)
      (object : RetiredObject Value) :
      state.pc thread = .retireLoadHead node →
      state.retired node = some object →
      RetireStep isPtr thread state
        ((state.setRetired node
          (some { object with next := state.pendingReclamation })).goto thread
            (.retirePush node state.pendingReclamation))
  | push (state : State Value) (node : Address) (oldHead : Option Address) :
      state.pc thread = .retirePush node oldHead →
      state.pendingReclamation = oldHead →
      RetireStep isPtr thread state
        (({ state with pendingReclamation := some node }).goto thread .idle)
  | pushFailed (state : State Value) (node : Address)
      (oldHead : Option Address) :
      state.pc thread = .retirePush node oldHead →
      RetireStep isPtr thread state (state.goto thread (.retireLoadHead node))

/-- The test `current_global - cur->epoch_retired >= 2`.  The difference is
unsigned, so it is huge when the retired epoch is ahead of the global one. -/
def OldEnough (currentGlobal epochRetired : Nat) : Prop :=
  currentGlobal < epochRetired ∨ 2 ≤ currentGlobal - epochRetired

instance (currentGlobal epochRetired : Nat) : Decidable
    (OldEnough currentGlobal epochRetired) :=
  inferInstanceAs (Decidable (_ ∨ _))

/-- Steps of `Ebr_synchronize_and_reclaim`, and the look at the pending list
under the mutex by which `Ebr_force_reclaim` decides whether to call it
again. -/
inductive SyncStep (thread : Thread) : State Value → State Value → Prop
  | lock (state : State Value) :
      state.pc thread = .idle →
      state.synchronizationMutex = none →
      SyncStep thread state
        (({ state with synchronizationMutex := some thread }).goto thread
          .syncLoadGlobal)
  | loadGlobal (state : State Value) :
      state.pc thread = .syncLoadGlobal →
      SyncStep thread state
        (state.goto thread (.syncLoadRegistry state.globalEpoch))
  | loadRegistry (state : State Value) (currentGlobal : Nat) :
      state.pc thread = .syncLoadRegistry currentGlobal →
      SyncStep thread state
        (state.goto thread (.syncScan currentGlobal state.registry))
  | scanDone (state : State Value) (currentGlobal : Nat) :
      state.pc thread = .syncScan currentGlobal [] →
      SyncStep thread state (state.goto thread (.syncAdvance currentGlobal))
  | loadActive (state : State Value) (currentGlobal : Nat) (record : Address)
      (todo : List Address) (found : ThreadState) :
      state.pc thread = .syncScan currentGlobal (record :: todo) →
      state.record record = some found →
      SyncStep thread state
        (state.goto thread
          (if found.active then .syncLoadEpoch currentGlobal record todo
            else .syncScan currentGlobal todo))
  | loadLocalEpoch (state : State Value) (currentGlobal : Nat)
      (record : Address)
      (todo : List Address) (found : ThreadState) :
      state.pc thread = .syncLoadEpoch currentGlobal record todo →
      state.record record = some found →
      SyncStep thread state
        (state.goto thread
          (if found.localEpoch ≠ currentGlobal then .syncSteal currentGlobal
            else .syncScan currentGlobal todo))
  | advance (state : State Value) (currentGlobal : Nat) :
      state.pc thread = .syncAdvance currentGlobal →
      SyncStep thread state
        (({ state with globalEpoch := state.globalEpoch + 1 }).goto thread
          (.syncSteal (currentGlobal + 1)))
  | steal (state : State Value) (currentGlobal : Nat) :
      state.pc thread = .syncSteal currentGlobal →
      SyncStep thread state
        (({ state with pendingReclamation := none }).goto thread
          (.syncLoop currentGlobal state.pendingReclamation none))
  | release (state : State Value) (currentGlobal : Nat) (cur : Address)
      (toKeep : Option (Address × Address)) (object : RetiredObject Value) :
      state.pc thread = .syncLoop currentGlobal (some cur) toKeep →
      state.retired cur = some object →
      OldEnough currentGlobal object.epochRetired →
      SyncStep thread state
        ((({ state with released := object.call :: state.released }).setRetired
          cur none).goto thread (.syncLoop currentGlobal object.next toKeep))
  | keepFirst (state : State Value) (currentGlobal : Nat) (cur : Address)
      (object : RetiredObject Value) :
      state.pc thread = .syncLoop currentGlobal (some cur) none →
      state.retired cur = some object →
      ¬ OldEnough currentGlobal object.epochRetired →
      SyncStep thread state
        ((state.setRetired cur (some { object with next := none })).goto thread
          (.syncLoop currentGlobal object.next (some (cur, cur))))
  | keepLater (state : State Value) (currentGlobal : Nat)
      (cur toKeepHead toKeepTail : Address)
      (object tailObject : RetiredObject Value) :
      state.pc thread = .syncLoop currentGlobal (some cur)
        (some (toKeepHead, toKeepTail)) →
      state.retired cur = some object →
      state.retired toKeepTail = some tailObject →
      ¬ OldEnough currentGlobal object.epochRetired →
      SyncStep thread state
        (((state.setRetired cur (some { object with next := none })).setRetired
          toKeepTail (some { tailObject with next := some cur })).goto thread
            (.syncLoop currentGlobal object.next (some (toKeepHead, cur))))
  | loopDoneEmpty (state : State Value) (currentGlobal : Nat) :
      state.pc thread = .syncLoop currentGlobal none none →
      SyncStep thread state (state.goto thread .syncUnlock)
  | loopDone (state : State Value) (currentGlobal : Nat)
      (toKeepHead toKeepTail : Address) :
      state.pc thread = .syncLoop currentGlobal none
        (some (toKeepHead, toKeepTail)) →
      SyncStep thread state
        (state.goto thread (.syncLoadPending toKeepHead toKeepTail))
  | loadPending (state : State Value) (toKeepHead toKeepTail : Address)
      (tailObject : RetiredObject Value) :
      state.pc thread = .syncLoadPending toKeepHead toKeepTail →
      state.retired toKeepTail = some tailObject →
      SyncStep thread state
        ((state.setRetired toKeepTail
          (some { tailObject with next := state.pendingReclamation })).goto
            thread (.syncPush toKeepHead toKeepTail state.pendingReclamation))
  | push (state : State Value) (toKeepHead toKeepTail : Address)
      (oldHead : Option Address) :
      state.pc thread = .syncPush toKeepHead toKeepTail oldHead →
      state.pendingReclamation = oldHead →
      SyncStep thread state
        (({ state with pendingReclamation := some toKeepHead }).goto thread
          .syncUnlock)
  | pushFailed (state : State Value) (toKeepHead toKeepTail : Address)
      (oldHead : Option Address) :
      state.pc thread = .syncPush toKeepHead toKeepTail oldHead →
      SyncStep thread state
        (state.goto thread (.syncLoadPending toKeepHead toKeepTail))
  | unlock (state : State Value) :
      state.pc thread = .syncUnlock →
      SyncStep thread state
        (({ state with synchronizationMutex := none }).goto thread .idle)
  | forceLock (state : State Value) :
      state.pc thread = .idle →
      state.synchronizationMutex = none →
      SyncStep thread state
        (({ state with synchronizationMutex := some thread }).goto thread
          .forceLoadPending)
  | forceLoadPending (state : State Value) :
      state.pc thread = .forceLoadPending →
      SyncStep thread state (state.goto thread .syncUnlock)

/-- One atomic step of some thread. -/
inductive Step (isPtr : Value → Bool) (before after : State Value) : Prop
  | register (thread : Thread) : RegisterStep thread before after →
      Step isPtr before after
  | critical (thread : Thread) : SectionStep thread before after →
      Step isPtr before after
  | retire (thread : Thread) :
      RetireStep isPtr thread before after → Step isPtr before after
  | sync (thread : Thread) : SyncStep thread before after →
      Step isPtr before after

/-- States of the system reached from the empty one. -/
def Reachable (isPtr : Value → Bool) : State Value → Prop :=
  TransitionSystem.Reachable (fun state => state = State.initial) (Step isPtr)

end Ebr
end Runtime
end ClojureRt
